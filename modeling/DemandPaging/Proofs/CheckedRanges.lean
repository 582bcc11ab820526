import DemandPaging.Proofs.FaultVerdicts

/-!
Buffers that were checked. The check is about pages and the access about bytes, and the fault handler
makes up its own mind; what the check accepts it lets go on, at any later time, as long as nobody takes
the pages away.
-/

namespace DemandPaging

open DemandPaging.Core

variable {m m₀ m₁ m' : Machine} {ref : PageRef} {s : SpaceId} {va sp : VirtAddr} {write : Bool}
  {length count : Nat} {vpn : PageNum} {op : Operation} {a : Answer} {flags : FaultFlags}
  {log : List Exchange} {ds : List Deed} {frames : Nat} {sectors : Option Nat} {files : List File}
  {allocator : Allocator}

def Machine.Permits (m : Machine) (write : Bool) (ref : PageRef) : Prop :=
  ∃ page, m.pages.find? ref = some page ∧ (write = true → page.writable = true)

/-- Every byte of the buffer is a user's, on a page that permits the access. The sum is that of numbers:
an address that wraps around is beyond user space. -/
def Machine.Accepts (m : Machine) (s : SpaceId) (va : VirtAddr) (length : Nat) (write : Bool) : Prop :=
  ∀ i < length, va.val ≠ 0 ∧ va.val + i < userSpaceEnd ∧ m.Permits write ⟨s, (va.advance i).vpnFloor⟩

namespace VirtAddr

theorem add?_eq_none : va.add? length = none ↔ wordBound ≤ va.val + length := by
  unfold add? ofNat?
  split
  · next h => exact iff_of_false (Option.some_ne_none _) (Nat.not_le_of_lt h)
  · next h => exact iff_of_true rfl (Nat.le_of_not_lt h)

theorem val_of_add? {stop : VirtAddr} (h : va.add? length = some stop) :
    stop.val = va.val + length := by
  unfold add? ofNat? at h
  split at h
  · exact (congrArg val (Option.some.inj h)).symm
  · cases h

end VirtAddr

/-! The check itself. -/

theorem checkPages_verdict (s : SpaceId) (va : VirtAddr) (length : Nat) (write : Bool) (count : Nat)
    (vpn : PageNum) (m : Machine) :
    ∃ verdict console, checkPages s va length write count vpn m = .ok verdict { m with console } ∧
      (verdict = .ok () ∧ (∀ v ∈ vpn.range count, m.Permits write ⟨s, v⟩) ∨
        verdict = .error .fault ∧ ∃ v ∈ vpn.range count, ¬ m.Permits write ⟨s, v⟩) := by
  induction count generalizing vpn with
  | zero => exact ⟨.ok (), m.console, rfl, .inl ⟨rfl, nofun⟩⟩
  | succ count ih =>
      have looked : page? ⟨s, vpn⟩ m = .ok (m.pages.find? ⟨s, vpn⟩) m := rfl
      have refused {event : Event} {x : KernelM (Except Errno Unit)}
          (hx : x = (do
            emit event
            pure (.error .fault))) (forbids : ¬ m.Permits write ⟨s, vpn⟩) :
          ∃ verdict console, x m = .ok verdict { m with console } ∧
            (verdict = .ok () ∧ (∀ v ∈ vpn.range (count + 1), m.Permits write ⟨s, v⟩) ∨
              verdict = .error .fault ∧ ∃ v ∈ vpn.range (count + 1), ¬ m.Permits write ⟨s, v⟩) := by
        subst hx
        exact ⟨.error .fault, event :: m.console, rfl, .inr ⟨rfl, vpn, List.mem_cons_self, forbids⟩⟩
      cases there : m.pages.find? ⟨s, vpn⟩ with
      | none =>
          rw [there] at looked
          have forbids : ¬ m.Permits write ⟨s, vpn⟩ := by
            rintro ⟨page, found, -⟩
            exact nomatch there.symm.trans found
          obtain ⟨verdict, console, h, said⟩ := refused rfl forbids
          exact ⟨verdict, console, bind_ok.2 ⟨_, _, looked, h⟩, said⟩
      | some page =>
          rw [there] at looked
          by_cases readOnly : (write && !page.writable) = true
          · have forbids : ¬ m.Permits write ⟨s, vpn⟩ := by
              rintro ⟨page', found, writable⟩
              cases there.symm.trans found
              obtain ⟨hwrite, hpage⟩ := Bool.and_eq_true_iff.1 readOnly
              rw [writable hwrite] at hpage
              exact nomatch hpage
            obtain ⟨verdict, console, h, said⟩ := refused (if_pos readOnly) forbids
            exact ⟨verdict, console, bind_ok.2 ⟨_, _, looked, h⟩, said⟩
          · have permits : m.Permits write ⟨s, vpn⟩ := by
              refine ⟨page, there, fun hwrite => ?_⟩
              rw [hwrite] at readOnly
              simpa using readOnly
            obtain ⟨verdict, console, h, said⟩ := ih ⟨vpn.val + 1⟩
            refine ⟨verdict, console, bind_ok.2 ⟨_, _, looked, (congrFun (if_neg readOnly) m).trans h⟩,
              ?_⟩
            rcases said with ⟨yes, all⟩ | ⟨no, v, hv, forbids⟩
            · exact .inl ⟨yes, List.forall_mem_cons.2 ⟨permits, all⟩⟩
            · exact .inr ⟨no, v, List.mem_cons_of_mem _ hv, forbids⟩

theorem VirtAddr.pages_of_bytes {stop : VirtAddr} {P : PageNum → Prop} (some_of : 0 < length)
    (sum : stop.val = va.val + length) :
    (∀ v ∈ va.vpnFloor.range (stop.vpnCeil.val - va.vpnFloor.val), P v) ↔
      ∀ i < length, P (va.advance i).vpnFloor := by
  have within {i : Nat} (hi : i < length) : (va.advance i).val = va.val + i :=
    val_advance_of_lt (by have := stop.val_lt; omega)
  constructor
  · intro all i hi
    refine all _ (PageNum.mem_range.2 ?_)
    have := within hi
    simp only [vpnFloor, vpnCeil, pageSize] at *
    omega
  · intro all v hv
    obtain ⟨first, last⟩ := PageNum.mem_range.1 hv
    -- the first byte of the buffer on the page
    have hi : max va.val (v.val * pageSize) - va.val < length := by
      simp only [vpnFloor, vpnCeil, pageSize] at *
      omega
    have page : (va.advance (max va.val (v.val * pageSize) - va.val)).vpnFloor = v := by
      obtain ⟨v⟩ := v
      have := within hi
      simp only [vpnFloor, pageSize, PageNum.mk.injEq] at *
      omega
    exact page ▸ all _ hi

theorem checkUserRange_verdict (s : SpaceId) (va : VirtAddr) (length : Nat) (write : Bool) (m : Machine) :
    ∃ verdict console, checkUserRange s va length write m = .ok verdict { m with console } ∧
      (verdict = .ok () ∧ m.Accepts s va length write ∨
        verdict = .error .fault ∧ ¬ m.Accepts s va length write) := by
  have refused (forbids : ¬ m.Accepts s va length write) : ∃ verdict console,
      (pure (.error .fault) : KernelM (Except Errno Unit)) m = .ok verdict { m with console } ∧
        (verdict = .ok () ∧ m.Accepts s va length write ∨
          verdict = .error .fault ∧ ¬ m.Accepts s va length write) :=
    ⟨.error .fault, m.console, rfl, .inr ⟨rfl, forbids⟩⟩
  unfold checkUserRange
  split
  · next empty => exact ⟨.ok (), m.console, rfl, .inl ⟨rfl, fun i hi => by omega⟩⟩
  · next some_of =>
      -- the last byte is the one that may be out of bounds
      have last (accepts : m.Accepts s va length write) :
          va.val ≠ 0 ∧ va.val + (length - 1) < userSpaceEnd := by
        obtain ⟨first, below, -⟩ := accepts (length - 1) (by omega)
        exact ⟨first, below⟩
      cases hstop : va.add? length with
      | none =>
          refine refused fun accepts => ?_
          have below := (last accepts).2
          have wraps := VirtAddr.add?_eq_none.1 hstop
          simp only [userSpaceEnd, wordBound] at *
          omega
      | some stop =>
          have sum := VirtAddr.val_of_add? hstop
          dsimp only
          split
          · next outside =>
              refine refused fun accepts => ?_
              have := last accepts
              simp only [VirtAddr.isUser, Bool.or_eq_true, Bool.not_eq_true', Bool.and_eq_false_iff,
                decide_eq_false_iff_not, decide_eq_true_eq, userSpaceEnd] at *
              omega
          · next inside =>
              have bounds : va.val ≠ 0 ∧ va.val + length ≤ userSpaceEnd := by
                simp only [VirtAddr.isUser, Bool.or_eq_true, Bool.not_eq_true', Bool.and_eq_false_iff,
                  decide_eq_false_iff_not, decide_eq_true_eq, userSpaceEnd] at *
                omega
              obtain ⟨verdict, console, h, said⟩ := checkPages_verdict s va length write
                (stop.vpnCeil.val - va.vpnFloor.val) va.vpnFloor m
              have bytes := VirtAddr.pages_of_bytes (P := fun v => m.Permits write ⟨s, v⟩)
                (Nat.pos_of_ne_zero some_of) sum
              refine ⟨verdict, console, h, ?_⟩
              rcases said with ⟨yes, all⟩ | ⟨no, v, hv, forbids⟩
              · exact .inl ⟨yes, fun i hi => ⟨bounds.1, by omega, bytes.1 all i hi⟩⟩
              · exact .inr ⟨no, fun accepts => forbids (bytes.2 (fun i hi => (accepts i hi).2.2) v hv)⟩

/-! What the pages are like when they are accessed. -/

theorem Machine.Permits.steps (permits : m.Permits write ref) (run : Steps m.core ds m'.core)
    (stays : .drop ref ∉ ds) : m'.Permits write ref := by
  obtain ⟨page, found, writable⟩ := permits
  obtain ⟨page', found', remains⟩ := run.remains found stays
  exact ⟨page', found', fun hwrite => remains.writable.trans (writable hwrite)⟩

theorem Machine.Permits.performed (permits : m.Permits write ref) (hs : m.core.Sound)
    (stays : ¬ op.bare.TakesAway ref) (answered : op.perform m = .ok a m') : m'.Permits write ref := by
  have comes := Operation.perform_comes hs answered
  generalize hc : m'.core = c' at comes
  cases comes with
  | absent _ run =>
      subst hc
      exact permits.steps run nofun
  | @ran c₁ ds first run does =>
      subst hc
      refine permits.steps (first.trans run) fun hd => stays (does.takes_away ?_ hd)
      obtain ⟨page, found, -⟩ := permits
      obtain ⟨page₁, found₁, -⟩ := first.remains found nofun
      rw [found₁]
      exact nofun
  | @tampered c₁ mappings files grants _ first core =>
      subst hc
      obtain ⟨page, found, writable⟩ := permits
      obtain ⟨page₁, found₁, remains⟩ := first.remains found nofun
      refine ⟨page₁, ?_, fun hwrite => remains.writable.trans (writable hwrite)⟩
      exact (congrFun (congrArg (fun c : Core => c.pages.find?) core) ref).trans found₁

theorem Machine.Permits.served {n : Nat} {loan : HandleCount} (permits : m.Permits write ref)
    (tidy : m.Tidy n loan) (run : m.Serves log m')
    (stays : ∀ e ∈ log, ¬ e.1.bare.TakesAway ref) : m'.Permits write ref := by
  induction run with
  | nil => exact permits
  | @next m₁ m' log op a held run answered ih =>
      have before := ih fun e he => stays e (List.mem_append_left _ he)
      exact before.performed (m := { m₁ with held }) (run.reaches.tidy tidy).sound
        (stays (op, a) (List.mem_append_right _ List.mem_cons_self)) answered

/-- A later machine, when none of the pages was taken away: requests were served, and another one may be
under way. -/
inductive Machine.MovesOn (pages : PageRef → Prop) (m m' : Machine) : Prop where
  | intro {m₁ : Machine} {log : List Exchange} {ds : List Deed} (served : m.Serves log m₁)
      (midst : Steps m₁.core ds m'.core)
      (stay : ∀ ref, pages ref → (∀ e ∈ log, ¬ e.1.bare.TakesAway ref) ∧ .drop ref ∉ ds)

theorem Machine.Reaches.trans (run : m.Reaches m₁) (later : m₁.Reaches m') : m.Reaches m' := by
  induction later with
  | refl => exact run
  | served held _ answered ih => exact .served held ih answered

theorem Machine.MovesOn.passes {pages : PageRef → Prop} (h : m₁.MovesOn pages m')
    (run : m.Reaches m₁) : m.Passes m' := by
  obtain ⟨served, midst, -⟩ := h
  exact ⟨_, _, run.trans served.reaches, midst⟩

theorem Machine.Permits.on {n : Nat} {loan : HandleCount} {pages : PageRef → Prop}
    (permits : m.Permits write ref) (tidy : m.Tidy n loan) (later : m.MovesOn pages m')
    (page : pages ref) : m'.Permits write ref := by
  obtain ⟨served, midst, stay⟩ := later
  exact (permits.served tidy served (stay ref page).1).steps midst (stay ref page).2

theorem Machine.Permits.legitimate (permits : m.Permits flags.write ⟨s, va.vpnFloor⟩)
    (user : 0 < va.val ∧ va.val < userSpaceEnd)
    (faulty : flags.write = false → flags.present = false) (granted : m.takesEntry s = true)
    (comes : ∀ page, m.pages.find? ⟨s, va.vpnFloor⟩ = some page → m.initializes page.kind = true) :
    m.Legitimate s va sp flags := by
  obtain ⟨page, found, writable⟩ := permits
  refine ⟨user, fun ⟨present, read⟩ => ?_, granted, ?_⟩
  · exact nomatch (faulty read).symm.trans present
  · rw [found]
    exact ⟨writable, comes page found⟩

/-- A buffer is accepted exactly if all its bytes are a user's and lie on pages that are there, and are
writable if need be; else it is refused as a bad address. When it was accepted, a fault that such an
access raises at one of its bytes is resolved, however late it comes and whatever was served or evicted
since, as long as nobody took the pages away. What it takes is a frame, an entry in the page table, and an
initializer that succeeds. -/
theorem checked_range_resolved (reaches : (Machine.fresh frames sectors files allocator).Reaches m)
    (s : SpaceId) (va : VirtAddr) (length : Nat) (write : Bool) :
    ∃ verdict console, checkUserRange s va length write m = .ok verdict { m with console } ∧
      (verdict = .ok () ∨ verdict = .error .fault) ∧
      (verdict = .ok () ↔ m.Accepts s va length write) ∧
      (verdict = .ok () → ∀ m', Machine.MovesOn (va.Touches s length) { m with console } m' →
        ∀ i < length, ∀ sp flags, flags.write = write → (write = false → flags.present = false) →
          (∃ id m₁, allocateFrame m' = .ok id m₁) → m'.takesEntry s = true →
          (∀ page, m'.pages.find? ⟨s, (va.advance i).vpnFloor⟩ = some page →
            m'.initializes page.kind = true) →
          Ends OutOfTime (resolveFault s (va.advance i) sp flags) m' fun done _ => done = true) := by
  obtain ⟨verdict, console, checked, said⟩ := checkUserRange_verdict s va length write m
  refine ⟨verdict, console, checked, said.imp And.left And.left, ?_, ?_⟩
  · rcases said with ⟨rfl, accepts⟩ | ⟨rfl, forbids⟩
    · exact iff_of_true rfl accepts
    · exact iff_of_false nofun forbids
  · rintro rfl m' later i hi sp flags rfl faulty had granted comes
    have accepts : m.Accepts s va length flags.write := said.elim And.right fun h => nomatch h.1
    obtain ⟨nonzero, below, permits⟩ := accepts i hi
    have tidy := (reaches.tidy (Machine.fresh_tidy frames sectors files allocator)).same
      (show ({ m with console } : Machine).core = m.core from rfl) rfl
    have answered : Operation.perform (.check s va length flags.write) { m with held := m.held } =
        .ok (.accepted (.ok ())) { m with console } := bind_ok.2 ⟨_, _, checked, rfl⟩
    have coherent := (later.passes (reaches.served m.held answered)).coherent
    have permits' : m'.Permits flags.write ⟨s, (va.advance i).vpnFloor⟩ :=
      Machine.Permits.on (m := { m with console }) permits tidy later ⟨i, hi, rfl⟩
    have sum : (va.advance i).val = va.val + i :=
      VirtAddr.val_advance_of_lt (Nat.lt_trans below (by decide))
    exact (resolveFault_timed coherent fun _ => had).imp fun done m'' h _ =>
      (resolveFault_verdict coherent h).2 (permits'.legitimate (by omega) faulty granted comes)

/-- A buffer of four bytes lies on two pages, for which there is one frame. A write to the second page
takes it, and yet the write to the first one goes on. A buffer that ends one byte further, on a page that is
not there, is refused. -/
theorem checked_range_resolved_with_one_frame : ∃ m console m' m'' m₁,
    (Machine.fresh 1 (some 16) []).Reaches m ∧
    checkUserRange 0 (.ofBits 8190) 4 true m = .ok (.ok ()) { m with console } ∧
    Machine.MovesOn ((VirtAddr.ofBits 8190).Touches 0 4) { m with console } m' ∧
    m'.memory.pool.free = 0 ∧ m'.core.held? ⟨0, ⟨1⟩⟩ = none ∧
    resolveFault 0 ((VirtAddr.ofBits 8190).advance 1) (.ofBits 0) (.ofParts false true true) m' =
      .ok true m'' ∧
    ¬ m.Accepts 0 (.ofBits 8190) 4099 true ∧
    checkUserRange 0 (.ofBits 8190) 4099 true m = .ok (.error .fault) m₁ := by
  have played : ((Machine.fresh 1 (some 16) []).serve [.declare 0 (.ofBits 4096) true .anon none,
      .declare 0 (.ofBits 8192) true .anon none]).any (fun r =>
        (r.2.outcome (checkUserRange 0 (.ofBits 8190) 4 true)).any (fun r₁ => r₁.1.isOk &&
          (r₁.2.ask [] (.write 0 (.ofBits 8192) #[7] (.ofBits 0))).any fun r₂ =>
            decide (r₂.2.memory.pool.free = 0) && (decide (r₂.2.core.held? ⟨0, ⟨1⟩⟩ = none) &&
            ((r₂.2.outcome allocateFrame).isSome && (r₂.2.takesEntry 0 &&
            ((r₂.2.pages.find? ⟨0, ⟨1⟩⟩).all (fun page => r₂.2.initializes page.kind) &&
            (r₂.2.outcome (resolveFault 0 ((VirtAddr.ofBits 8190).advance 1) (.ofBits 0)
              (.ofParts false true true))).isSome))))) &&
        (r.2.outcome (checkUserRange 0 (.ofBits 8190) 4099 true)).any fun r₁ => !r₁.1.isOk) =
          true := by
    decide +kernel
  obtain ⟨⟨log, m⟩, hserved, hcheck⟩ := (Option.any_eq_true _ _).1 played
  obtain ⟨hyes, hno⟩ := Bool.and_eq_true_iff.1 hcheck
  obtain ⟨⟨verdict, m₀⟩, accepted, hcheck⟩ := (Option.any_eq_true _ _).1 hyes
  obtain ⟨hok, hcheck⟩ := Bool.and_eq_true_iff.1 hcheck
  obtain ⟨⟨a, m'⟩, wrote, hcheck⟩ := (Option.any_eq_true _ _).1 hcheck
  simp only [Bool.and_eq_true, decide_eq_true_eq] at hcheck
  obtain ⟨full, away, had, granted, comes, settled⟩ := hcheck
  obtain ⟨⟨verdict', m₁⟩, refused, hbad⟩ := (Option.any_eq_true _ _).1 hno
  obtain ⟨⟨taken, m₂⟩, had⟩ := Option.isSome_iff_exists.1 had
  obtain ⟨⟨done, m''⟩, settled⟩ := Option.isSome_iff_exists.1 settled
  rw [Machine.outcome_eq_some] at accepted refused had settled
  have reaches : (Machine.fresh 1 (some 16) []).Reaches m := Machine.Reaches.refl.serve hserved
  obtain ⟨v, console, said, -, -, lasting⟩ := checked_range_resolved reaches 0 (.ofBits 8190) 4 true
  obtain ⟨rfl, rfl⟩ := EStateM.Result.ok.inj (accepted.symm.trans said)
  have hv : verdict = .ok () := by
    cases verdict with
    | ok => rfl
    | error => cases hok
  subst hv
  have later : Machine.MovesOn ((VirtAddr.ofBits 8190).Touches 0 4) { m with console } m' :=
    ⟨.next [] .nil (Machine.ask_eq_some.1 wrote), .refl _, fun _ _ =>
      ⟨fun e he => by
        obtain rfl := List.mem_singleton.1 he
        exact id, List.not_mem_nil⟩⟩
  have resolved := (lasting rfl m' later 1 (by decide) (.ofBits 0) (.ofParts false true true) (by decide)
    (fun reads => by cases reads) ⟨taken, m₂, had⟩ granted fun page found => by
      have there : m'.pages.find? ⟨0, ⟨1⟩⟩ = some page := found
      rwa [there] at comes).ok settled
  subst resolved
  obtain ⟨v, console', said', either, iff, -⟩ :=
    checked_range_resolved reaches 0 (.ofBits 8190) 4099 true
  obtain ⟨rfl, rfl⟩ := EStateM.Result.ok.inj (refused.symm.trans said')
  have hbad : verdict' = .error .fault := either.resolve_left fun h => by
    subst h
    cases hbad
  subst hbad
  have forbids : ¬ m.Accepts 0 (.ofBits 8190) 4099 true := fun accepts => by
    cases iff.2 accepts
  exact ⟨m, console, m', m'', _, reaches, said, later, full, away, settled, forbids, refused⟩

end DemandPaging
