import DemandPaging.Proofs.Requests

/-!
Runs of the machine: requests served one after the other, by a pager that others may hamper by
holding the locks of pages. A space that was copied only in part is torn down before anything else.
-/

namespace DemandPaging

open DemandPaging.Core

variable {m m' m₁ : Machine} {op : Operation} {a : Answer}

def Operation.wrecks : Operation → Answer → Bool
  | fork _ _ _, .flag done => !done
  | _, _ => false

abbrev Exchange : Type := Operation × Answer

inductive Turn (m : Machine) : List Exchange → Machine → Prop where
  | served {m' : Machine} {op : Operation} {a : Answer} (held : List PageRef)
      (whole : op.wrecks a = false) (answered : op.perform { m with held } = .ok a m') :
      Turn m [(op, a)] m'
  | undone {m₁ m' : Machine} {src dst : SpaceId} {order order' : Traversal} {a : Answer}
      (held held' : List PageRef)
      (failed : (Operation.fork src dst order).perform { m with held } = .ok (.flag false) m₁)
      (cleared : (Operation.teardown dst order').perform { m₁ with held := held' } = .ok a m') :
      Turn m [(.fork src dst order, .flag false), (.teardown dst order', a)] m'

/-- Turns one after the other, with requests of some kind only; of which kind may depend on the
machine that is asked. -/
inductive Run (P : Machine → Operation → Prop) (m : Machine) : List Exchange → Machine → Prop where
  | nil : Run P m [] m
  | turn {m₁ m' : Machine} {log new : List Exchange} (run : Run P m log m₁)
      (turn : Turn m₁ new m') (all : ∀ e ∈ new, P m₁ e.1) : Run P m (log ++ new) m'

/-- Serves requests one after the other, as long as no copy fails. -/
def Machine.serve (m : Machine) : List Operation → Option (List Exchange × Machine)
  | [] => some ([], m)
  | op :: ops =>
      match op.perform m with
      | .ok a m' =>
          if op.wrecks a then none
          else (m'.serve ops).map fun (log, m'') => ((op, a) :: log, m'')
      | .error _ _ => none

theorem Machine.serve_cons {ops : List Operation} {log : List Exchange}
    (h : m.serve (op :: ops) = some (log, m')) : ∃ a m₁ rest, Turn m [(op, a)] m₁ ∧
      m₁.serve ops = some (rest, m') ∧ log = (op, a) :: rest := by
  unfold Machine.serve at h
  split at h
  · next a m₁ answered =>
      split at h
      · exact nomatch h
      · next whole =>
          obtain ⟨⟨rest, m₂⟩, hrest, heq⟩ := Option.map_eq_some_iff.1 h
          cases heq
          exact ⟨a, m₁, rest, .served m.held (Bool.not_eq_true _ ▸ whole) answered, hrest, rfl⟩
  · exact nomatch h

def Machine.ask (m : Machine) (held : List PageRef) (op : Operation) : Option (Answer × Machine) :=
  match op.perform { m with held } with
  | .ok a m' => some (a, m')
  | .error _ _ => none

theorem Machine.ask_eq_some {held : List PageRef} :
    m.ask held op = some (a, m') ↔ op.perform { m with held } = .ok a m' := by
  unfold ask
  split <;> next h => simp [h]

def Machine.outcome {α : Type} (m : Machine) (x : KernelM α) : Option (α × Machine) :=
  match x m with
  | .ok a m' => some (a, m')
  | .error _ _ => none

theorem Machine.outcome_eq_some {α : Type} {x : KernelM α} {a : α} :
    m.outcome x = some (a, m') ↔ x m = .ok a m' := by
  unfold outcome
  split <;> next h => simp [h]

namespace Answer

def flag? : Answer → Option Bool
  | flag b => some b
  | _ => none

def bytes? : Answer → Option (Array UInt8)
  | bytes r => r
  | _ => none

theorem flag?_eq_some {b : Bool} : a.flag? = some b ↔ a = .flag b := by
  cases a <;> simp [flag?]

theorem bytes?_eq_some {got : Array UInt8} : a.bytes? = some got ↔ a = .bytes (some got) := by
  cases a <;> simp [bytes?]

end Answer

theorem Run.serve {P : Machine → Operation → Prop} {ops : List Operation} {log new : List Exchange}
    (run : Run P m log m₁) (all : ∀ op ∈ ops, ∀ m, P m op) (h : m₁.serve ops = some (new, m')) :
    Run P m (log ++ new) m' := by
  induction ops generalizing m₁ log new with
  | nil =>
      cases Option.some.inj h
      rwa [List.append_nil]
  | cons op ops ih =>
      obtain ⟨a, m₂, rest, first, hrest, rfl⟩ := Machine.serve_cons h
      have hop : ∀ e ∈ [(op, a)], P m₁ e.1 := fun e he =>
        List.mem_singleton.1 he ▸ all op List.mem_cons_self m₁
      have hlast := ih (run.turn first hop) (fun o ho => all o (List.mem_cons_of_mem op ho)) hrest
      rwa [List.append_assoc] at hlast

namespace Operation

/-- Requests to the pager and accesses of users, when entries are changed by nobody else; files may
be changed and page tables may come to refuse entries. -/
def Proper : Operation → Prop
  | setDirty _ _ _ | dropMapping _ _ | locked _ _ _ => False
  | fork src dst _ => src ≠ dst
  | _ => True

def Outside : Operation → Prop
  | setInstalls _ _ | configureFile _ _ => True
  | _ => False

theorem Proper.split (h : op.Proper) : op.Regular ∨ op.Outside := by
  cases op with
  | setInstalls | configureFile => exact .inr trivial
  | setDirty | dropMapping | locked => exact h.elim
  | _ => exact .inl trivial

/-- Who holds which locks has to do with the choice of victims only. -/
theorem perform_held {held : List PageRef} (hop : op.Regular) (hs : m.core.Sound)
    (h : op.perform { m with held } = .ok a m') :
    ∃ ds, Steps m.core ds m'.core ∧ Does m.core m'.core op a ds :=
  @perform_core { m with held } m' a op hop hs h

theorem outside_core (hop : op.Outside) (h : op.perform m = .ok a m') :
    ∃ files grants, m'.core = { m.core with files, grants } ∧
      ((∀ s installs, op ≠ .setInstalls s installs) → grants = m.core.grants) := by
  cases op with
  | setInstalls s installs =>
      obtain ⟨_, h₁, rfl⟩ := bind_pure_ok.1 h
      obtain rfl := modify_ok.1 h₁
      exact ⟨m.core.files, _, rfl, fun hne => (hne s installs rfl).elim⟩
  | configureFile id settings =>
      obtain ⟨_, h₁, rfl⟩ := bind_pure_ok.1 h
      exact ⟨_, m.core.grants, (useFile_core h₁).2, fun _ => rfl⟩
  | _ => exact hop.elim

end Operation

/-- Entries have gone or were marked as written to or not, and nothing else became of them. -/
def Core.Thins (c : Core) (mappings : Table PageRef Mapping) : Prop :=
  ∀ r entry, mappings.find? r = some entry → ∃ old, c.mappings.find? r = some old ∧
    entry.page = old.page ∧ entry.writable = old.writable

theorem Operation.irregular_core (h : op.perform m = .ok a m') (irregular : ¬ op.Regular)
    (unlocked : ∀ s va op', op ≠ .locked s va op') :
    ∃ mappings files grants, m'.core = { m.core with mappings, files, grants } ∧
      m.core.Thins mappings := by
  have same : m.core.Thins m.core.mappings := fun _ entry there => ⟨entry, there, rfl, rfl⟩
  cases op with
  | setDirty s va dirty =>
      obtain ⟨_, m₁, h₁, h⟩ := bind_ok.1 h
      obtain ⟨_, h₂, rfl⟩ := bind_pure_ok.1 h
      obtain ⟨-, rfl⟩ := isDirty_core h₂
      refine ⟨_, _, _, setDirty_core h₁, fun r entry there => ?_⟩
      rw [Table.find?_modify] at there
      split at there
      · next hr =>
          obtain ⟨old, before, rfl⟩ := Option.map_eq_some_iff.1 there
          exact ⟨old, hr ▸ before, rfl, rfl⟩
      · exact ⟨entry, there, rfl, rfl⟩
  | dropMapping s va =>
      obtain ⟨_, h₁, rfl⟩ := bind_pure_ok.1 h
      refine ⟨_, _, _, clearMapping_core h₁, fun r entry there => ?_⟩
      exact ⟨entry, (Table.find?_erase_eq_some.1 there).2, rfl, rfl⟩
  | setInstalls s installs =>
      have outside : (setInstalls s installs).Outside := trivial
      obtain ⟨files, grants, hm', -⟩ := outside_core outside h
      exact ⟨_, files, grants, hm', same⟩
  | configureFile file settings =>
      have outside : (configureFile file settings).Outside := trivial
      obtain ⟨files, grants, hm', -⟩ := outside_core outside h
      exact ⟨_, files, grants, hm', same⟩
  | locked s va op' => exact (unlocked s va op' rfl).elim
  | _ => exact (irregular trivial).elim

/-! Which request a deed is from. -/

def VirtAddr.Touches (va : VirtAddr) (s : SpaceId) (length : Nat) (ref : PageRef) : Prop :=
  ∃ i < length, ref = ⟨s, (va.advance i).vpnFloor⟩

namespace Operation

def WritesTo (ref : PageRef) : Operation → Prop
  | write s va bytes _ => va.Touches s bytes.size ref
  | _ => False

def TakesAway (ref : PageRef) : Operation → Prop
  | remove s va => (⟨s, va.vpnFloor⟩ : PageRef) = ref
  | unmap s _ | teardown s _ | exit s _ => s = ref.space
  | _ => False

def Charts : Operation → Prop
  | map _ _ _ _ _ _ | unmap _ _ | fork _ _ _ | teardown _ _ | exit _ _ => True
  | _ => False

/-- What a deed says about the request that it is from. A page that was not there before may be dropped when
the mapping of a file is undone. -/
def Prompts (c : Core) (op : Operation) (a : Answer) : Deed → Prop
  | .share x y whole => ∃ src dst order done, op = .fork src dst order ∧
      a = .flag done ∧ x.space = src ∧ y.space = dst ∧ (done = true → whole = true)
  | .write ref _ _ => op.WritesTo ref
  | .drop ref => op.TakesAway ref ∨ op.Charts ∧ c.pages.find? ref = none
  | .chart _ => op.Charts
  | _ => True

end Operation

section

variable {c c' c₁ : Core} {d : Deed} {ds : List Deed} {ref : PageRef}

theorem Deed.Settles.prompted (h : d.Settles ref) : op.Prompts c a d := by
  cases d with
  | make | fail => exact trivial
  | _ => exact h.elim

theorem Deed.Faults.prompted (h : d.Faults ref) : op.Prompts c a d := by
  rcases h with (h | rfl) | rfl
  · exact h.prompted
  · exact trivial
  · exact trivial

theorem MapRequest.Serves.prompted {r : MapRequest} {va : VirtAddr} {result : Except Errno VirtAddr}
    (h : r.Serves va c c' result ds) (charts : op.Charts) (hd : d ∈ ds) : op.Prompts c a d := by
  have added {n : Nat} (hd : d ∈ r.adds n 0) : op.Prompts c a d := by
    obtain ⟨j, -, -, rfl⟩ := mem_adds.1 hd
    exact trivial
  cases h with
  | mapped =>
      rcases List.mem_append.1 hd with hd | hd
      · exact added hd
      · rw [List.mem_singleton.1 hd]
        exact charts
  | refused vacant _ undone =>
      rcases List.mem_append.1 hd with hd | hd
      · exact added hd
      · obtain ⟨j, hj, rfl⟩ := undone d hd
        exact .inr ⟨charts, vacant j hj⟩

theorem Core.CopiesAll.prompted {src dst : SpaceId} {order : Traversal} {vpns : List PageNum}
    {done : Bool} (h : CopiesAll src dst c vpns done ds c') (hd : d ∈ ds) :
    (Operation.fork src dst order).Prompts c₁ (.flag done) d := by
  induction h with
  | nil => cases hd
  | next first copies _ _ ih =>
      rcases List.mem_append.1 hd with hd | hd
      · cases copies with
        | absent => cases hd
        | unused =>
            rw [List.mem_singleton.1 hd]
            exact trivial
        | shared =>
            rw [List.mem_singleton.1 hd]
            exact ⟨_, _, _, _, rfl, rfl, rfl, rfl, fun _ => rfl⟩
      · exact ih hd
  | stop first copies =>
      cases copies with
      | half =>
          rw [List.mem_singleton.1 hd]
          exact ⟨_, _, _, _, rfl, rfl, rfl, rfl, nofun⟩
      | failed => cases hd

namespace Operation.Does

theorem prompts (h : Does c c' op a ds) (hd : d ∈ ds) : op.Prompts c a d := by
  cases h with
  | looked | notDeclared | notInserted | notRemoved => cases hd
  | declared | inserted =>
      rw [List.mem_singleton.1 hd]
      exact trivial
  | claimed settles => exact (settles d hd).prompted
  | removed =>
      rw [List.mem_singleton.1 hd]
      exact .inl rfl
  | mapped serves => exact serves.prompted trivial hd
  | unmapped unmaps =>
      cases unmaps with
      | unmapped _ _ drops_of =>
          rcases List.mem_cons.1 hd with rfl | hd
          · exact trivial
          · obtain ⟨j, -, rfl⟩ := drops_of d hd
            exact .inl rfl
      | refused => cases hd
  | faulted faults => exact (faults d hd).prompted
  | read reads =>
      obtain ⟨x, -, hf | ⟨bytes, rfl⟩⟩ := reads d hd
      · exact hf.prompted
      · exact trivial
  | wrote writes =>
      obtain ⟨x, ⟨k, hk, rfl⟩, hf | ⟨bytes, rfl⟩⟩ := writes d hd
      · exact hf.prompted
      · exact ⟨k, hk, rfl⟩
  | forked _ copies =>
      rcases List.mem_append.1 hd with hd | hd
      · exact copies.prompted hd
      · rw [List.mem_singleton.1 hd]
        exact trivial
  | notForked copies => exact copies.prompted hd
  | tornDown clears | exited clears =>
      rcases clears d hd with ⟨vpn, rfl⟩ | rfl
      · exact .inl rfl
      · exact trivial

theorem shares (h : Does c c' op a ds) {x y : PageRef} {whole : Bool}
    (hm : .share x y whole ∈ ds) : ∃ src dst order done, op = .fork src dst order ∧
      a = .flag done ∧ x.space = src ∧ y.space = dst ∧ (done = true → whole = true) :=
  h.prompts hm

theorem writes_to {offset : Nat} {bytes : Array UInt8} (h : Does c c' op a ds)
    (hd : .write ref offset bytes ∈ ds) : op.WritesTo ref :=
  h.prompts hd

theorem takes_away (h : Does c c' op a ds) (present : c.pages.find? ref ≠ none)
    (hd : .drop ref ∈ ds) : op.TakesAway ref :=
  (h.prompts hd).resolve_right fun undone => present undone.2

theorem uncharted (h : Does c c' op a ds) (plain : ¬ op.Charts) (t : Table PageRef Nat) :
    .chart t ∉ ds := fun hd => plain (h.prompts hd)

theorem dropped (h : Does c c' op a ds) (plain : ¬ op.Charts) (hd : .drop ref ∈ ds) :
    ∃ s va, op = .remove s va ∧ ref = ⟨s, va.vpnFloor⟩ := by
  have away : op.TakesAway ref := (h.prompts hd).resolve_right fun undone => plain undone.1
  cases op with
  | remove s va => exact ⟨s, va, rfl, away.symm⟩
  | unmap | teardown | exit => exact (plain trivial).elim
  | _ => exact away.elim

end Operation.Does

end

theorem Core.Guarded.of_empty {c : Core} {s : SpaceId} (hs : c.Sound) (hg : c.Guarded (· = s))
    (hempty : ∀ vpn, c.pages.find? ⟨s, vpn⟩ = none) : c.Guarded fun _ => False := by
  have absent {ref : PageRef} {page : Page} (hp : c.pages.find? ref = some page) :
      ref.space ≠ s := by
    rintro rfl
    rw [hempty ref.vpn] at hp
    exact nomatch hp
  constructor
  · intro ref entry page id frame he hw hp hi hf r hr
    obtain ⟨other, hother, -⟩ := hs.owned.page_of id frame r hf hr
    exact (hg.exclusive ref entry page id frame he hw hp hi hf r hr).imp_right
      fun hspace => absent hother hspace
  · intro ref page id hp hi _
    exact hg.entered ref page id hp hi (absent hp)

structure Machine.Settled (m : Machine) : Prop where
  sound : m.core.Sound
  guarded : m.core.Guarded fun _ => False

theorem Machine.Settled.outside {files : FileId → FileFace} {grants : SpaceId → Nat → Bool}
    (h : m.Settled) (hm : m'.core = { m.core with files, grants }) : m'.Settled := by
  obtain ⟨hs, hg⟩ := h
  constructor
  · rw [hm]
    exact ⟨hs.owned, hs.mapped, hs.slotted, hs.pooled, hs.table, hs.programs⟩
  · rw [hm]
    exact hg

theorem Machine.Settled.served {held : List PageRef} (h : m.Settled) (hop : op.Proper)
    (whole : op.wrecks a = false) (answered : op.perform { m with held } = .ok a m') : m'.Settled := by
  rcases hop.split with hregular | houtside
  · obtain ⟨ds, hsteps, hdoes⟩ := Operation.perform_held hregular h.sound answered
    refine ⟨hsteps.sound h.sound, hsteps.guarded h.sound (fun x y w hm => ⟨id, fun hw => ?_⟩)
      h.guarded⟩
    obtain ⟨src, dst, order, done, rfl, rfl, -, -, hwhole⟩ := hdoes.shares hm
    have hdone : done = true := (Bool.not_eq_false' done).mp whole
    rw [hwhole hdone] at hw
    exact nomatch hw
  · obtain ⟨files, grants, hm, -⟩ := Operation.outside_core houtside answered
    exact h.outside hm

theorem Machine.Settled.undone {held held' : List PageRef} {src dst : SpaceId}
    {order order' : Traversal} (h : m.Settled) (hne : src ≠ dst)
    (failed : (Operation.fork src dst order).perform { m with held } = .ok (.flag false) m₁)
    (cleared : (Operation.teardown dst order').perform { m₁ with held := held' } = .ok a m') :
    m'.Settled := by
  have hfork : (Operation.fork src dst order).Regular := trivial
  obtain ⟨ds, hsteps, hdoes⟩ := Operation.perform_held hfork h.sound failed
  have hs₁ := hsteps.sound h.sound
  have hg₁ : m₁.core.Guarded (· = dst) := by
    refine hsteps.guarded h.sound (fun x y w hm => ?_)
      (Guarded.mono h.guarded fun _ hf => hf.elim)
    obtain ⟨src', dst', order', done, hop, -, rfl, rfl, -⟩ := hdoes.shares hm
    cases hop
    exact ⟨hne, fun _ => rfl⟩
  have hteardown : (Operation.teardown dst order').Regular := trivial
  obtain ⟨es, hsteps', hdoes'⟩ := Operation.perform_held hteardown hs₁ cleared
  have hs' := hsteps'.sound hs₁
  have hg' : m'.core.Guarded (· = dst) := by
    refine hsteps'.guarded hs₁ (fun x y w hm => ?_) hg₁
    obtain ⟨src', dst', order', done, hop, -⟩ := hdoes'.shares hm
    exact nomatch hop
  refine ⟨hs', hg'.of_empty hs' ?_⟩
  cases hdoes' with
  | looked looks => exact looks.elim
  | tornDown clears gone => exact gone

theorem Machine.Settled.turn {new : List Exchange} (h : m.Settled) (hturn : Turn m new m')
    (all : ∀ e ∈ new, e.1.Proper) : m'.Settled := by
  cases hturn with
  | served held whole answered => exact h.served (all _ List.mem_cons_self) whole answered
  | undone held held' failed cleared =>
      exact h.undone (all _ List.mem_cons_self) failed cleared

theorem Machine.fresh_settled (frames : Nat) (sectors : Option Nat) (files : List File)
    (allocator : Allocator := .buddy) :
    (Machine.fresh frames sectors files allocator).Settled :=
  ⟨Machine.fresh_sound frames sectors files allocator, by constructor <;> exact nofun⟩

theorem Run.settled {P : Machine → Operation → Prop} {log : List Exchange}
    (hP : ∀ m op, P m op → op.Proper) (run : Run P m log m') (h : m.Settled) : m'.Settled := by
  induction run with
  | nil => exact h
  | turn run turn all ih => exact ih.turn turn fun e he => hP _ _ (all e he)

end DemandPaging
