import DemandPaging.Proofs.Reports
import DemandPaging.Proofs.SpaceCopies

/-!
What a copy of a space that failed leaves behind once the space it was made for is torn down: nothing
that other spaces would notice. Their pages are what they were and share their frames with whom they
did before, and users write to them as if nobody had ever tried to copy them.
-/

namespace DemandPaging

open DemandPaging.Core

variable {m m' m₁ m₂ : Machine} {s src dst : SpaceId} {vpn : PageNum} {vpns : List PageNum}
  {order order' : Traversal} {ref r a b : PageRef} {page : Page} {id : FrameId} {frame : Frame} {n : Nat}
  {loan : HandleCount} {u : Unit} {op : Operation} {ans : Answer}

theorem destroyPages_together (h : destroyPages s vpns m = .ok u m') (ha : a.space ≠ s)
    (hb : b.space ≠ s) : m'.core.Together a b ↔ m.core.Together a b := by
  induction vpns generalizing m with
  | nil =>
      obtain ⟨-, rfl⟩ := pure_ok.1 h
      exact Iff.rfl
  | cons vpn rest ih =>
      obtain ⟨removed, m₁, h₁, h⟩ := bind_ok.1 h
      refine (ih h).trans ?_
      rcases removeRef_core h₁ with ⟨-, -, hm₁⟩ | ⟨-, -, step⟩
      · rw [hm₁]
      · exact step.together_drop (fun he => ha (congrArg PageRef.space he))
          fun he => hb (congrArg PageRef.space he)

theorem teardown_together (h : teardown s order m = .ok u m') (ha : a.space ≠ s) (hb : b.space ≠ s) :
    m'.core.Together a b ↔ m.core.Together a b := by
  rcases teardown_parts h with ⟨-, rfl⟩ | ⟨-, console, h⟩
  · exact Iff.rfl
  · exact (destroyPages_together h ha hb).trans (together_of_frames rfl)

theorem Deed.Clears.confined {regions : Table PageRef Nat} {d : Deed} (h : d.Clears regions s) :
    d.Confined s := by
  rcases h with ⟨vpn, rfl⟩ | rfl
  · rfl
  · trivial

namespace Core

variable {c c' : Core} {ds : List Deed}

theorem Steps.flat_beside (h : Steps c ds c') (hs : c.Sound) (confined : ∀ d ∈ ds, d.Confined dst)
    (apart : ref.space ≠ dst) : c'.flat ref = c.flat ref := by
  rw [h.flat hs fun ⟨d, hd, hw⟩ => ?_]
  · refine Deed.applyAll_apart fun d hd target => apart ?_
    have hconfined := confined d hd
    cases d with
    | add | drop | share =>
        cases target
        exact hconfined
    | read | chart => exact nomatch target
    | make | fail | write | lose => exact hconfined.elim
  · have hconfined := confined d hd
    cases d with
    | write => exact hconfined.elim
    | _ => exact hw.elim

end Core

/-- What is left of the pages and regions of a space, and of those that share frames with it, after a
copy of it was undone. -/
structure Machine.Unharmed (m m' : Machine) (src dst : SpaceId) : Prop where
  absent : ∀ vpn, m'.pages.find? ⟨src, vpn⟩ = none ↔ m.pages.find? ⟨src, vpn⟩ = none
  same : ∀ vpn page, m.pages.find? ⟨src, vpn⟩ = some page →
    ∃ page', m'.pages.find? ⟨src, vpn⟩ = some page' ∧ page.Remains True page'
  regions : ∀ vpn, m'.regions.find? ⟨src, vpn⟩ = m.regions.find? ⟨src, vpn⟩
  owners : ∀ vpn page id frame, m'.pages.find? ⟨src, vpn⟩ = some page → page.frame = some id →
    m'.frames.find? id = some frame → frame.owners.Nodup ∧ ∀ r, r ∈ frame.owners ↔
      r = ⟨src, vpn⟩ ∨ r.space ≠ src ∧ r.space ≠ dst ∧ m.core.Together ⟨src, vpn⟩ r
  contents : ∀ ref, ref.space ≠ dst → m'.core.flat ref = m.core.flat ref
  handles : m'.handles + m.lentTo dst = m.handles
  together : ∀ a b, m'.core.Together a b → a.space ≠ dst ∧ b.space ≠ dst ∧ m.core.Together a b

theorem copySpace_failed (hs : m.core.Sound) (h : copySpace src dst order m = .ok false m') :
    Core.CopiesPages src dst m.core (order.visit (m.pageNumbers src)) false m'.core := by
  obtain ⟨m₁, copied, ⟨yes, -⟩ | ⟨-, rfl⟩⟩ := copySpace_parts h
  · exact nomatch yes
  · exact copyPages_copies hs copied

/-- A copy that failed and the end of the space it was made for do nothing to other spaces that users
would notice, and no page of the space is left. Who holds which locks makes no difference. -/
theorem copySpace_undone {held held' : List PageRef} (h : m.Tidy n loan)
    (failed : copySpace src dst order { m with held } = .ok false m₁)
    (cleared : teardown dst order' { m₁ with held := held' } = .ok u m₂) :
    m₂.Tidy n loan ∧ (∃ ds, Steps m.core ds m₂.core ∧ ∀ d ∈ ds, d.Confined dst) ∧
      (∀ vpn, m₂.core.pages.find? ⟨dst, vpn⟩ = none) ∧
      ∀ a b, a.space ≠ dst → b.space ≠ dst → (m₂.core.Together a b ↔ m.core.Together a b) := by
  have tidy : Machine.Tidy n loan { m with held } := h.same rfl rfl
  have tidy₁ : Machine.Tidy n loan { m₁ with held := held' } :=
    ((copySpace_upholds src dst order tidy).ok failed).same rfl rfl
  have tidy₂ := (teardown_upholds (E := fun _ _ => False) dst order' tidy₁).ok cleared
  have copies := copySpace_failed (m := { m with held }) h.sound failed
  obtain ⟨ds, run, deeds⟩ := copies.steps
  obtain ⟨es, run', clears, gone⟩ := teardown_core tidy₁.sound cleared
  have confined : ∀ d ∈ ds ++ es, d.Confined dst := fun d hd => by
    rcases List.mem_append.1 hd with hd | hd
    · exact (deeds d hd).confined
    · exact (clears d hd).confined
  exact ⟨tidy₂, ⟨ds ++ es, run.trans run', confined⟩, gone, fun a b ha hb =>
    (teardown_together cleared ha hb).trans (copies.together ha hb)⟩

theorem copySpace_unharmed {held held' : List PageRef} (h : m.Tidy n loan) (level : m.core.Level)
    (apart : src ≠ dst) (failed : copySpace src dst order { m with held } = .ok false m₁)
    (cleared : teardown dst order' { m₁ with held := held' } = .ok u m₂) : m.Unharmed m₂ src dst := by
  have hs := h.sound
  obtain ⟨tidy₂, ⟨ds, all, confined⟩, gone, together⟩ := copySpace_undone h failed cleared
  have elsewhere {a b : PageRef} (h : m₂.core.Together a b) : b.space ≠ dst := by
    rintro rfl
    obtain ⟨page, found⟩ := h.found tidy₂.sound
    cases (gone b.vpn).symm.trans found
  refine ⟨fun vpn => ?_, fun vpn page found => all.remains_beside confined apart found, fun vpn => ?_,
    fun vpn page id frame found resident owned => ?_, fun ref => all.flat_beside hs confined, ?_,
    fun a b h => ?_⟩
  · refine ⟨fun absent => ?_, all.vacant_beside hs confined apart⟩
    cases found : m.pages.find? ⟨src, vpn⟩ with
    | none => rfl
    | some page =>
        obtain ⟨page', found', -⟩ := all.remains_beside confined apart found
        cases absent.symm.trans found'
  · have tidy₁ := (copySpace_upholds src dst order (m := { m with held }) (h.same rfl rfl)).ok failed
    have regions₁ := copySpace_regions (m := { m with held }) hs failed
    have regions₂ := teardown_regions (m := { m₁ with held := held' }) tidy₁.sound cleared
    rw [if_neg Bool.false_ne_true] at regions₁
    dsimp only at regions₁ regions₂
    rw [regions₂, regions₁]
    split
    · rfl
    · rw [Operation.find?_keepOthers, if_neg apart]
  · refine ⟨tidy₂.sound.owned.nodup id frame owned, fun r => ?_⟩
    rw [tidy₂.sound.owner_iff found resident owned]
    refine or_congr_right ⟨fun h => ?_, fun h => (together _ _ apart h.2.1).2 h.2.2⟩
    have hr := elsewhere h
    have before := (together _ _ apart hr).1 h
    exact ⟨(level.together before).2.symm, hr, before⟩
  · have lent := @Machine.lent_of_others m m₂ dst
      fun ref apart => all.handles_beside hs confined apart
    rw [Machine.lentTo_empty gone, add_zero] at lent
    rw [tidy₂.handles, h.handles, add_assoc, lent]
  · have ha := elsewhere h.symm
    have hb := elsewhere h
    exact ⟨ha, hb, (together a b ha hb).1 h⟩

namespace Operation

/-- Requests that leave all pages that are there where they are, and copy none of them. -/
def KeepsPages : Operation → Prop
  | remove _ _ | map _ _ _ _ _ _ | unmap _ _ | fork _ _ _ | teardown _ _ | exit _ _ => False
  | _ => True

theorem Does.keeps {c c' : Core} {ds : List Deed} (does : Does c c' op ans ds) (keeps : op.KeepsPages) :
    (∀ ref, .drop ref ∉ ds) ∧ ∀ a b whole, .share a b whole ∉ ds := by
  refine ⟨fun ref hd => ?_, fun a b whole hd => ?_⟩
  · have plain : ¬ op.Charts := by
      intro charts
      cases op with
      | map | unmap | fork | teardown | exit => exact keeps
      | _ => exact charts
    obtain ⟨s, va, rfl, -⟩ := does.dropped plain hd
    exact keeps
  · obtain ⟨src, dst, order, done, rfl, -⟩ := does.shares hd
    exact keeps

theorem Comes.keeps {c c' : Core} (comes : Comes c c' op ans) (hs : c.Sound) (keeps : op.KeepsPages) :
    (∀ ref, c.Ready ref → c'.Ready ref) ∧ ∀ a b, c'.Together a b → c.Together a b := by
  cases comes with
  | absent _ run =>
      exact ⟨fun _ => run.ready List.not_mem_nil, fun _ _ => run.together_before hs nofun⟩
  | ran first run does =>
      obtain ⟨kept, unshared⟩ := does.keeps keeps
      exact ⟨fun ref ready => run.ready (kept ref) (first.ready List.not_mem_nil ready), fun _ _ h =>
        first.together_before hs nofun (run.together_before (first.sound hs) unshared h)⟩
  | tampered _ first core =>
      rw [core]
      exact ⟨fun _ => first.ready List.not_mem_nil, fun _ _ => first.together_before hs nofun⟩

end Operation

theorem Machine.Serves.keeps_pages {log : List Exchange} (run : m.Serves log m')
    (tidy : m.Tidy n loan) (keeps : ∀ e ∈ log, e.1.bare.KeepsPages) :
    (∀ ref, m.core.Ready ref → m'.core.Ready ref) ∧
      ∀ a b, m'.core.Together a b → m.core.Together a b := by
  induction run with
  | nil => exact ⟨fun _ => id, fun _ _ => id⟩
  | @next m₁ m' log op a held run answered ih =>
      obtain ⟨ready, before⟩ := ih fun e he => keeps e (List.mem_append_left _ he)
      have hs := (run.reaches.tidy tidy).sound
      have comes := Operation.perform_comes (m := { m₁ with held }) hs answered
      obtain ⟨ready', before'⟩ := comes.keeps hs (keeps _ (List.mem_append_right _ List.mem_cons_self))
      exact ⟨fun ref h => ready' ref (ready ref h), fun a b h => before a b (before' a b h)⟩

theorem teardown_answers (tidy : m.Tidy n loan) (s : SpaceId)
    (order : Traversal) : ∃ m', teardown s order m = .ok () m' ∧
      (Operation.teardown s order).perform m = .ok (.size 0) m' ∧ m'.Tidy n loan := by
  obtain ⟨_, m', run, tidy'⟩ := (teardown_upholds (E := fun _ _ => False) s order tidy).result
  obtain ⟨_, -, -, gone⟩ := teardown_core tidy.sound run
  refine ⟨m', run, bind_ok.2 ⟨_, m', run, bind_ok.2 ⟨m', m', rfl, ?_⟩⟩, tidy'⟩
  rw [Machine.pageCount, Machine.pageNumbers_eq_nil.2 gone]
  rfl

namespace Machine.Unharmed

variable {m₃ : Machine} {log : List Exchange} {held : List PageRef} {va sp : VirtAddr}
  {bytes : Array UInt8}

theorem ready (h : m.Unharmed m₂ src dst) (ready : m.core.Ready ⟨src, vpn⟩) :
    m₂.core.Ready ⟨src, vpn⟩ := by
  obtain ⟨page, found, writable, used⟩ := ready
  obtain ⟨page', found', same⟩ := h.same vpn page found
  exact ⟨page', found', same.writable.trans writable, same.used used⟩

theorem later (h : m.Unharmed m₂ src dst) (tidy : m₂.Tidy n loan) (run : m₂.Serves log m₃)
    (keeps : ∀ e ∈ log, e.1.bare.KeepsPages) (writes : m.core.Writes src (va.Spans bytes.size)) :
    m₃.core.Writes src (va.Spans bytes.size) ∧ ∀ a b, m₃.core.Together a b →
      a.space ≠ dst ∧ b.space ≠ dst ∧ m.core.Together a b := by
  obtain ⟨ready, before⟩ := run.keeps_pages tidy keeps
  refine ⟨fun x hx => ?_, fun a b together => h.together a b (before a b together)⟩
  obtain ⟨user, hready⟩ := writes x hx
  exact ⟨user, ready _ (h.ready hready)⟩

end Machine.Unharmed

theorem write_answers {E : Panic → Machine → Prop} {R : Machine → Prop} {va sp : VirtAddr}
    {bytes : Array UInt8}
    (h : Ends E (userWrite s va bytes sp) m fun done m' => done = true ∧ R m') :
    Ends E (Operation.write s va bytes sp).perform m fun a m' => a = .flag true ∧ R m' :=
  h.bind fun _ _ _ ⟨done, kept⟩ => .pure ⟨congrArg Answer.flag done, kept⟩

/-- A copy of a space that failed does the space no harm, whatever order the pages were taken in and
wherever it failed, once the space copied to was torn down. When the page table takes entries again,
users write to the pages they wrote to before, as long as memory is to be had where it is needed. Only
pages that third spaces shared before are copied then, and a page that is in memory and that no third
space shared needs no memory at all. -/
theorem failed_copy_harmless {frames : Nat} {sectors : Option Nat} {files : List File}
    {allocator : Allocator}
    {held held' : List PageRef} (reached : (Machine.fresh frames sectors files allocator).Reaches m)
    (apart : src ≠ dst)
    (failed : (Operation.fork src dst order).perform { m with held } = .ok (.flag false) m₁) :
    ∃ m₂, (Operation.teardown dst order').perform { m₁ with held := held' } = .ok (.size 0) m₂ ∧
      m.Unharmed m₂ src dst ∧
      ∀ log m₃ held'' va bytes sp, m₂.Serves log m₃ → (∀ e ∈ log, e.1.bare.KeepsPages) →
        m₃.core.Granting src → m.core.Writes src (va.Spans bytes.size) →
        Ends Exhausted (Operation.write src va bytes sp).perform { m₃ with held := held'' }
          (fun a m₄ => a = .flag true ∧ ∃ added, m₄.copies = added ++ m₃.copies ∧ ∀ a ∈ added,
            ∃ x r, va.Spans bytes.size x ∧ a = x.vpnFloor.pageStart ∧ r.space ≠ src ∧
              r.space ≠ dst ∧ m.core.Together ⟨src, x.vpnFloor⟩ r) ∧
        ((∀ x, va.Spans bytes.size x → (∃ page id, m₃.pages.find? ⟨src, x.vpnFloor⟩ = some page ∧
            page.frame = some id) ∧ ∀ r, r.space ≠ dst → ¬ m.core.Together ⟨src, x.vpnFloor⟩ r) →
          Ends OutOfTime (Operation.write src va bytes sp).perform { m₃ with held := held'' }
            fun a m₄ => a = .flag true ∧ m₃.core.Stays m₄.core) := by
  have fresh := Machine.fresh_tidy frames sectors files allocator
  have tidy : Machine.Tidy _ _ { m with held } := (reached.tidy fresh).same rfl rfl
  have level := reached.level fresh (Machine.fresh_level _ _ _ _)
  obtain ⟨_, m', copied, h⟩ := bind_ok.1 failed
  obtain ⟨hflag, rfl⟩ := pure_ok.1 h
  cases hflag
  have tidy₁ : Machine.Tidy _ _ { m' with held := held' } :=
    ((copySpace_upholds src dst order tidy).ok copied).same rfl rfl
  obtain ⟨m₂, cleared, answered, tidy₂⟩ := teardown_answers tidy₁ dst order'
  have unharmed := copySpace_unharmed (reached.tidy fresh) level apart copied cleared
  refine ⟨m₂, answered, unharmed, fun log m₃ held'' va bytes sp run keeps granting writes => ?_⟩
  obtain ⟨writes', before⟩ := unharmed.later tidy₂ run keeps writes
  have tidy₃ : Machine.Tidy _ _ { m₃ with held := held'' } := (run.reaches.tidy tidy₂).same rfl rfl
  refine ⟨write_answers ((userWrite_ends tidy₃ writes' granting).imp fun done m₄ run hdone => ?_),
    fun alone => write_answers (userWrite_alone tidy₃.sound writes' (fun x hx => ?_) granting)⟩
  · obtain ⟨added, copies, shared⟩ := userWrite_reports tidy₃.sound writes' run
    refine ⟨hdone, added, copies, fun a ha => ?_⟩
    obtain ⟨x, hx, hat, r, together⟩ := shared a ha
    obtain ⟨-, hr, hm⟩ := before _ _ together
    exact ⟨x, r, hx, hat, (level.together hm).2.symm, hr, hm⟩
  · obtain ⟨⟨page, id, found, resident⟩, unshared⟩ := alone x hx
    obtain ⟨frame, owned, -⟩ := tidy₃.sound.owned.frame_of _ _ _ found resident
    refine ⟨page, id, frame, found, resident, owned, ?_⟩
    have owners := tidy₃.sound.owners_alone found resident owned fun r together => ?_
    · rw [owners]
      rfl
    · obtain ⟨-, hr, hm⟩ := before _ _ together
      exact unshared r hr hm

/-- The page table of a space refuses the entry of a page that is copied already, with a mapped file
copied before it. When the copy was torn down and the page table takes entries, the page is written to
in the frame it is in. -/
theorem failed_copy_harmless_at_install : ∃ m m₁ m₂ a m₃,
    (Machine.fresh 4 none [.ofData #[46] false]).Reaches m ∧
    (Operation.fork 0 1 .asStored).perform { m with held := [] } = .ok (.flag false) m₁ ∧
    m₁.core.Together ⟨0, ⟨1⟩⟩ ⟨1, ⟨1⟩⟩ ∧ m₁.handles ≠ m.handles ∧
    (Operation.teardown 1 .asStored).perform { m₁ with held := [] } = .ok (.size 0) m₂ ∧
    m.Unharmed m₂ 0 1 ∧ m₂.Serves [(.setInstalls 0 (.always true), a)] m₃ ∧
    Ends OutOfTime (Operation.write 0 (.ofBits 4096) #[8] (.ofBits 0)).perform { m₃ with held := [] }
      fun a m₄ => a = .flag true ∧ m₃.core.Stays m₄.core := by
  have played : ((Machine.fresh 4 none [.ofData #[46] false]).serve [
      .map 0 (.ofBits 0x10000000) 1 true 0 0, .declare 0 (.ofBits 4096) true .anon none,
      .write 0 (.ofBits 4096) #[7] (.ofBits 0), .newSpace,
      .setInstalls 0 (.budget (some 0))]).any (fun r =>
        (r.2.pages.find? ⟨0, ⟨1⟩⟩).any (fun page => page.writable && !page.kind.isUninit) &&
        decide (∀ row ∈ r.2.frames.entries.rows, row.2.owners.length = 1) &&
        (r.2.ask [] (.fork 0 1 .asStored)).any fun r₁ => r₁.1.flag? == some false &&
          (decide (r₁.2.handles 0 ≠ r.2.handles 0) &&
            (r₁.2.frames.find? ⟨0⟩).any (fun f => decide (⟨0, ⟨1⟩⟩ ∈ f.owners ∧ ⟨1, ⟨1⟩⟩ ∈ f.owners)) &&
            (r₁.2.ask [] (.teardown 1 .asStored)).any fun r₂ =>
              (r₂.2.ask [] (.setInstalls 0 (.always true))).any fun r₃ =>
                (r₃.2.pages.find? ⟨0, ⟨1⟩⟩).any fun page => page.frame.isSome)) = true := by
    decide +kernel
  obtain ⟨⟨log, m⟩, hserved, hcheck⟩ := (Option.any_eq_true _ _).1 played
  simp only [Bool.and_eq_true] at hcheck
  obtain ⟨⟨hready, halone⟩, hcheck⟩ := hcheck
  have reached : (Machine.fresh 4 none [.ofData #[46] false]).Reaches m :=
    Machine.Reaches.refl.serve hserved
  obtain ⟨⟨a₁, m₁⟩, asked, hcheck⟩ := (Option.any_eq_true _ _).1 hcheck
  simp only [Bool.and_eq_true, beq_iff_eq] at hcheck
  obtain ⟨hflag, ⟨hhandles, htogether⟩, hcheck⟩ := hcheck
  obtain rfl := Answer.flag?_eq_some.1 hflag
  have failed := Machine.ask_eq_some.1 asked
  obtain ⟨⟨a₂, m₂⟩, asked₂, hcheck⟩ := (Option.any_eq_true _ _).1 hcheck
  obtain ⟨⟨a, m₃⟩, asked₃, hresident⟩ := (Option.any_eq_true _ _).1 hcheck
  have answered := Machine.ask_eq_some.1 asked₃
  obtain ⟨m', cleared, unharmed, harmless⟩ :=
    @failed_copy_harmless m m₁ 0 1 .asStored .asStored _ _ _ _ [] [] reached (by decide) failed
  cases (Machine.ask_eq_some.1 asked₂).symm.trans cleared
  have granting : m₃.core.Granting 0 := fun k => by
    obtain ⟨_, m₄, h₁, h⟩ := bind_ok.1 answered
    obtain ⟨-, rfl⟩ := pure_ok.1 h
    rw [← modify_ok.1 h₁, Machine.grants_installs, if_pos rfl]
    rfl
  have run : m₂.Serves ([] ++ [_]) m₃ := .next [] .nil answered
  obtain ⟨frame, owned, hboth⟩ := (Option.any_eq_true _ _).1 htogether
  obtain ⟨ha, hb⟩ := of_decide_eq_true hboth
  obtain ⟨page, found, hpage⟩ := (Option.any_eq_true _ _).1 hready
  obtain ⟨writable, used⟩ := Bool.and_eq_true_iff.1 hpage
  have spans (x : VirtAddr) (hx : (VirtAddr.ofBits 4096).Spans 1 x) : x = .ofBits 4096 := by
    obtain ⟨k, hk, rfl⟩ := hx
    cases Nat.lt_one_iff.1 hk
    rfl
  obtain ⟨-, quick⟩ := harmless _ m₃ [] (.ofBits 4096) #[8] (.ofBits 0) run
    (by simp [Operation.bare, Operation.KeepsPages]) granting fun x hx => by
      cases spans x hx
      exact ⟨by decide, page, found, writable, by simpa using used⟩
  refine ⟨m, m₁, m₂, a, m₃, reached, failed, ⟨by decide, ⟨0⟩, frame, owned, ha, hb⟩, fun he => ?_,
    cleared, unharmed, run, quick fun x hx => ?_⟩
  · exact of_decide_eq_true hhandles (congrFun he 0)
  · cases spans x hx
    obtain ⟨page', found', resident⟩ := (Option.any_eq_true _ _).1 hresident
    obtain ⟨i, hi⟩ := Option.isSome_iff_exists.1 resident
    refine ⟨⟨page', i, found', hi⟩, fun r _ together => ?_⟩
    obtain ⟨hne, j, f, hj, ha, hb⟩ := together
    exact many_of_mem hne ha hb (of_decide_eq_true halone ⟨j, f⟩ (Table.find?_eq_some.1 hj))

end DemandPaging
