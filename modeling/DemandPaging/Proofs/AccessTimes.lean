import DemandPaging.Proofs.Evictions

/-!
When pages were used last. The copy of a page has the time of the page, so several pages may have the same
time; but while they are in memory they are in one frame, and a page comes to another frame only with a
time that no other page has. So there is never a tie between the frames that may be taken.
-/

namespace DemandPaging

open DemandPaging.Core

variable {α β : Type} {m m' : Machine} {ref r : PageRef} {page page' : Page} {id : FrameId}
  {x : KernelM α} {done : Bool}

namespace Core

variable {c c' c₁ : Core}

def ages (c : Core) : Table PageRef Page × Nat := (c.pages, c.clock)

/-- No page has a time that is still to come, and pages in different frames have different times. -/
structure Dated (c : Core) : Prop where
  past : ∀ ref page, c.pages.find? ref = some page → page.lastAccess ≤ c.clock
  apart : ∀ ref ref' page page' id id', c.pages.find? ref = some page →
    c.pages.find? ref' = some page' → page.frame = some id → page'.frame = some id' →
      page.lastAccess = page'.lastAccess → id = id'

def Newest (c : Core) (ref : PageRef) : Prop :=
  ∀ r page, r ≠ ref → c.pages.find? r = some page → page.lastAccess < c.clock

theorem Dated.same (h : c.Dated) (same : c'.ages = c.ages) : c'.Dated := by
  obtain ⟨pages, clock⟩ := Prod.mk.inj same
  refine ⟨fun r p found => ?_, fun r r' p p' i i' found found' => ?_⟩
  · rw [clock]
    exact h.past r p (pages ▸ found)
  · exact h.apart r r' p p' i i' (pages ▸ found) (pages ▸ found')

theorem Dated.insert (h : c.Dated) (pages : c'.pages = c.pages.insert ref page)
    (clock : c.clock ≤ c'.clock) (past : page.lastAccess ≤ c'.clock)
    (apart : ∀ r other id id', r ≠ ref → c.pages.find? r = some other → page.frame = some id →
      other.frame = some id' → other.lastAccess = page.lastAccess → id' = id) : c'.Dated := by
  have cases_of {r : PageRef} {p : Page} (found : c'.pages.find? r = some p) :
      (r = ref ∧ p = page) ∨ (r ≠ ref ∧ c.pages.find? r = some p) :=
    Table.find?_insert_eq_some.1 (pages ▸ found)
  refine ⟨fun r p found => ?_, fun r r' p p' i i' found found' hi hi' time => ?_⟩
  · rcases cases_of found with ⟨-, rfl⟩ | ⟨-, found⟩
    · exact past
    · exact (h.past r p found).trans clock
  -- each of the two pages is the new one or was there before
  · rcases cases_of found with ⟨rfl, rfl⟩ | ⟨hr, found⟩ <;>
      rcases cases_of found' with ⟨rfl, rfl⟩ | ⟨hr', found'⟩
    · exact Option.some.inj (hi.symm.trans hi')
    · exact (apart r' p' i i' hr' found' hi hi' time.symm).symm
    · exact apart r p i' i hr found hi' hi time
    · exact h.apart r r' p p' i i' found found' hi hi' time

theorem Dated.insert_away (h : c.Dated) (pages : c'.pages = c.pages.insert ref page)
    (clock : c'.clock = c.clock) (past : page.lastAccess ≤ c.clock) (away : page.frame = none) :
    c'.Dated :=
  h.insert pages clock.ge (clock ▸ past) fun _ _ _ _ _ _ resident => by
    cases away.symm.trans resident

theorem Dated.insert_like (h : c.Dated) (pages : c'.pages = c.pages.insert ref page)
    (clock : c'.clock = c.clock) (found : c.pages.find? r = some page')
    (time : page.lastAccess = page'.lastAccess) (frame : page.frame = page'.frame) : c'.Dated := by
  refine h.insert pages clock.ge ?_ fun r₁ other i i' _ there hi hi' same => ?_
  · rw [clock, time]
    exact h.past r page' found
  · exact h.apart r₁ r other page' i' i there found hi' (frame ▸ hi) (same.trans time)

theorem Dated.insert_newest (h : c.Dated) (newest : c.Newest ref)
    (pages : c'.pages = c.pages.insert ref page) (clock : c'.clock = c.clock)
    (present : page.lastAccess = c.clock) : c'.Dated := by
  refine h.insert pages clock.ge (present.trans clock.symm).le fun r₁ other i i' hr there _ _ same => ?_
  have before := newest r₁ other hr there
  rw [same, present] at before
  exact absurd before (Nat.lt_irrefl _)

theorem Dated.stamp (h : c.Dated) (ref : PageRef) (page : Page) :
    (c.stamp ref page).Dated ∧ (c.stamp ref page).Newest ref := by
  refine ⟨h.insert rfl (Nat.le_succ _) (Nat.le_refl _) fun r other i i' _ there _ _ same => ?_,
    fun r other hr there => ?_⟩
  · have past := h.past r other there
    rw [same] at past
    exact absurd past (Nat.not_succ_le_self _)
  · have there' := (Table.find?_insert _ _ _ _).symm.trans there
    rw [if_neg (Ne.symm hr)] at there'
    exact Nat.lt_succ_of_le (h.past r other there')

structure Wanes (c c' : Core) : Prop where
  clock : c'.clock = c.clock
  pages : ∀ ref page', c'.pages.find? ref = some page' → ∃ page, c.pages.find? ref = some page ∧
    page'.lastAccess = page.lastAccess ∧ ∀ id, page'.frame = some id → page.frame = some id

namespace Wanes

theorem of_same (same : c'.ages = c.ages) : c.Wanes c' := by
  obtain ⟨pages, clock⟩ := Prod.mk.inj same
  exact ⟨clock, fun _ page' found => ⟨page', pages ▸ found, rfl, fun _ => id⟩⟩

theorem trans (h : c.Wanes c₁) (h' : c₁.Wanes c') : c.Wanes c' := by
  refine ⟨h'.clock.trans h.clock, fun ref page' found => ?_⟩
  obtain ⟨page₁, found₁, time₁, frame₁⟩ := h'.pages ref page' found
  obtain ⟨page, found, time, frame⟩ := h.pages ref page₁ found₁
  exact ⟨page, found, time₁.trans time, fun id hid => frame id (frame₁ id hid)⟩

theorem erase (pages : c'.pages = c.pages.erase ref) (clock : c'.clock = c.clock) : c.Wanes c' := by
  refine ⟨clock, fun r page' found => ?_⟩
  rw [pages] at found
  exact ⟨page', (Table.find?_erase_eq_some.1 found).2, rfl, fun _ => id⟩

theorem empty (found : c.pages.find? ref = some page) (pages : c'.pages = c.pages.insert ref page')
    (clock : c'.clock = c.clock) (time : page'.lastAccess = page.lastAccess)
    (away : page'.frame = none) : c.Wanes c' := by
  refine ⟨clock, fun r p found' => ?_⟩
  rw [pages] at found'
  rcases Table.find?_insert_eq_some.1 found' with ⟨rfl, rfl⟩ | ⟨-, old⟩
  · refine ⟨page, found, time, fun id resident => ?_⟩
    cases away.symm.trans resident
  · exact ⟨p, old, rfl, fun _ => id⟩

theorem dated (h : c.Wanes c') (dated : c.Dated) : c'.Dated := by
  refine ⟨fun r p found => ?_, fun r r' p p' i i' found found' hi hi' time => ?_⟩
  · obtain ⟨p₀, found₀, time₀, -⟩ := h.pages r p found
    rw [h.clock, time₀]
    exact dated.past r p₀ found₀
  · obtain ⟨p₀, found₀, time₀, frame₀⟩ := h.pages r p found
    obtain ⟨p₁, found₁, time₁, frame₁⟩ := h.pages r' p' found'
    exact dated.apart r r' p₀ p₁ i i' found₀ found₁ (frame₀ i hi) (frame₁ i' hi')
      (time₀.symm.trans (time.trans time₁))

theorem newest (h : c.Wanes c') (newest : c.Newest ref) : c'.Newest ref := by
  intro r p hr found
  obtain ⟨p₀, found₀, time₀, -⟩ := h.pages r p found
  rw [h.clock, time₀]
  exact newest r p₀ hr found₀

end Wanes

theorem disown_ages (c : Core) (id : FrameId) (frame : Frame) (ref : PageRef) :
    (c.disown id frame ref).ages = c.ages := by
  unfold disown
  split <;> rfl

theorem Step.drop_wanes (h : Step c [.drop ref] c') : c.Wanes c' := by
  cases h with
  | dropAway _ _ disposed =>
      obtain ⟨swap, files, rfl⟩ := disposed.core_eq
      exact .erase rfl rfl
  | drop _ _ _ disposed =>
      obtain ⟨swap, files, rfl⟩ := disposed.core_eq
      exact .erase (congrArg Prod.fst (disown_ages _ _ _ _) :)
        (congrArg Prod.snd (disown_ages _ _ _ _) :)
  | fill _ _ _ filled => exact (filled.settles.1 _ List.mem_cons_self).elim

end Core

/-! What leaves the pages and the clock alone. -/

abbrev KeepsAges (x : KernelM α) : Prop := Keeps (fun m : Machine => m.core.ages) x

open Keeps

theorem keepsAges_of_core (core : ∀ ⦃m a m'⦄, x m = .ok a m' → m'.core = m.core) : KeepsAges x :=
  fun _ _ _ h => congrArg Core.ages (core h)

theorem emit_ages (event : Event) : KeepsAges (emit event) := keepsAges_of_core fun _ _ _ => emit_core

theorem writePhys_ages (phys : PhysPage) (bytes : PageBytes) : KeepsAges (writePhys phys bytes) :=
  .modify fun _ => rfl

theorem clearMapping_ages (entry : PageRef) : KeepsAges (clearMapping entry) := .modify fun _ => rfl

theorem setDirty_ages (entry : PageRef) (dirty : Bool) : KeepsAges (setDirty entry dirty) :=
  .modify fun _ => rfl

theorem setFrame_ages (id : FrameId) (frame : Frame) : KeepsAges (setFrame id frame) :=
  .modify fun _ => rfl

theorem link_ages (id : FrameId) (ref : PageRef) : KeepsAges (link id ref) :=
  (frame_keeps id).bind fun _ => setFrame_ages _ _

theorem unlink_ages (id : FrameId) (ref : PageRef) : KeepsAges (unlink id ref) :=
  (frame_keeps id).bind fun _ => .ite (Keeps.bind (.modify fun _ => rfl) fun _ => emit_ages _)
    (setFrame_ages _ _)

theorem install_ages (entry : PageRef) (phys : PhysPage) (writable : Bool) :
    KeepsAges (install entry phys writable) := by
  intro m granted m' h
  rcases install_core h with ⟨-, hm'⟩ | ⟨-, hm', -⟩ <;> exact (congrArg Core.ages hm' :)

theorem remap_ages (entry : PageRef) (phys : PhysPage) (writable : Bool) :
    KeepsAges (remap entry phys writable) := by
  intro m granted m' h
  rcases remap_core h with ⟨-, hm'⟩ | ⟨-, hm', -⟩ <;> exact (congrArg Core.ages hm' :)

theorem fill_ages (kind : PageKind) (phys : PhysPage) : KeepsAges (kind.fill phys) := by
  intro m filled m' h
  rcases PageKind.fill_core ⟨0, ⟨0⟩⟩ h with ⟨-, bytes, c₁, ds, fills, hm'⟩ |
    ⟨-, target, init, kept, bytes, c₁, -, -, -, made, hm'⟩
  · obtain ⟨swap, programs, rfl, -⟩ := fills.core_eq
    exact (congrArg Core.ages hm' :)
  · obtain ⟨programs, rfl, -⟩ := made.core_eq
    exact (congrArg Core.ages hm' :)

theorem mapAndFill_ages (ref : PageRef) (page : Page) (phys : PhysPage) :
    KeepsAges (mapAndFill ref page phys) :=
  (install_ages _ _ _).bind fun _ => .ite ((emit_ages _).bind fun _ => fill_ages _ _) (.pure _)

/-! The search for a frame. -/

theorem Victim.GivesUp.wanes {v : Victim} {c c' : Core} (h : v.GivesUp c c') : c.Wanes c' := by
  obtain ⟨⟨found, -⟩, kind, c₁, saves, rfl⟩ := h
  obtain ⟨swap, files, rfl⟩ := saves.core_eq
  exact .empty found rfl rfl rfl rfl

theorem allocateFrame_wanes (h : allocateFrame m = .ok id m') : m.core.Wanes m'.core := by
  rcases allocateFrame_parts h with ⟨phys, memory, console, -, -, rfl⟩ | ⟨-, h⟩
  · exact .of_same rfl
  · obtain ⟨files, v, -, -, -, gives⟩ := evict_parts h
    exact ⟨gives.wanes.clock, gives.wanes.pages⟩

/-! Computations that leave the times of pages in order. -/

def Dates (x : KernelM α) : Prop := ∀ ⦃m a m'⦄, x m = .ok a m' → m.core.Dated → m'.core.Dated

namespace Dates

theorem still (h : KeepsAges x) : Dates x := fun _ _ _ run dated => dated.same (h run)

theorem pure (a : α) : Dates (Pure.pure a) := .still (.pure a)

theorem bind {f : α → KernelM β} (hx : Dates x) (hf : ∀ a, Dates (f a)) : Dates (x >>= f) := by
  intro m b m' h dated
  obtain ⟨a, m₁, h₁, h⟩ := bind_ok.1 h
  exact hf a h (hx h₁ dated)

theorem ite {p : Prop} [Decidable p] {y : KernelM α} (hx : Dates x) (hy : Dates y) :
    Dates (if p then x else y) := by
  split
  · exact hx
  · exact hy

theorem of_page {f : Option Page → KernelM α} (hf : ∀ ⦃m a m'⦄, f (m.core.pages.find? ref) m = .ok a m' →
    m.core.Dated → m'.core.Dated) : Dates (page? ref >>= f) := by
  intro m a m' h dated
  obtain ⟨found, _, h₁, h⟩ := bind_ok.1 h
  obtain ⟨rfl, rfl⟩ := page?_core h₁
  exact hf h dated

end Dates

open Dates

theorem emit_dates (event : Event) : Dates (emit event) := .still (emit_ages event)

theorem touch_dates (ref : PageRef) (page : Page) : Dates (touch ref page) := by
  intro m page' m' h dated
  rw [(touch_core h).2]
  exact (dated.stamp ref page).1

theorem setPage_away {u : Unit} (h : setPage ref page m = .ok u m') (dated : m.core.Dated)
    (past : page.lastAccess ≤ m.core.clock) (away : page.frame = none) : m'.core.Dated := by
  rw [setPage_core h]
  exact dated.insert_away rfl rfl past away

theorem claimVacant_dates (found : m.core.pages.find? ref = some page) (dated : m.core.Dated)
    (h : claimVacant ref page m = .ok done m') : m'.core.Dated := by
  obtain ⟨-, id, m₁, phys, m₂, kind, m₃, h₁, -, h₂, h₃, filled, given⟩ := claimVacant_parts h
  have wanes : m.core.Wanes m₃.core := (allocateFrame_wanes h₁).trans
    (.of_same ((mapAndFill_ages _ _ _ h₃).trans (link_ages _ _ h₂)))
  have dated₃ := wanes.dated dated
  cases done with
  | true =>
      obtain ⟨stamped, m₄, h₄, h₅⟩ := filled rfl
      exact emit_dates _ h₅ (touch_dates _ _ h₄ dated₃)
  | false =>
      obtain ⟨_, m₄, h₄, h⟩ := bind_ok.1 (given rfl)
      obtain ⟨_, m₅, h₅, h⟩ := bind_ok.1 h
      obtain ⟨_, m₆, h₆, h⟩ := bind_ok.1 h
      have same : m₅.core.ages = m₃.core.ages := (clearMapping_ages _ h₅).trans (emit_ages _ h₄)
      have past : page.lastAccess ≤ m₅.core.clock := by
        rw [(Prod.mk.inj same).2, wanes.clock]
        exact dated.past ref page found
      exact Dates.bind (.still (unlink_ages _ _)) (fun _ => .pure _) h
        (setPage_away h₆ (dated₃.same same) past rfl)

theorem moved_dates {new : FrameId} {entry : PageRef} {phys : PhysPage} {event : Event}
    (dated : m.core.Dated) (newest : m.core.Newest ref) (present : page.lastAccess = m.core.clock)
    (h : (do
      setPage ref { page with frame := some new, cow := false }
      emit event
      if ← remap entry phys page.writable then
        pure true
      else
        clearMapping entry
        setPage ref { page with frame := none, cow := false }
        unlink new ref
        pure false) m = .ok done m') : m'.core.Dated := by
  obtain ⟨_, m₁, h₁, h⟩ := bind_ok.1 h
  have dated₁ : m₁.core.Dated := by
    rw [setPage_core h₁]
    exact dated.insert_newest newest rfl rfl present
  have present₁ : page.lastAccess = m₁.core.clock := by
    rw [setPage_core h₁]
    exact present
  obtain ⟨_, m₂, h₂, h⟩ := bind_ok.1 h
  obtain ⟨mapped, m₃, h₃, h⟩ := bind_ok.1 h
  have same : m₃.core.ages = m₁.core.ages := (remap_ages _ _ _ h₃).trans (emit_ages _ h₂)
  cases mapped with
  | true =>
      obtain ⟨-, rfl⟩ := pure_ok.1 h
      exact dated₁.same same
  | false =>
      obtain ⟨_, m₄, h₄, h⟩ := bind_ok.1 h
      obtain ⟨_, m₅, h₅, h⟩ := bind_ok.1 h
      have same₄ := (clearMapping_ages _ h₄).trans same
      have past : page.lastAccess ≤ m₄.core.clock := (present₁.trans (Prod.mk.inj same₄).2.symm).le
      exact Dates.bind (.still (unlink_ages _ _)) (fun _ => .pure _) h
        (setPage_away h₅ (dated₁.same same₄) past rfl)

theorem breakSharing_dates (ref : PageRef) (page : Page) (old : FrameId) :
    Dates (breakSharing ref page old) := by
  intro m done m' h dated
  obtain ⟨page', m₁, shared, touched, -, alone, copied⟩ := breakSharing_parts h
  obtain ⟨hpage', hm₁⟩ := touch_core touched
  obtain ⟨dated₁, newest₁⟩ := dated.stamp ref page
  rw [← hm₁] at dated₁ newest₁
  by_cases sole : shared.owners.length = 1
  · obtain ⟨m₂, m₃, h₁, h₂, h₃⟩ := alone sole
    have found₁ : m₁.core.pages.find? ref = some page' := by
      rw [hm₁, hpage']
      exact stamp_found _ _ _
    have dated₂ : m₂.core.Dated := by
      rw [setPage_core h₁]
      exact dated₁.insert_like rfl rfl found₁ rfl rfl
    exact dated₂.same ((remap_ages _ _ _ h₃).trans (emit_ages _ h₂))
  · obtain ⟨new, m₂, source, target, m₃, m₄, m₅, taken, -, -, written, unlinked, linked, h⟩ := copied sole
    -- the frame was perhaps taken from another page, but no page was used meanwhile
    have wanes : m₁.core.Wanes m₅.core := (allocateFrame_wanes taken).trans (.of_same
      ((link_ages _ _ linked).trans ((unlink_ages _ _ unlinked).trans (writePhys_ages _ _ written))))
    have present : page'.lastAccess = m₅.core.clock := by
      rw [wanes.clock, hpage', hm₁]
      rfl
    exact moved_dates (wanes.dated dated₁) (wanes.newest newest₁) present h

theorem resolve_dates (ref : PageRef) (write : Bool) : Dates (resolve ref write) :=
  .of_page fun m done m' h dated => by
    cases found : m.core.pages.find? ref with
    | none =>
        rw [found] at h
        exact Dates.pure _ h dated
    | some page =>
        rw [found] at h
        dsimp only at h
        split at h
        · exact (emit_dates _).bind (fun _ => .pure _) h dated
        · cases resident : page.frame with
          | none =>
              simp only [resident] at h
              exact claimVacant_dates found dated h
          | some id =>
              simp only [resident] at h
              exact Dates.ite (breakSharing_dates _ _ _) ((touch_dates _ _).bind fun _ =>
                .bind (.still (physPage_keeps _)) fun _ => .still (remap_ages _ _ _)) h dated

theorem claim_dates (ref : PageRef) : Dates (claim ref) :=
  .of_page fun m done m' h dated => by
    cases found : m.core.pages.find? ref with
    | none =>
        rw [found] at h
        exact Dates.pure _ h dated
    | some page =>
        rw [found] at h
        dsimp only at h
        split at h
        · exact Dates.pure _ h dated
        · exact claimVacant_dates found dated h

theorem find_dates (s : SpaceId) (va : VirtAddr) : Dates (find s va) :=
  Dates.bind (.still (page?_keeps _)) fun found => by
    cases found with
    | none => exact .pure _
    | some page => exact (touch_dates _ _).bind fun _ => .pure _

theorem claimPage_dates (s : SpaceId) (va : VirtAddr) : Dates (claimPage s va) :=
  (find_dates s va).bind fun found => by
    cases found with
    | none => exact .pure _
    | some _ => exact claim_dates _

theorem addPage_away (past : page.lastAccess = 0) (away : page.frame = none) : Dates (addPage ref page) := by
  intro m added m' h dated
  rcases addPage_core h with ⟨-, -, hm'⟩ | ⟨-, -, hm'⟩
  · rw [hm']
    exact dated.insert_away rfl rfl (past.trans_le (Nat.zero_le _)) away
  · rw [hm']
    exact dated

theorem declare_dates (s : SpaceId) (va : VirtAddr) (writable : Bool) (target : PageTarget)
    (init : Option Initializer) : Dates (declare s va writable target init) := by
  unfold declare
  exact .ite (addPage_away rfl rfl) ((emit_dates _).bind fun _ =>
    .bind (.still (keepsAges_of_core fun _ _ _ => PageKind.close_core)) fun _ => .pure _)

theorem insert_dates (s : SpaceId) (va : VirtAddr) (writable : Bool) (kind : PageKind) :
    Dates (insert s va writable kind) := by
  unfold insert
  exact .ite (addPage_away rfl rfl) (.still (.throw _))

theorem removeRef_dates (ref : PageRef) : Dates (removeRef ref) := by
  intro m removed m' h dated
  rcases removeRef_core h with ⟨-, -, hm'⟩ | ⟨-, -, hstep⟩
  · rw [hm']
    exact dated
  · exact hstep.drop_wanes.dated dated

theorem destroyPages_dates (s : SpaceId) (vpns : List PageNum) : Dates (destroyPages s vpns) := by
  induction vpns with
  | nil => exact .pure _
  | cons vpn rest ih => exact (removeRef_dates _).bind fun _ => ih

theorem removePages_dates (s : SpaceId) (vpns : List PageNum) : Dates (removePages s vpns) := by
  rw [removePages_eq]
  exact destroyPages_dates _ _

theorem get_dates : Dates (get : KernelM Machine) := .still .get

theorem chart_dates (f : Machine → Table PageRef Nat) :
    Dates (modify fun m => { m with regions := f m } : KernelM PUnit) :=
  .still (.modify fun _ => rfl)

theorem teardown_dates (s : SpaceId) (order : Traversal) : Dates (teardown s order) :=
  get_dates.bind fun _ => .ite (.pure _) <| (emit_dates _).bind fun _ =>
    Dates.bind (chart_dates _) fun _ => destroyPages_dates _ _

theorem exitSpace_dates (s : SpaceId) (order : Traversal) : Dates (exitSpace s order) :=
  (teardown_dates s order).bind fun _ => .still (.modify fun _ => rfl)

theorem copyUnused_dates (src : Page) (dst : PageRef) : Dates (copyUnused src dst) :=
  .bind (.still (keepsAges_of_core fun _ _ _ h => (PageKind.duplicate_core h).1)) fun kind => by
    cases kind with
    | none => exact (emit_dates _).bind fun _ => .pure _
    | some kind => exact addPage_away rfl rfl

theorem shareFrame_dates {src dst : PageRef} (found : m.core.pages.find? src = some page)
    (resident : page.frame = some id) (dated : m.core.Dated)
    (h : shareFrame src dst page id m = .ok done m') : m'.core.Dated := by
  cases shareFrame_shares h with
  | notCopied copied told =>
      rw [emit_core told, (PageKind.duplicate_core copied).1]
      exact dated
  | notAdded copied refused =>
      rw [addPage_refused refused, (PageKind.duplicate_core copied).1]
      exact dated
  | @mapped kind frame _ m₁ m₂ m₃ m₄ _ copied added linked _ marked maps =>
      rw [← (PageKind.duplicate_core copied).1] at found dated
      obtain ⟨vacant, hm₂⟩ := addPage_added added
      have dated₂ : m₂.core.Dated := by
        rw [hm₂]
        exact dated.insert_like rfl rfl found rfl resident.symm
      have found₂ : m₂.core.pages.find? src = some page := by
        rw [hm₂]
        exact (Table.find?_insert_of_ne (Ne.symm (ne_of_found found vacant))).trans found
      obtain ⟨pages, -⟩ := Prod.mk.inj (link_ages _ _ linked)
      rw [← pages] at found₂
      have dated₄ : m₄.core.Dated := by
        rw [setPage_core marked]
        exact (dated₂.same (link_ages _ _ linked)).insert_like rfl rfl found₂ rfl rfl
      cases maps with
      | none refused => exact dated₄.same (remap_ages _ _ _ refused)
      | one remapped refused =>
          exact (dated₄.same (remap_ages _ _ _ remapped)).same (install_ages _ _ _ refused)
      | both remapped entered told =>
          exact ((dated₄.same (remap_ages _ _ _ remapped)).same (install_ages _ _ _ entered)).same
            (emit_ages _ told)

theorem copyUsed_dates {src dst : PageRef} (found : m.core.pages.find? src = some page)
    (dated : m.core.Dated) (h : copyUsed src dst page m = .ok done m') : m'.core.Dated := by
  obtain ⟨back, m₁, h₁, h⟩ := copyUsed_parts h
  have dated₁ : m₁.core.Dated := by
    unfold bringBack at h₁
    split at h₁
    · exact Dates.pure _ h₁ dated
    · exact claimVacant_dates found dated h₁
  rcases h with ⟨-, rfl⟩ | ⟨page₁, id, found₁, resident₁, h⟩
  · exact dated₁
  · exact shareFrame_dates found₁ resident₁ dated₁ h

theorem copyPage_dates (src dst : SpaceId) (vpn : PageNum) : Dates (copyPage src dst vpn) :=
  .of_page fun m done m' h dated => by
    cases found : m.core.pages.find? ⟨src, vpn⟩ with
    | none =>
        rw [found] at h
        exact Dates.pure _ h dated
    | some page =>
        rw [found] at h
        dsimp only at h
        split at h
        · exact copyUnused_dates _ _ h dated
        · exact copyUsed_dates found dated h

theorem copyPages_dates (src dst : SpaceId) (vpns : List PageNum) : Dates (copyPages src dst vpns) := by
  induction vpns with
  | nil => exact .pure _
  | cons vpn rest ih => exact (copyPage_dates _ _ _).bind fun _ => .ite ih (.pure _)

theorem copySpace_dates (src dst : SpaceId) (order : Traversal) : Dates (copySpace src dst order) :=
  get_dates.bind fun _ => (copyPages_dates _ _ _).bind fun _ =>
    .ite (Dates.bind (chart_dates _) fun _ => .pure _) (.pure _)

theorem checkedSub_dates (a b : Nat) : Dates (checkedSub a b) := .ite (.pure _) (.still (.throw _))

theorem checkedMul_dates (a b : Nat) : Dates (checkedMul a b) := .ite (.pure _) (.still (.throw _))

theorem checkedAdd_dates (a b : Nat) : Dates (checkedAdd a b) := .still (checkedAdd_keeps a b)

theorem MapRequest.declarePages_dates (r : MapRequest) (count i : Nat) :
    Dates (r.declarePages count i) := by
  induction count generalizing i with
  | zero => exact .pure _
  | succ count ih =>
      have first : Dates (r.declarePage i) := by
        intro m done m' h dated
        rcases r.declarePage_core h with ⟨-, -, hm'⟩ | ⟨-, hm'⟩
        · rw [hm']
          exact dated.insert_away rfl rfl (Nat.zero_le _) rfl
        · rw [hm']
          exact dated
      exact first.bind fun _ => .ite (ih _) <| (checkedAdd_dates _ _).bind fun _ =>
        (removePages_dates _ _).bind fun _ => .pure _

theorem map_dates (s : SpaceId) (va : VirtAddr) (length : Nat) (writable : Bool) (file : FileId)
    (offset : Nat) : Dates (map s va length writable file offset) := by
  unfold map
  refine .ite ((emit_dates _).bind fun _ => .pure _) ?_
  cases va.add? length with
  | none => exact .pure _
  | some stop =>
      refine .ite (.pure _) <| get_dates.bind fun _ => .ite ((emit_dates _).bind fun _ => .pure _) <|
        (checkedSub_dates _ _).bind fun _ => (checkedMul_dates _ _).bind fun _ => ?_
      refine .ite ((emit_dates _).bind fun _ => .pure _) <| (checkedAdd_dates _ _).bind fun _ =>
        get_dates.bind fun _ => .ite ((emit_dates _).bind fun _ => .pure _) ?_
      exact (MapRequest.declarePages_dates _ _ _).bind fun _ =>
        .ite ((chart_dates _).bind fun _ => (emit_dates _).bind fun _ => .pure _) (.pure _)

theorem unmap_dates (s : SpaceId) (va : VirtAddr) : Dates (unmap s va) := by
  unfold unmap
  refine .ite (get_dates.bind fun m => ?_) (.pure _)
  cases m.regions.find? ⟨s, va.vpnFloor⟩ with
  | none => exact (emit_dates _).bind fun _ => .pure _
  | some pages =>
      exact (chart_dates _).bind fun _ => (checkedAdd_dates _ _).bind fun _ =>
        (removePages_dates _ _).bind fun _ => (emit_dates _).bind fun _ => .pure _

theorem resolveFault_dates (s : SpaceId) (addr sp : VirtAddr) (flags : FaultFlags) :
    Dates (resolveFault s addr sp flags) :=
  (emit_dates _).bind fun _ => .ite ((emit_dates _).bind fun _ => .pure _) <|
    .ite ((emit_dates _).bind fun _ => .pure _) <| (find_dates s addr).bind fun found => by
      cases found with
      | some _ => exact resolve_dates _ _
      | none =>
          exact .ite ((emit_dates _).bind fun _ => (declare_dates _ _ _ _ _).bind fun _ =>
            .ite (resolve_dates _ _) (.pure _)) ((emit_dates _).bind fun _ => .pure _)

/-! Accesses of users. -/

theorem faultIn_dates (s : SpaceId) (va sp : VirtAddr) (write : Bool) : Dates (faultIn s va sp write) :=
  .bind (.still (mapping?_keeps s va)) fun _ => resolveFault_dates _ _ _ _

theorem readMapped_dates (s : SpaceId) (va : VirtAddr) (n : Nat) : Dates (readMapped s va n) :=
  .bind (.still (mapping?_keeps s va)) fun found => by
    cases found with
    | none => exact .pure _
    | some mapping => exact .bind (.still (readPhys_keeps _)) fun _ => .pure _

theorem writeMapped_dates (s : SpaceId) (va : VirtAddr) (bytes : Array UInt8) :
    Dates (writeMapped s va bytes) :=
  .bind (.still (mapping?_keeps s va)) fun found => by
    cases found with
    | none => exact .pure _
    | some mapping =>
        exact .ite (.bind (.still (readPhys_keeps _)) fun _ => .bind (.still (writePhys_ages _ _)) fun _ =>
          .bind (.still (setDirty_ages _ _)) fun _ => .pure _) (.pure _)

theorem readPieces_dates (s : SpaceId) (va sp : VirtAddr) (length count i : Nat) (got : Array UInt8) :
    Dates (readPieces s va sp length count i got) := by
  induction count generalizing i got with
  | zero => exact .pure _
  | succ count ih =>
      have first (va : VirtAddr) (n : Nat) : Dates (readPiece s va sp n) :=
        (readMapped_dates _ _ _).bind fun bytes => by
          cases bytes with
          | some bytes => exact .pure _
          | none => exact (faultIn_dates _ _ _ _).bind fun _ => .ite (readMapped_dates _ _ _) (.pure _)
      refine (first _ _).bind fun bytes => ?_
      cases bytes with
      | none => exact .pure _
      | some bytes => exact ih _ _

theorem writePieces_dates (s : SpaceId) (va sp : VirtAddr) (bytes : Array UInt8) (count i : Nat) :
    Dates (writePieces s va sp bytes count i) := by
  induction count generalizing i with
  | zero => exact .pure _
  | succ count ih =>
      have first (va : VirtAddr) (bytes : Array UInt8) : Dates (writePiece s va sp bytes) :=
        (writeMapped_dates _ _ _).bind fun _ => .ite (.pure _) <| (faultIn_dates _ _ _ _).bind fun _ =>
          .ite (writeMapped_dates _ _ _) (.pure _)
      exact (first _ _).bind fun _ => .ite (ih _) (.pure _)

/-! Requests. -/

theorem TargetRequest.make_dates (request : TargetRequest) : Dates request.make :=
  .still (keepsAges_of_core fun _ _ _ h => (TargetRequest.make_core h).1)

theorem useFile_ages (id : FileId) (f : File → α × File) : KeepsAges (useFile id f) := by
  intro m a m' h
  exact (congrArg Core.ages (useFile_core h).2 :)

theorem newBacking_dates (id : FileId) (offset count : Nat) : Dates (newBacking id offset count) :=
  .still (keepsAges_of_core fun _ _ _ h => (newBacking_core h).1)

theorem makeInitializer_dates (request : Option InitializerRequest) : Dates (makeInitializer request) := by
  rcases request with _ | (⟨id, offset, count⟩ | routine)
  · exact .pure _
  · exact Dates.bind ((newBacking_dates _ _ _).bind fun _ => .pure _) fun _ => .pure _
  · refine Dates.bind (Dates.bind (.still fun m id m' h => ?_) fun _ => .pure _) fun _ => .pure _
    rw [← (Prod.mk.inj (modifyGet_ok.1 h)).2]
    rfl

theorem KindRequest.make_dates (request : KindRequest) : Dates request.make := by
  cases request with
  | anon => exact .pure _
  | file id offset count => exact (newBacking_dates _ _ _).bind fun _ => .pure _
  | uninit target init =>
      exact (target.make_dates).bind fun _ => (makeInitializer_dates init).bind fun _ => .pure _

theorem holding_dates (ref : PageRef) (hx : Dates x) : Dates (holding ref x) :=
  have hold (held : List PageRef) :
      Dates (modify fun m : Machine => { m with held } : KernelM PUnit) := .still (.modify fun _ => rfl)
  get_dates.bind fun _ => (hold _).bind fun _ => hx.bind fun _ => (hold _).bind fun _ => .pure _

theorem setInstalls_dates (s : SpaceId) (installs : Replies Bool) :
    Dates (modify fun m => { m with installs := m.installs.insert s installs } : KernelM PUnit) :=
  .still (.modify fun _ => rfl)

theorem Operation.perform_dates (op : Operation) : Dates op.perform := by
  induction op with
  | newSpace =>
      refine Dates.bind (.still fun m s m' h => ?_) fun _ => .pure _
      rw [← (Prod.mk.inj (modifyGet_ok.1 h)).2]
      rfl
  | declare s va writable target init =>
      exact target.make_dates.bind fun _ => (makeInitializer_dates init).bind fun _ =>
        (declare_dates _ _ _ _ _).bind fun _ => .pure _
  | insert s va writable kind =>
      exact kind.make_dates.bind fun _ => (insert_dates _ _ _ _).bind fun _ => .pure _
  | claim s va => exact (claimPage_dates s va).bind fun _ => .pure _
  | find s va => exact (find_dates s va).bind fun _ => .pure _
  | pageType s va => exact Dates.bind (.bind (.still (page?_keeps _)) fun _ => .pure _) fun _ => .pure _
  | remove s va => exact (removeRef_dates _).bind fun _ => .pure _
  | map s va length writable id offset =>
      exact .bind (.still (useFile_ages _ _)) fun _ => (map_dates _ _ _ _ _ _).bind fun _ =>
        .bind (.still (useFile_ages _ _)) fun _ => .pure _
  | unmap s va => exact (unmap_dates s va).bind fun _ => .pure _
  | check s va length write =>
      exact .bind (.still (keepsAges_of_core fun _ _ _ => checkUserRange_core)) fun _ => .pure _
  | fault s va sp flags => exact (resolveFault_dates s va sp flags).bind fun _ => .pure _
  | read s va length sp => exact (readPieces_dates _ _ _ _ _ _ _).bind fun _ => .pure _
  | write s va bytes sp => exact (writePieces_dates _ _ _ _ _ _).bind fun _ => .pure _
  | fork src dst order => exact (copySpace_dates src dst order).bind fun _ => .pure _
  | teardown s order => exact (teardown_dates s order).bind fun _ => get_dates.bind fun _ => .pure _
  | exit s order => exact (exitSpace_dates s order).bind fun _ => .pure _
  | size | mappings | file | stats => exact get_dates.bind fun _ => .pure _
  | setDirty s va dirty =>
      exact .bind (.still (setDirty_ages _ _)) fun _ => .bind (.still (isDirty_keeps _)) fun _ => .pure _
  | dropMapping s va => exact .bind (.still (clearMapping_ages _)) fun _ => .pure _
  | setInstalls s installs => exact Dates.bind (setInstalls_dates s installs) fun _ => .pure _
  | configureFile id settings => exact .bind (.still (useFile_ages _ _)) fun _ => .pure _
  | duplicateBacking id offset count =>
      exact .still (keepsAges_of_core fun _ _ _ => duplicateBacking_core)
  | locked s va op ih =>
      refine (find_dates s va).bind fun found => ?_
      cases found with
      | none => exact .pure _
      | some _ => exact holding_dates _ ih

theorem Machine.Reaches.dated {frames : Nat} {sectors : Option Nat} {files : List File}
    {allocator : Allocator}
    (reaches : (Machine.fresh frames sectors files allocator).Reaches m) : m.core.Dated := by
  induction reaches with
  | refl =>
      have none (ref : PageRef) :
          (Machine.fresh frames sectors files allocator).core.pages.find? ref = none := rfl
      exact ⟨fun ref _ found => (nomatch (none ref).symm.trans found),
        fun ref _ _ _ _ _ found => (nomatch (none ref).symm.trans found)⟩
  | served _ _ answered ih => exact Operation.perform_dates _ answered (ih.same rfl)

theorem Core.Dated.victim_eq {c : Core} {v w : Victim} (dated : c.Dated) (hs : c.Sound)
    (hv : v.Stands c) (hw : w.Stands c) (time : v.page.lastAccess = w.page.lastAccess) : v = w := by
  obtain ⟨id, phys, ref, page⟩ := v
  obtain ⟨id', phys', ref', page'⟩ := w
  obtain ⟨found, owned⟩ := hv
  obtain ⟨found', owned'⟩ := hw
  obtain rfl : id = id' := dated.apart ref ref' page page' id id' found found'
    (hs.victim found owned) (hs.victim found' owned') time
  cases owned.symm.trans owned'
  cases found.symm.trans found'
  rfl

/-- Pages in memory with the same time are in the same frame, however they came to it. So the frames with
one owner all have different times, and whichever way the frame table is read and its victims are sorted
by their times, they come in one order. -/
theorem victims_never_tied {frames : Nat} {sectors : Option Nat} {files : List File}
    {allocator : Allocator} (reaches : (Machine.fresh frames sectors files allocator).Reaches m) :
    (∀ ref ref' page page' id id', m.pages.find? ref = some page → m.pages.find? ref' = some page' →
      page.frame = some id → page'.frame = some id' → page.lastAccess = page'.lastAccess → id = id') ∧
    (∀ ref ref' page page' id id' phys phys', m.frames.find? id = some ⟨phys, [ref]⟩ →
      m.frames.find? id' = some ⟨phys', [ref']⟩ → m.pages.find? ref = some page →
      m.pages.find? ref' = some page' → id ≠ id' → page.lastAccess ≠ page'.lastAccess) ∧
    ∀ (held : List PageRef) (rows : List (FrameId × Frame)) (sorted : List Victim),
      rows.Perm m.frames.entries.rows →
      sorted.Perm (rows.filterMap fun row => Machine.victim? { m with held } row.1 row.2) →
      (sorted.Pairwise fun a b => a.page.lastAccess ≤ b.page.lastAccess) →
        sorted = Machine.victims { m with held } := by
  have dated := reaches.dated
  have hs := (reaches.tidy (Machine.fresh_tidy frames sectors files allocator)).sound
  refine ⟨dated.apart, fun ref ref' page page' id id' phys phys' owned owned' found found' hne same => ?_,
    fun held rows sorted order all aged => ?_⟩
  · exact hne (dated.apart ref ref' page page' id id' found found' (hs.victim found owned)
      (hs.victim found' owned') same)
  · have listed : sorted.Perm (Machine.victims { m with held }) :=
      all.trans ((order.filterMap _).trans (Victim.sortByAge_perm _).symm)
    have stand {v : Victim} (hv : v ∈ Machine.victims { m with held }) : v.Stands m.core :=
      Machine.victims_stand (m := { m with held }) hv
    refine listed.eq_of_pairwise (fun v w hv hw le ge => ?_) aged (Machine.victims_aged _)
    exact dated.victim_eq hs (stand (listed.mem_iff.1 hv)) (stand hw) (Nat.le_antisymm le ge)

/-- Two spaces were copied one after the other, a page of the copy was written to, and two more pages took
the place of its own copy. -/
theorem victims_never_tied_after_forks : ∃ m a b page page' id id',
    (Machine.fresh 4 (some 16) []).Reaches m ∧
    m.pages.find? ⟨0, ⟨2⟩⟩ = some page ∧ m.pages.find? ⟨2, ⟨2⟩⟩ = some page' ∧
    page.frame = some id ∧ page'.frame = some id' ∧ page.lastAccess = page'.lastAccess ∧ id = id' ∧
    (m.pages.find? ⟨1, ⟨1⟩⟩).map Page.frame = some none ∧ m.victims = [a, b] ∧
    a.page.lastAccess ≠ b.page.lastAccess ∧
    ∀ sorted, sorted.Perm (m.frames.entries.rows.reverse.filterMap fun row =>
        m.victim? row.1 row.2) →
      (sorted.Pairwise fun a b => a.page.lastAccess ≤ b.page.lastAccess) → sorted = [a, b] := by
  have played : ((Machine.fresh 4 (some 16) []).serve [
      .declare 0 (.ofBits 4096) true .anon none, .write 0 (.ofBits 4096) #[1] (.ofBits 0),
      .declare 0 (.ofBits 8192) true .anon none, .write 0 (.ofBits 8192) #[2] (.ofBits 0),
      .newSpace, .fork 0 1 .asStored, .newSpace, .fork 1 2 .asStored,
      .write 1 (.ofBits 4096) #[3] (.ofBits 0),
      .declare 0 (.ofBits 12288) true .anon none, .write 0 (.ofBits 12288) #[4] (.ofBits 0),
      .declare 2 (.ofBits 12288) true .anon none, .write 2 (.ofBits 12288) #[5] (.ofBits 0)]).any
        (fun r => r.2.victims.length == 2 &&
          ((r.2.pages.find? ⟨1, ⟨1⟩⟩).map Page.frame == some none &&
          (r.2.pages.find? ⟨0, ⟨2⟩⟩).any fun page => (r.2.pages.find? ⟨2, ⟨2⟩⟩).any fun page' =>
            page.frame.isSome && (page'.frame.isSome && page.lastAccess == page'.lastAccess))) =
          true := by
    decide +kernel
  obtain ⟨⟨log, m⟩, hserved, hcheck⟩ := (Option.any_eq_true _ _).1 played
  obtain ⟨htwo, hcheck⟩ := Bool.and_eq_true_iff.1 hcheck
  obtain ⟨hout, hcheck⟩ := Bool.and_eq_true_iff.1 hcheck
  obtain ⟨page, found, hcheck⟩ := (Option.any_eq_true _ _).1 hcheck
  obtain ⟨page', found', hcheck⟩ := (Option.any_eq_true _ _).1 hcheck
  simp only [Bool.and_eq_true, beq_iff_eq] at hout hcheck
  obtain ⟨resident, resident', time⟩ := hcheck
  obtain ⟨id, hid⟩ := Option.isSome_iff_exists.1 resident
  obtain ⟨id', hid'⟩ := Option.isSome_iff_exists.1 resident'
  obtain ⟨a, b, victims⟩ := List.length_eq_two.1 (beq_iff_eq.1 htwo)
  have reaches : (Machine.fresh 4 (some 16) []).Reaches m := Machine.Reaches.refl.serve hserved
  obtain ⟨together, apart, ordered⟩ := victims_never_tied reaches
  have nodup := m.victims_nodup
  rw [victims] at nodup
  obtain ⟨hne, -⟩ := List.nodup_cons.1 nodup
  obtain ⟨founda, owneda⟩ := Machine.victims_stand (m := m) (v := a) (by rw [victims]; simp)
  obtain ⟨foundb, ownedb⟩ := Machine.victims_stand (m := m) (v := b) (by rw [victims]; simp)
  refine ⟨m, a, b, page, page', id, id', reaches, found, found', hid, hid', time,
    together _ _ _ _ _ _ found found' hid hid' time, hout, victims,
    apart _ _ _ _ _ _ _ _ owneda ownedb founda foundb fun same => hne (List.mem_singleton.2 same),
    fun sorted all aged => ?_⟩
  exact (ordered m.held _ sorted (List.reverse_perm _) all aged).trans victims

end DemandPaging
