import DemandPaging.Proofs.Contents

/-!
What the pager finds around it: page tables that may refuse entries, files, and programs that fill
pages. Page tables stay as they are, and a program changes only in how often it was run.
-/

namespace DemandPaging

namespace Core

variable {c c' c₁ : Core} {deeds : List Deed} {ref : PageRef} {id : FrameId} {frame : Frame}

theorem disown_apart (c : Core) (id : FrameId) (frame : Frame) (ref : PageRef) :
    (c.disown id frame ref).grants = c.grants ∧ (c.disown id frame ref).programs = c.programs ∧
      (c.disown id frame ref).regions = c.regions ∧ (c.disown id frame ref).files = c.files := by
  unfold disown
  split <;> exact ⟨rfl, rfl, rfl, rfl⟩

theorem Step.grants (h : Step c deeds c') : c'.grants = c.grants := by
  cases h with
  | evict _ _ saved =>
      obtain ⟨swap, files, rfl⟩ := saved.core_eq
      rfl
  | fill _ _ _ filled =>
      obtain ⟨swap, programs, rfl, -⟩ := filled.core_eq
      rfl
  | fail _ _ _ _ made =>
      obtain ⟨programs, rfl, -⟩ := made.core_eq
      rfl
  | copy => exact (disown_apart _ _ _ _).1
  | lose => exact (disown_apart _ _ _ _).1
  | shareHalf _ _ _ _ _ _ mapped => rcases mapped with rfl | rfl <;> rfl
  | dropAway _ _ disposed =>
      obtain ⟨swap, files, rfl⟩ := disposed.core_eq
      rfl
  | drop _ _ _ disposed =>
      obtain ⟨swap, files, rfl⟩ := disposed.core_eq
      exact (disown_apart _ _ _ _).1
  | _ => rfl

theorem Steps.grants (h : Steps c deeds c') : c'.grants = c.grants := by
  induction h with
  | refl => rfl
  | tail _ step ih => rw [step.grants, ih]

theorem Step.regions (h : Step c deeds c') (hd : ∀ t, .chart t ∉ deeds) : c'.regions = c.regions := by
  cases h with
  | chart t => exact (hd t List.mem_cons_self).elim
  | evict _ _ saved =>
      obtain ⟨swap, files, rfl⟩ := saved.core_eq
      rfl
  | fill _ _ _ filled =>
      obtain ⟨swap, programs, rfl, -⟩ := filled.core_eq
      rfl
  | fail _ _ _ _ made =>
      obtain ⟨programs, rfl, -⟩ := made.core_eq
      rfl
  | copy => exact (disown_apart _ _ _ _).2.2.1
  | lose => exact (disown_apart _ _ _ _).2.2.1
  | shareHalf _ _ _ _ _ _ mapped => rcases mapped with rfl | rfl <;> rfl
  | dropAway _ _ disposed =>
      obtain ⟨swap, files, rfl⟩ := disposed.core_eq
      rfl
  | drop _ _ _ disposed =>
      obtain ⟨swap, files, rfl⟩ := disposed.core_eq
      exact (disown_apart _ _ _ _).2.2.1
  | _ => rfl

theorem Steps.regions (h : Steps c deeds c') (hd : ∀ t, .chart t ∉ deeds) :
    c'.regions = c.regions := by
  induction h with
  | refl => rfl
  | tail _ step ih =>
      rw [step.regions fun t ht => hd t (List.mem_append_right _ ht),
        ih fun t ht => hd t (List.mem_append_left _ ht)]

/-- No page table refuses an entry. -/
def Calm (c : Core) : Prop := ∀ s k, c.grants s k = true

theorem Steps.calm (h : Steps c deeds c') (hc : c.Calm) : c'.Calm := by
  intro s k
  rw [h.grants]
  exact hc s k

/-- Nothing is lost and no sharing is left half done. -/
def Whole (deeds : List Deed) : Prop :=
  (∀ ref, .lose ref ∉ deeds) ∧ ∀ src dst whole, .share src dst whole ∈ deeds → whole = true

theorem Step.whole (h : Step c deeds c') (hc : c.Calm) : Whole deeds := by
  cases h with
  | @fill _ _ page _ _ _ _ _ _ _ _ filled =>
      generalize page.kind = old at filled
      cases filled <;> exact ⟨fun r hm => by simp at hm, fun s d w hm => by simp at hm⟩
  | lose _ _ _ _ _ refused =>
      rw [hc] at refused
      exact nomatch refused
  | shareHalf _ _ _ _ _ refused =>
      rw [hc] at refused
      exact nomatch refused
  | share => exact ⟨fun r hm => by simp at hm, fun s d w hm => by simp at hm; exact hm.2.2⟩
  | _ => exact ⟨fun r hm => by simp at hm, fun s d w hm => by simp at hm⟩

theorem Steps.whole (h : Steps c deeds c') (hc : c.Calm) : Whole deeds := by
  induction h with
  | refl => exact ⟨nofun, nofun⟩
  | tail run step ih =>
      obtain ⟨hlose, hshare⟩ := ih
      obtain ⟨hlose', hshare'⟩ := step.whole (run.calm hc)
      refine ⟨fun r hm => ?_, fun src dst whole hm => ?_⟩
      · exact (List.mem_append.1 hm).elim (hlose r) (hlose' r)
      · exact (List.mem_append.1 hm).elim (hshare src dst whole) (hshare' src dst whole)

theorem Steps.guarded_of_calm (h : Steps c deeds c') (hs : c.Sound) (hc : c.Calm)
    (hg : c.Guarded fun _ => False) : c'.Guarded fun _ => False := by
  refine h.guarded hs (fun src dst whole hm => ⟨id, fun hw => ?_⟩) hg
  rw [(h.whole hc).2 src dst whole hm] at hw
  exact nomatch hw

/-- The program of a number stays the same, however often it is run. -/
def Keeps (routine : Option Routine) (run : Nat → PageBytes → PageBytes × Bool) : Prop :=
  ∃ calls, routine = some ⟨run, calls⟩

variable {program : ProgramId} {run : Nat → PageBytes → PageBytes × Bool}

theorem Produces.keeps {page : PageBytes} {init : Initializer} {r : PageBytes × Bool}
    (h : c.Produces page init r c₁) (hk : Keeps (c.programs program) run) :
    Keeps (c₁.programs program) run := by
  cases h with
  | @program i routine found =>
      by_cases hi : program = i
      · subst hi
        obtain ⟨calls, hcalls⟩ := hk
        rw [found] at hcalls
        cases hcalls
        exact ⟨calls + 1, Function.update_self _ _ _⟩
      · obtain ⟨calls, hcalls⟩ := hk
        exact ⟨calls, (Function.update_of_ne hi _ _).trans hcalls⟩
  | _ => exact hk

theorem Fills.keeps {bytes bytes' : PageBytes} {kind kind' : PageKind}
    (h : c.Fills ref bytes kind kind' bytes' c₁ deeds) (hk : Keeps (c.programs program) run) :
    Keeps (c₁.programs program) run := by
  cases h with
  | made made => exact made.keeps hk
  | _ => exact hk

theorem Step.keeps (h : Step c deeds c') (hs : c.Sound) (hk : Keeps (c.programs program) run) :
    Keeps (c'.programs program) run := by
  cases h with
  | learn =>
      obtain ⟨calls, hcalls⟩ := hk
      have hne : program ≠ c.programCount := by
        rintro rfl
        rw [hs.programs _ (Nat.le_refl _)] at hcalls
        exact nomatch hcalls
      exact ⟨calls, (Function.update_of_ne hne _ _).trans hcalls⟩
  | evict _ _ saved =>
      obtain ⟨swap, files, rfl⟩ := saved.core_eq
      exact hk
  | fill _ _ _ filled => exact filled.keeps hk
  | fail _ _ _ _ made => exact made.keeps hk
  | copy => exact (congrFun (disown_apart _ _ _ _).2.1 program).symm ▸ hk
  | lose => exact (congrFun (disown_apart _ _ _ _).2.1 program).symm ▸ hk
  | shareHalf _ _ _ _ _ _ mapped => rcases mapped with rfl | rfl <;> exact hk
  | dropAway _ _ disposed =>
      obtain ⟨swap, files, rfl⟩ := disposed.core_eq
      exact hk
  | drop _ _ _ disposed =>
      obtain ⟨swap, files, rfl⟩ := disposed.core_eq
      exact (congrFun (disown_apart _ _ _ _).2.1 program).symm ▸ hk
  | _ => exact hk

theorem Steps.keeps (h : Steps c deeds c') (hs : c.Sound) (hk : Keeps (c.programs program) run) :
    Keeps (c'.programs program) run := by
  induction h with
  | refl => exact hk
  | tail run step ih => exact step.keeps (run.sound hs) ih

end Core

end DemandPaging
