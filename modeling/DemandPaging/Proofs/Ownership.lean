import DemandPaging.Proofs.Step

/-!
Pages and frames refer to each other. The lemmas follow the moves from which every step is put
together: a page comes, changes or goes without a frame, takes a frame, shares it, or leaves it.
-/

namespace DemandPaging

open Function (update)

structure Owned (pages : PageRef → Option Page) (frames : FrameId → Option Frame) : Prop where
  home : ∀ ref page, pages ref = some page → page.table = ref.space
  nodup : ∀ id frame, frames id = some frame → frame.owners.Nodup
  frame_of : ∀ ref page id, pages ref = some page → page.frame = some id →
    ∃ frame, frames id = some frame ∧ ref ∈ frame.owners
  page_of : ∀ id frame ref, frames id = some frame → ref ∈ frame.owners →
    ∃ page, pages ref = some page ∧ page.frame = some id
  sole : ∀ ref page id frame, pages ref = some page → page.frame = some id → page.cow = false →
    frames id = some frame → frame.owners = [ref]
  unused : ∀ ref page, pages ref = some page → page.kind.isUninit = true → page.frame = none

def Mapped (pages : PageRef → Option Page) (frames : FrameId → Option Frame)
    (mappings : PageRef → Option Mapping) : Prop :=
  ∀ ref entry, mappings ref = some entry → ∃ page id frame, pages ref = some page ∧
    page.frame = some id ∧ frames id = some frame ∧ frame.page = entry.page ∧
      (entry.writable = true → page.writable = true)

variable {pages : PageRef → Option Page} {frames : FrameId → Option Frame}
  {mappings : PageRef → Option Mapping} {ref dst : PageRef} {page page' : Page} {id : FrameId}
  {frame : Frame} {phys : PhysPage}

namespace Owned

theorem replace (h : Owned pages frames) (found : pages ref = some page)
    (table : page'.table = page.table) (same : page'.frame = page.frame)
    (used : page'.kind.isUninit = true → page'.frame = none)
    (cow : ∀ id frame, page.frame = some id → frames id = some frame → page'.cow = false →
      frame.owners = [ref]) : Owned (update pages ref (some page')) frames := by
  constructor <;> grind [Owned, Function.update_apply]

theorem away (h : Owned pages frames) (old : ∀ page, pages ref = some page → page.frame = none)
    {new : Option Page}
    (hnew : ∀ page', new = some page' → page'.table = ref.space ∧ page'.frame = none) :
    Owned (update pages ref new) frames := by
  constructor <;> grind [Owned, Function.update_apply]

theorem acquire (h : Owned pages frames) (fresh : frames id = none) :
    Owned pages (update frames id (some ⟨phys, []⟩)) := by
  constructor <;> grind [Owned, Function.update_apply]

theorem giveBack (h : Owned pages frames) (free : frames id = some ⟨phys, []⟩) :
    Owned pages (update frames id none) := by
  constructor <;> grind [Owned, Function.update_apply]

theorem unowned (h : Owned pages frames) (free : frames id = some ⟨phys, []⟩) :
    ∀ r page, pages r = some page → page.frame ≠ some id := by
  intro r p hp hid
  obtain ⟨f, hf, hr⟩ := h.frame_of r p id hp hid
  rw [free] at hf
  cases hf
  exact nomatch hr

theorem attach (h : Owned pages frames) (found : pages ref = some page) (away : page.frame = none)
    (free : frames id = some ⟨phys, []⟩) (table : page'.table = page.table)
    (resident : page'.frame = some id) (used : page'.kind.isUninit = false) :
    Owned (update pages ref (some page')) (update frames id (some ⟨phys, [ref]⟩)) := by
  constructor <;> grind [Owned, Function.update_apply]

theorem detach (h : Owned pages frames) (found : pages ref = some page)
    (resident : page.frame = some id) (owned : frames id = some frame) {new : Option Page}
    (hnew : ∀ page', new = some page' → page'.table = ref.space ∧ page'.frame = none)
    {left : Option Frame}
    (hleft : left = some { frame with owners := frame.owners.filter (· ≠ ref) } ∨
      left = none ∧ (frame.owners.filter (· ≠ ref)).isEmpty = true) :
    Owned (update pages ref new) (update frames id left) := by
  have hmem (r : PageRef) : r ∈ frame.owners.filter (· ≠ ref) ↔ r ∈ frame.owners ∧ r ≠ ref := by
    rw [List.mem_filter, decide_eq_true_iff]
  have hnodup : (frame.owners.filter (· ≠ ref)).Nodup := (h.nodup id frame owned).filter _
  have hempty : (frame.owners.filter (· ≠ ref)).isEmpty = true → ∀ r ∈ frame.owners, r = ref := by
    intro he r hr
    by_contra hne
    exact List.ne_nil_of_mem ((hmem r).2 ⟨hr, hne⟩) (List.isEmpty_iff.1 he)
  generalize frame.owners.filter (· ≠ ref) = left' at *
  constructor <;> grind [Owned, Function.update_apply]

theorem share (h : Owned pages frames) (found : pages ref = some page)
    (resident : page.frame = some id) (owned : frames id = some frame) (vacant : pages dst = none)
    (table : page'.table = dst.space) (same : page'.frame = some id) (cow : page'.cow = true)
    (used : page'.kind.isUninit = false) :
    Owned (update (update pages dst (some page')) ref (some { page with cow := true }))
      (update frames id (some { frame with owners := frame.owners ++ [dst] })) := by
  have hout : dst ∉ frame.owners := by
    intro hm
    obtain ⟨p, hp, -⟩ := h.page_of id frame dst owned hm
    rw [vacant] at hp
    exact nomatch hp
  have hnodup : (frame.owners ++ [dst]).Nodup :=
    List.nodup_append.2 ⟨h.nodup id frame owned, by simp, by grind⟩
  constructor <;> grind [Owned, Function.update_apply]

end Owned

namespace Mapped

theorem replace (h : Mapped pages frames mappings) (found : pages ref = some page)
    (same : page'.frame = page.frame) (writable : page'.writable = page.writable) :
    Mapped (update pages ref (some page')) frames mappings := by
  intro r entry he
  obtain ⟨p, id, f, hp, hid, hf, hphys, hw⟩ := h r entry he
  grind [Function.update_apply]

theorem away (h : Mapped pages frames mappings)
    (old : ∀ page, pages ref = some page → page.frame = none) {new : Option Page} :
    Mapped (update pages ref new) frames mappings := by
  intro r entry he
  obtain ⟨p, id, f, hp, hid, hf, hphys, hw⟩ := h r entry he
  grind [Function.update_apply]

theorem setFrame (h : Mapped pages frames mappings) {new : Option Frame}
    (old : ∀ r page, pages r = some page → page.frame ≠ some id) :
    Mapped pages (update frames id new) mappings := by
  intro r entry he
  obtain ⟨p, i, f, hp, hid, hf, hphys, hw⟩ := h r entry he
  grind [Function.update_apply]

theorem owners (h : Mapped pages frames mappings) (found : frames id = some frame)
    (owners : List PageRef) :
    Mapped pages (update frames id (some { frame with owners })) mappings := by
  intro r entry he
  obtain ⟨p, i, f, hp, hid, hf, hphys, hw⟩ := h r entry he
  grind [Function.update_apply]

theorem detach (h : Mapped pages frames mappings) (ho : Owned pages frames)
    (owned : frames id = some frame) {new : Option Page} {left : Option Frame}
    (hleft : left = some { frame with owners := frame.owners.filter (· ≠ ref) } ∨
      left = none ∧ (frame.owners.filter (· ≠ ref)).isEmpty = true) :
    Mapped (update pages ref new) (update frames id left) (update mappings ref none) := by
  have hempty : (frame.owners.filter (· ≠ ref)).isEmpty = true → ∀ r ∈ frame.owners, r = ref := by
    simp
  generalize frame.owners.filter (· ≠ ref) = left' at *
  intro r entry he
  by_cases hr : r = ref
  · rw [hr, Function.update_self] at he
    exact nomatch he
  · rw [Function.update_of_ne hr] at he
    obtain ⟨p, i, f, hp, hid, hf, hphys, hw⟩ := h r entry he
    have hown := ho.frame_of r p i hp hid
    grind [Function.update_apply]

theorem map (h : Mapped pages frames mappings) (found : pages ref = some page)
    (resident : page.frame = some id) (owned : frames id = some frame) {writable dirty : Bool}
    (allowed : writable = true → page.writable = true) :
    Mapped pages frames (update mappings ref (some ⟨frame.page, writable, dirty⟩)) := by
  intro r entry he
  grind [Mapped, Function.update_apply]

theorem attach (h : Mapped pages frames mappings)
    (free : ∀ r page, pages r = some page → page.frame ≠ some id)
    (resident : page'.frame = some id) (owners : List PageRef) {writable dirty : Bool}
    (allowed : writable = true → page'.writable = true) :
    Mapped (update pages ref (some page')) (update frames id (some ⟨phys, owners⟩))
      (update mappings ref (some ⟨phys, writable, dirty⟩)) := by
  intro r entry he
  by_cases hr : r = ref
  · subst hr
    rw [Function.update_self] at he
    cases he
    exact ⟨page', id, _, Function.update_self _ _ _, resident, Function.update_self _ _ _, rfl,
      allowed⟩
  · rw [Function.update_of_ne hr] at he
    obtain ⟨p, i, f, hp, hid, hf, hphys, hw⟩ := h r entry he
    have hi : i ≠ id := by
      rintro rfl
      exact free r p hp hid
    exact ⟨p, i, f, (Function.update_of_ne hr _ _).trans hp, hid,
      (Function.update_of_ne hi _ _).trans hf, hphys, hw⟩

theorem unmap (h : Mapped pages frames mappings) :
    Mapped pages frames (update mappings ref none) := by
  intro r entry he
  grind [Mapped, Function.update_apply]

end Mapped

end DemandPaging
