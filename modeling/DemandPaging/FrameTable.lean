import DemandPaging.Address
import DemandPaging.Page
import DemandPaging.Table

/-!
The frame table: every physical page that carries user pages, and the pages that own it. A frame
that is given up leaves its number to the next frame that is added.
-/

namespace DemandPaging

structure Frame where
  page : PhysPage
  owners : List PageRef
deriving DecidableEq

structure FrameTable where
  entries : Table FrameId Frame
  /-- Numbers that were in use before, the last one given up first. -/
  vacant : List Nat
  /-- No number from here on was ever used. -/
  bound : Nat

namespace FrameTable

def empty : FrameTable := ⟨∅, [], 0⟩

def find? (t : FrameTable) (id : FrameId) : Option Frame := t.entries.find? id

def add (t : FrameTable) (frame : Frame) : FrameId × FrameTable :=
  match t.vacant with
  | n :: vacant => (⟨n⟩, { t with entries := t.entries.insert ⟨n⟩ frame, vacant })
  | [] => (⟨t.bound⟩, { t with entries := t.entries.insert ⟨t.bound⟩ frame, bound := t.bound + 1 })

def update (t : FrameTable) (id : FrameId) (frame : Frame) : FrameTable :=
  { t with entries := t.entries.insert id frame }

def remove (t : FrameTable) (id : FrameId) : FrameTable :=
  { t with entries := t.entries.erase id, vacant := id.index :: t.vacant }

/-- A number is vacant only while no frame has it, and only once. -/
structure WellFormed (t : FrameTable) : Prop where
  nodup : t.vacant.Nodup
  absent : ∀ n ∈ t.vacant, t.find? ⟨n⟩ = none
  vacant_lt : ∀ n ∈ t.vacant, n < t.bound
  index_lt : ∀ id frame, t.find? id = some frame → id.index < t.bound

theorem wellFormed_empty : empty.WellFormed :=
  ⟨List.nodup_nil, nofun, nofun, nofun⟩

theorem find?_update (t : FrameTable) (id id' : FrameId) (frame : Frame) :
    (t.update id frame).find? id' = if id = id' then some frame else t.find? id' :=
  Table.find?_insert t.entries id id' frame

theorem find?_update_self {t : FrameTable} {id : FrameId} {frame : Frame} :
    (t.update id frame).find? id = some frame :=
  Table.find?_insert_self

theorem find?_update_of_ne {t : FrameTable} {id id' : FrameId} {frame : Frame} (h : id' ≠ id) :
    (t.update id frame).find? id' = t.find? id' :=
  Table.find?_insert_of_ne h

theorem find?_remove (t : FrameTable) (id id' : FrameId) :
    (t.remove id).find? id' = if id = id' then none else t.find? id' :=
  Table.find?_erase t.entries id id'

theorem find?_remove_of_ne {t : FrameTable} {id id' : FrameId} (h : id' ≠ id) :
    (t.remove id).find? id' = t.find? id' :=
  Table.find?_erase_of_ne h

theorem WellFormed.update {t : FrameTable} (h : t.WellFormed) {id : FrameId} {old : Frame}
    (found : t.find? id = some old) (frame : Frame) : (t.update id frame).WellFormed := by
  refine ⟨h.nodup, fun n hn => ?_, h.vacant_lt, fun id' frame' hf => ?_⟩
  · rw [find?_update, if_neg]
    · exact h.absent n hn
    · rintro rfl
      rw [h.absent n hn] at found
      exact nomatch found
  · rw [find?_update] at hf
    split at hf
    · next he => exact he ▸ h.index_lt id old found
    · exact h.index_lt id' frame' hf

theorem WellFormed.remove {t : FrameTable} (h : t.WellFormed) {id : FrameId} {old : Frame}
    (found : t.find? id = some old) : (t.remove id).WellFormed := by
  refine ⟨List.nodup_cons.2 ⟨fun hm => ?_, h.nodup⟩, fun n hn => ?_, fun n hn => ?_,
    fun id' frame' hf => ?_⟩
  · rw [h.absent id.index hm] at found
    exact nomatch found
  · rw [find?_remove]
    split
    · rfl
    · next hne =>
        rcases List.mem_cons.1 hn with rfl | hn
        · exact (hne rfl).elim
        · exact h.absent n hn
  · rcases List.mem_cons.1 hn with rfl | hn
    · exact h.index_lt id old found
    · exact h.vacant_lt n hn
  · rw [find?_remove] at hf
    split at hf
    · exact nomatch hf
    · exact h.index_lt id' frame' hf

theorem WellFormed.add {t : FrameTable} (h : t.WellFormed) (frame : Frame) :
    (t.add frame).2.WellFormed ∧ t.find? (t.add frame).1 = none ∧
      ∀ id, (t.add frame).2.find? id = if (t.add frame).1 = id then some frame else t.find? id := by
  unfold FrameTable.add
  split
  · next n vacant hv =>
      have hn : n ∈ t.vacant := hv ▸ List.mem_cons_self
      have hsub (k : Nat) (hk : k ∈ vacant) : k ∈ t.vacant := hv ▸ List.mem_cons_of_mem n hk
      have hnd : n ∉ vacant ∧ vacant.Nodup := List.nodup_cons.1 (hv ▸ h.nodup)
      refine ⟨⟨hnd.2, fun k hk => ?_, fun k hk => h.vacant_lt k (hsub k hk), fun id frame' hf => ?_⟩,
        h.absent n hn, fun id => Table.find?_insert t.entries _ id frame⟩
      · refine (Table.find?_insert t.entries _ _ frame).trans ?_
        rw [if_neg fun he => hnd.1 (by cases he; exact hk)]
        exact h.absent k (hsub k hk)
      · have hf' := (Table.find?_insert t.entries _ id frame).symm.trans hf
        split at hf'
        · next he => exact he ▸ h.vacant_lt n hn
        · exact h.index_lt id frame' hf'
  · have hnew : t.find? ⟨t.bound⟩ = none := by
      cases hf : t.find? ⟨t.bound⟩ with
      | none => rfl
      | some old => exact (Nat.lt_irrefl _ (h.index_lt _ old hf)).elim
    refine ⟨⟨h.nodup, fun k hk => ?_, fun k hk => Nat.lt_succ_of_lt (h.vacant_lt k hk),
      fun id frame' hf => ?_⟩, hnew, fun id => Table.find?_insert t.entries _ id frame⟩
    · refine (Table.find?_insert t.entries _ _ frame).trans ?_
      rw [if_neg fun he => Nat.lt_irrefl t.bound (by cases he; exact h.vacant_lt _ hk)]
      exact h.absent k hk
    · have hf' := (Table.find?_insert t.entries _ id frame).symm.trans hf
      split at hf'
      · next he => exact he ▸ Nat.lt_succ_self _
      · exact Nat.lt_succ_of_lt (h.index_lt id frame' hf')

def resident (t : FrameTable) : Nat := t.entries.size

def shared (t : FrameTable) : Nat :=
  t.entries.rows.countP fun row => 1 < row.2.owners.length

end FrameTable

end DemandPaging
