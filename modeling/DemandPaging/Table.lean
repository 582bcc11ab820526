/-!
Finite tables: a list of rows with distinct keys, kept in the order in which the keys first came.
`find?_insert` and `find?_erase` say what the two updates do to a look-up.
-/

namespace DemandPaging

structure Table (κ α : Type) where
  rows : List (κ × α)
  nodup : (rows.map Prod.fst).Nodup

namespace Table

variable {κ α β : Type}

def empty : Table κ α := ⟨[], List.nodup_nil⟩

instance : EmptyCollection (Table κ α) := ⟨empty⟩

instance : Inhabited (Table κ α) := ⟨empty⟩

def keys (t : Table κ α) : List κ := t.rows.map Prod.fst

def size (t : Table κ α) : Nat := t.rows.length

theorem nodup_keys (t : Table κ α) : t.keys.Nodup := t.nodup

theorem ext_rows {t u : Table κ α} (h : t.rows = u.rows) : t = u := by
  obtain ⟨rows, nodup⟩ := t
  obtain ⟨rows', nodup'⟩ := u
  cases h
  rfl

def filterKeys (t : Table κ α) (p : κ → Bool) : Table κ α :=
  ⟨t.rows.filter fun row => p row.1, t.nodup.sublist (List.filter_sublist.map Prod.fst)⟩

variable [DecidableEq κ]

def findRow? (k : κ) : List (κ × α) → Option α
  | [] => none
  | (k', a) :: rest => if k' = k then some a else findRow? k rest

def setRow (k : κ) (a : α) : List (κ × α) → List (κ × α)
  | [] => [(k, a)]
  | (k', b) :: rest => if k' = k then (k, a) :: rest else (k', b) :: setRow k a rest

def dropRow (k : κ) : List (κ × α) → List (κ × α)
  | [] => []
  | (k', a) :: rest => if k' = k then rest else (k', a) :: dropRow k rest

theorem mem_keys_setRow {k k' : κ} {a : α} {rows : List (κ × α)} :
    k' ∈ (setRow k a rows).map Prod.fst ↔ k' = k ∨ k' ∈ rows.map Prod.fst := by
  induction rows with
  | nil => simp [setRow]
  | cons row rest ih =>
      obtain ⟨j, b⟩ := row
      by_cases h : j = k
      · subst h
        simp [setRow]
      · simp only [setRow, if_neg h, List.map_cons, List.mem_cons, ih]
        exact or_left_comm

theorem nodup_setRow {k : κ} {a : α} {rows : List (κ × α)} (h : (rows.map Prod.fst).Nodup) :
    ((setRow k a rows).map Prod.fst).Nodup := by
  induction rows with
  | nil => simp [setRow]
  | cons row rest ih =>
      obtain ⟨j, b⟩ := row
      simp only [List.map_cons, List.nodup_cons] at h
      by_cases hj : j = k
      · subst hj
        simpa [setRow] using h
      · simp only [setRow, if_neg hj, List.map_cons, List.nodup_cons, mem_keys_setRow, not_or]
        exact ⟨⟨hj, h.1⟩, ih h.2⟩

theorem dropRow_sublist (k : κ) (rows : List (κ × α)) : (dropRow k rows).Sublist rows := by
  induction rows with
  | nil => exact List.Sublist.refl _
  | cons row rest ih =>
      obtain ⟨j, b⟩ := row
      by_cases hj : j = k
      · simp [dropRow, hj]
      · simpa [dropRow, hj] using ih

theorem nodup_dropRow {k : κ} {rows : List (κ × α)} (h : (rows.map Prod.fst).Nodup) :
    ((dropRow k rows).map Prod.fst).Nodup :=
  h.sublist ((dropRow_sublist k rows).map Prod.fst)

def find? (t : Table κ α) (k : κ) : Option α := findRow? k t.rows

def contains (t : Table κ α) (k : κ) : Bool := (t.find? k).isSome

/-- Sets the value at a key; a key that is already there keeps its place. -/
def insert (t : Table κ α) (k : κ) (a : α) : Table κ α :=
  ⟨setRow k a t.rows, nodup_setRow t.nodup⟩

def erase (t : Table κ α) (k : κ) : Table κ α :=
  ⟨dropRow k t.rows, nodup_dropRow t.nodup⟩

def modify (t : Table κ α) (k : κ) (f : α → α) : Table κ α :=
  match t.find? k with
  | some a => t.insert k (f a)
  | none => t

@[simp] theorem find?_empty (k : κ) : (∅ : Table κ α).find? k = none := rfl

theorem findRow?_setRow (k k' : κ) (a : α) (rows : List (κ × α)) :
    findRow? k' (setRow k a rows) = if k = k' then some a else findRow? k' rows := by
  induction rows with
  | nil => simp [setRow, findRow?]
  | cons row rest ih =>
      obtain ⟨j, b⟩ := row
      by_cases hj : j = k
      · subst hj
        by_cases h : j = k' <;> simp [setRow, findRow?, h]
      · by_cases h : j = k'
        · subst h
          simp [setRow, findRow?, hj, Ne.symm hj]
        · simp [setRow, findRow?, hj, h, ih]

theorem findRow?_eq_none {k : κ} {rows : List (κ × α)} :
    findRow? k rows = none ↔ k ∉ rows.map Prod.fst := by
  induction rows with
  | nil => simp [findRow?]
  | cons row rest ih =>
      obtain ⟨j, b⟩ := row
      by_cases hj : j = k
      · simp [findRow?, hj]
      · simp [findRow?, hj, ih, Ne.symm hj]

theorem findRow?_dropRow {k k' : κ} {rows : List (κ × α)} (h : (rows.map Prod.fst).Nodup) :
    findRow? k' (dropRow k rows) = if k = k' then none else findRow? k' rows := by
  induction rows with
  | nil => simp [dropRow, findRow?]
  | cons row rest ih =>
      obtain ⟨j, b⟩ := row
      simp only [List.map_cons, List.nodup_cons] at h
      by_cases hj : j = k
      · subst hj
        by_cases hk : j = k'
        · subst hk
          simpa [dropRow] using findRow?_eq_none.2 h.1
        · simp [dropRow, findRow?, hk]
      · by_cases hk : j = k'
        · subst hk
          simp [dropRow, findRow?, hj, Ne.symm hj]
        · simp [dropRow, findRow?, hj, hk, ih h.2]

theorem find?_insert (t : Table κ α) (k k' : κ) (a : α) :
    (t.insert k a).find? k' = if k = k' then some a else t.find? k' :=
  findRow?_setRow k k' a t.rows

theorem find?_insert_self {t : Table κ α} {k : κ} {a : α} : (t.insert k a).find? k = some a :=
  (find?_insert t k k a).trans (if_pos rfl)

theorem find?_insert_of_ne {t : Table κ α} {k k' : κ} {a : α} (h : k' ≠ k) :
    (t.insert k a).find? k' = t.find? k' :=
  (find?_insert t k k' a).trans (if_neg (Ne.symm h))

theorem find?_erase (t : Table κ α) (k k' : κ) :
    (t.erase k).find? k' = if k = k' then none else t.find? k' :=
  findRow?_dropRow t.nodup

theorem find?_erase_self {t : Table κ α} {k : κ} : (t.erase k).find? k = none :=
  (find?_erase t k k).trans (if_pos rfl)

theorem find?_erase_of_ne {t : Table κ α} {k k' : κ} (h : k' ≠ k) :
    (t.erase k).find? k' = t.find? k' :=
  (find?_erase t k k').trans (if_neg (Ne.symm h))

theorem find?_insert_eq_some {t : Table κ α} {k k' : κ} {a b : α} :
    (t.insert k a).find? k' = some b ↔ (k' = k ∧ b = a) ∨ (k' ≠ k ∧ t.find? k' = some b) := by
  rw [find?_insert]
  split
  · next h => simp [h, eq_comm]
  · next h => simp [Ne.symm h]

theorem find?_erase_eq_some {t : Table κ α} {k k' : κ} {b : α} :
    (t.erase k).find? k' = some b ↔ k' ≠ k ∧ t.find? k' = some b := by
  rw [find?_erase]
  split
  · next h => simp [h]
  · next h => simp [Ne.symm h]

theorem find?_modify (t : Table κ α) (k k' : κ) (f : α → α) :
    (t.modify k f).find? k' = if k = k' then (t.find? k').map f else t.find? k' := by
  unfold modify
  split
  · next a h =>
      rw [find?_insert]
      split
      · next hk => subst hk; simp [h]
      · rfl
  · next h =>
      split
      · next hk => subst hk; simp [h]
      · rfl

theorem find?_modify_of_ne {t : Table κ α} {k k' : κ} {f : α → α} (h : k' ≠ k) :
    (t.modify k f).find? k' = t.find? k' :=
  (find?_modify t k k' f).trans (if_neg (Ne.symm h))

theorem mem_keys {t : Table κ α} {k : κ} : k ∈ t.keys ↔ (t.find? k).isSome := by
  cases h : t.find? k with
  | none => simpa [keys] using findRow?_eq_none.1 h
  | some a =>
      simp only [Option.isSome_some, iff_true]
      refine Decidable.byContradiction fun hk => ?_
      have hn : t.find? k = none := findRow?_eq_none.2 hk
      simp [hn] at h

theorem find?_filterKeys (t : Table κ α) (p : κ → Bool) (k : κ) :
    (t.filterKeys p).find? k = if p k then t.find? k else none := by
  obtain ⟨rows, h⟩ := t
  simp only [find?, filterKeys]
  clear h
  induction rows with
  | nil => simp [findRow?]
  | cons row rest ih =>
      obtain ⟨j, b⟩ := row
      by_cases hj : j = k
      · subst hj
        cases hp : p j <;> simp_all [findRow?]
      · cases hp : p j <;> simp [findRow?, hp, hj, ih]

theorem findRow?_eq_some {k : κ} {a : α} {rows : List (κ × α)} (h : (rows.map Prod.fst).Nodup) :
    findRow? k rows = some a ↔ (k, a) ∈ rows := by
  induction rows with
  | nil => simp [findRow?]
  | cons row rest ih =>
      obtain ⟨j, b⟩ := row
      simp only [List.map_cons, List.nodup_cons] at h
      by_cases hj : j = k
      · subst hj
        have hn : (j, a) ∉ rest := fun hm => h.1 (List.mem_map_of_mem hm)
        simp [findRow?, hn, eq_comm]
      · simp [findRow?, hj, ih h.2, Ne.symm hj]

theorem find?_eq_some {t : Table κ α} {k : κ} {a : α} : t.find? k = some a ↔ (k, a) ∈ t.rows :=
  findRow?_eq_some t.nodup

theorem dropRow_setRow (k : κ) (a : α) (rows : List (κ × α)) :
    dropRow k (setRow k a rows) = dropRow k rows := by
  induction rows with
  | nil => simp [setRow, dropRow]
  | cons row rest ih =>
      obtain ⟨j, b⟩ := row
      by_cases h : j = k
      · simp [setRow, dropRow, h]
      · simp [setRow, dropRow, h, ih]

theorem setRow_setRow (k : κ) (a b : α) (rows : List (κ × α)) :
    setRow k b (setRow k a rows) = setRow k b rows := by
  induction rows with
  | nil => simp [setRow]
  | cons row rest ih =>
      obtain ⟨j, d⟩ := row
      by_cases h : j = k
      · simp [setRow, h]
      · simp [setRow, h, ih]

theorem length_setRow (k : κ) (a : α) (rows : List (κ × α)) :
    (setRow k a rows).length =
      if k ∈ rows.map Prod.fst then rows.length else rows.length + 1 := by
  induction rows with
  | nil => simp [setRow]
  | cons row rest ih =>
      obtain ⟨j, b⟩ := row
      by_cases h : j = k
      · simp [setRow, h]
      · simp only [setRow, if_neg h, List.length_cons, ih, List.map_cons, List.mem_cons,
          Ne.symm h, false_or]
        split <;> rfl

theorem erase_insert (t : Table κ α) (k : κ) (a : α) : (t.insert k a).erase k = t.erase k :=
  ext_rows (dropRow_setRow k a t.rows)

theorem insert_insert (t : Table κ α) (k : κ) (a b : α) :
    (t.insert k a).insert k b = t.insert k b :=
  ext_rows (setRow_setRow k a b t.rows)

theorem erase_modify (t : Table κ α) (k : κ) (f : α → α) : (t.modify k f).erase k = t.erase k := by
  unfold modify
  split
  · exact erase_insert t k _
  · rfl

theorem insert_modify (t : Table κ α) (k : κ) (a : α) (f : α → α) :
    (t.insert k a).modify k f = t.insert k (f a) := by
  have h : (t.insert k a).find? k = some a := by rw [find?_insert, if_pos rfl]
  unfold modify
  rw [h]
  exact insert_insert t k a (f a)

theorem size_insert_of_mem {t : Table κ α} {k : κ} (a : α) (h : k ∈ t.keys) :
    (t.insert k a).size = t.size := by
  simp only [size, insert, length_setRow]
  exact if_pos h

theorem size_insert_of_not_mem {t : Table κ α} {k : κ} (a : α) (h : k ∉ t.keys) :
    (t.insert k a).size = t.size + 1 := by
  simp only [size, insert, length_setRow]
  exact if_neg h

end Table

end DemandPaging
