import DemandPaging.Address

/-!
The pool of free physical pages. In which order they are handed out is the allocator's affair; all that
is asked of it is that it keeps count.
-/

namespace DemandPaging

/-- An allocator of physical pages. What it keeps are lists of pages, which it may read as it likes. -/
structure Allocator where
  ofSize : (n : Nat) → List (List PhysPage)
  take? : List (List PhysPage) → Option (PhysPage × List (List PhysPage))
  give : List (List PhysPage) → PhysPage → List (List PhysPage)
  free : List (List PhysPage) → Nat
  count : List (List PhysPage) → PhysPage → Nat
  Valid : List (List PhysPage) → Prop
  valid_ofSize : ∀ n, Valid (ofSize n)
  valid_take : ∀ {kept rest page}, Valid kept → take? kept = some (page, rest) → Valid rest
  valid_give : ∀ {kept} page, Valid kept → Valid (give kept page)
  take?_isSome : ∀ {kept}, Valid kept → ((take? kept).isSome ↔ 0 < free kept)
  free_ofSize : ∀ n, free (ofSize n) = n
  free_take : ∀ {kept rest page}, Valid kept → take? kept = some (page, rest) →
    free kept = free rest + 1
  free_give : ∀ {kept} page, Valid kept → free (give kept page) = free kept + 1
  count_ofSize : ∀ n p, count (ofSize n) p = if p < n then 1 else 0
  count_take : ∀ {kept rest page}, Valid kept → take? kept = some (page, rest) →
    ∀ p, count kept p = count rest p + if page = p then 1 else 0
  count_give : ∀ {kept} page, Valid kept →
    ∀ p, count (give kept page) p = count kept p + if page = p then 1 else 0
  count_le_free : ∀ {kept}, Valid kept → ∀ p, count kept p ≤ free kept

structure Pool where
  allocator : Allocator
  kept : List (List PhysPage)
  valid : allocator.Valid kept

namespace Pool

variable {pool rest : Pool} {page : PhysPage}

def ofSize (allocator : Allocator) (n : Nat) : Pool :=
  ⟨allocator, allocator.ofSize n, allocator.valid_ofSize n⟩

def take? (pool : Pool) : Option (PhysPage × Pool) :=
  match h : pool.allocator.take? pool.kept with
  | some (page, kept) => some (page, ⟨pool.allocator, kept, pool.allocator.valid_take pool.valid h⟩)
  | none => none

def give (pool : Pool) (page : PhysPage) : Pool :=
  ⟨pool.allocator, pool.allocator.give pool.kept page, pool.allocator.valid_give page pool.valid⟩

def free (pool : Pool) : Nat := pool.allocator.free pool.kept

def count (pool : Pool) (page : PhysPage) : Nat := pool.allocator.count pool.kept page

theorem take?_eq_some (h : pool.take? = some (page, rest)) :
    pool.allocator.take? pool.kept = some (page, rest.kept) ∧ rest.allocator = pool.allocator := by
  unfold take? at h
  split at h
  · next taken =>
      cases h
      exact ⟨taken, rfl⟩
  · exact nomatch h

theorem take?_isSome (pool : Pool) : pool.take?.isSome ↔ 0 < pool.free := by
  rw [free, ← pool.allocator.take?_isSome pool.valid, take?]
  split
  · next taken => exact iff_of_true rfl (Option.isSome_iff_exists.2 ⟨_, taken⟩)
  · next refused => exact iff_of_false nofun fun some => nomatch refused ▸ some

theorem free_take (h : pool.take? = some (page, rest)) : pool.free = rest.free + 1 := by
  obtain ⟨taken, same⟩ := take?_eq_some h
  rw [free, free, same]
  exact pool.allocator.free_take pool.valid taken

theorem count_take (h : pool.take? = some (page, rest)) (p : PhysPage) :
    pool.count p = rest.count p + if page = p then 1 else 0 := by
  obtain ⟨taken, same⟩ := take?_eq_some h
  rw [count, count, same]
  exact pool.allocator.count_take pool.valid taken p

theorem free_give (pool : Pool) (page : PhysPage) : (pool.give page).free = pool.free + 1 :=
  pool.allocator.free_give page pool.valid

theorem count_give (pool : Pool) (page p : PhysPage) :
    (pool.give page).count p = pool.count p + if page = p then 1 else 0 :=
  pool.allocator.count_give page pool.valid p

theorem free_ofSize (allocator : Allocator) (n : Nat) : (ofSize allocator n).free = n :=
  allocator.free_ofSize n

theorem count_ofSize (allocator : Allocator) (n : Nat) (p : PhysPage) :
    (ofSize allocator n).count p = if p < n then 1 else 0 :=
  allocator.count_ofSize n p

theorem free_none (h : pool.take? = none) : pool.free = 0 := by
  refine Nat.eq_zero_of_not_pos fun hpos => ?_
  rw [← take?_isSome, h] at hpos
  exact nomatch hpos

theorem count_none (h : pool.take? = none) (p : PhysPage) : pool.count p = 0 :=
  Nat.le_zero.1 (free_none h ▸ pool.allocator.count_le_free pool.valid p)

end Pool

end DemandPaging
