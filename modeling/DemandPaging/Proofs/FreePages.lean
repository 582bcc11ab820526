import DemandPaging.Memory.Pool
import Mathlib.Data.List.Nodup
import Mathlib.Data.List.Perm.Subperm

namespace DemandPaging.Pool

def handsOut (pool : Pool) : List PhysPage :=
  match _h : pool.take? with
  | some (b, rest) => b :: rest.handsOut
  | none => []
termination_by pool.free
decreasing_by
  have hfree := free_take _h
  omega

theorem handsOut_some {pool rest : Pool} {b : PhysPage} (h : pool.take? = some (b, rest)) :
    pool.handsOut = b :: rest.handsOut := by
  rw [handsOut]
  split
  · next h' =>
      cases h.symm.trans h'
      rfl
  · next h' => exact nomatch h.symm.trans h'

theorem handsOut_none {pool : Pool} (h : pool.take? = none) : pool.handsOut = [] := by
  rw [handsOut]
  split
  · next h' => exact nomatch h.symm.trans h'
  · rfl

theorem length_handsOut (pool : Pool) : pool.handsOut.length = pool.free := by
  induction pool using handsOut.induct with
  | case1 pool b rest h ih => rw [handsOut_some h, List.length_cons, ih, free_take h]
  | case2 pool h => rw [handsOut_none h, free_none h, List.length_nil]

theorem count_handsOut (pool : Pool) (p : PhysPage) : pool.handsOut.count p = pool.count p := by
  induction pool using handsOut.induct with
  | case1 pool b rest h ih =>
      rw [handsOut_some h, List.count_cons, ih, count_take h]
      simp only [beq_iff_eq]
  | case2 pool h => rw [handsOut_none h, List.count_nil, count_none h]

theorem handsOut_perm {pool : Pool} {n : Nat} (once : ∀ p, pool.count p ≤ 1)
    (below : ∀ p, 0 < pool.count p → p < n) (all : pool.free = n) :
    pool.handsOut.Perm (List.range n) := by
  have hnodup : pool.handsOut.Nodup := List.nodup_iff_count_le_one.2 fun p => by
    rw [count_handsOut]
    exact once p
  refine (hnodup.subperm fun p hp => ?_).perm_of_length_le
    (Nat.le_of_eq (by rw [List.length_range, length_handsOut, all]))
  rw [List.mem_range]
  refine below p ?_
  rw [← count_handsOut]
  exact List.count_pos_iff.2 hp

end DemandPaging.Pool
