import DemandPaging.Proofs.Upkeep

namespace DemandPaging

/-- Whatever was asked of the pager before, whatever page tables, initializers and files refused and
whoever holds which locks, the next request of a caller who keeps to the rules does not make the
machine stop, unless no page of memory is free and none can be taken from anybody. The clock, which
counts the uses of pages, is to have a number left. -/
theorem stops_only_without_memory {frames : Nat} {sectors : Option Nat} {files : List File}
    {allocator : Allocator} {m m' : Machine} {op : Operation} {held : List PageRef} {e : Panic}
    (reached : (Machine.fresh frames sectors files allocator).Reaches m) (admissible : op.Admissible)
    (stopped : op.perform { m with held } = .error e m') (few : m'.clock + 1 < wordBound) :
    e = .noVictim ∧ m'.memory.pool.free = 0 := by
  have htidy := reached.tidy (Machine.fresh_tidy frames sectors files allocator)
  have hheld : Machine.Tidy frames _ { m with held } := htidy.same rfl rfl
  obtain hmemory | ⟨-, hclock⟩ := (op.perform_upholds hheld).error stopped admissible
  · exact hmemory
  · exact (Nat.not_le_of_lt few hclock).elim

/-- With one page of memory and no swap area, the second page that is used stops the machine. -/
theorem stops_without_memory_for_second_page : ∃ m m' e,
    (Machine.fresh 1 none []).Reaches m ∧
      (Operation.claim 0 (.ofBits 8192)).perform { m with held := [] } = .error e m' ∧
        m'.clock + 1 < wordBound ∧ e = .noVictim ∧ m'.memory.pool.free = 0 := by
  have played : ((Machine.fresh 1 none []).serve [.declare 0 (.ofBits 4096) true .anon none,
      .declare 0 (.ofBits 8192) true .anon none, .claim 0 (.ofBits 4096)]).any
        (fun r => match (Operation.claim 0 (.ofBits 8192)).perform { r.2 with held := [] } with
          | .error _ m' => decide (m'.clock + 1 < wordBound)
          | _ => false) = true := by decide +kernel
  obtain ⟨⟨log, m⟩, hserved, hstops⟩ := (Option.any_eq_true _ _).1 played
  dsimp only at hstops
  split at hstops
  · next e m' stopped =>
      have reached := Machine.Reaches.refl.serve hserved
      have few := of_decide_eq_true hstops
      have admissible : (Operation.claim 0 (.ofBits 8192)).Admissible := trivial
      exact ⟨m, m', e, reached, stopped, few,
        stops_only_without_memory reached admissible stopped few⟩
  · exact nomatch hstops

end DemandPaging
