/-!
A collaborator outside the pager answers a sequence of requests. Its answers are a function of the
number of requests it has served, so that a property of all `Replies` covers every pattern of
failures.
-/

namespace DemandPaging

structure Replies (α : Type) where
  reply : Nat → α
  served : Nat

namespace Replies

variable {α : Type}

def next (r : Replies α) : α × Replies α :=
  (r.reply r.served, { r with served := r.served + 1 })

def always (a : α) : Replies α := ⟨fun _ => a, 0⟩

/-- Grants so many requests and refuses the rest; without a number, grants all. -/
def budget : Option Nat → Replies Bool
  | none => always true
  | some n => ⟨fun k => decide (k < n), 0⟩

end Replies

end DemandPaging
