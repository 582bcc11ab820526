namespace DemandPaging

structure SpinMutex (α : Type) where
  data : α
  isLocked : Bool
deriving DecidableEq

namespace SpinMutex

variable {α : Type}

def new (data : α) : SpinMutex α := ⟨data, false⟩

def tryLock (mutex : SpinMutex α) : Option (α × SpinMutex α) :=
  if mutex.isLocked then none else some (mutex.data, { mutex with isLocked := true })

def unlock (mutex : SpinMutex α) : SpinMutex α := { mutex with isLocked := false }

def modify (mutex : SpinMutex α) (f : α → α) : SpinMutex α :=
  if mutex.isLocked then { mutex with data := f mutex.data } else mutex

def lockedText : String := "SpinMutex \x7b <locked> \x7d"

def text (mutex : SpinMutex α) (render : α → String) : String :=
  if mutex.isLocked then lockedText
  else "SpinMutex \x7b data: " ++ render mutex.data ++ " \x7d"

def prettyText (mutex : SpinMutex α) (render : α → String) : String :=
  if mutex.isLocked then lockedText
  else "SpinMutex \x7b\n    data: " ++ render mutex.data ++ ",\n\x7d"

def increment (mutex : SpinMutex Nat) : SpinMutex Nat :=
  match mutex.tryLock with
  | some (_, mutex) => (mutex.modify (· + 1)).unlock
  | none => mutex

/-- A counter after so many threads have added one so many times each. -/
def contend (threads iterations : Nat) : SpinMutex Nat :=
  Nat.repeat increment (threads * iterations) (new 0)

theorem repeat_increment (n k : Nat) : Nat.repeat increment k (new n) = new (n + k) := by
  induction k with
  | zero => rfl
  | succ k ih =>
      rw [Nat.repeat, ih]
      simp [increment, tryLock, modify, unlock, new, Nat.add_assoc]

theorem contend_eq (threads iterations : Nat) :
    contend threads iterations = new (threads * iterations) := by
  simp only [contend, repeat_increment, Nat.zero_add]

end SpinMutex

end DemandPaging
