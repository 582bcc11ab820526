import DemandPaging.Memory.Buddy
import DemandPaging.PageBytes
import DemandPaging.Table

namespace DemandPaging

structure Memory where
  contents : Table PhysPage PageBytes
  pool : Pool

namespace Memory

def ofSize (pages : Nat) (allocator : Allocator := .buddy) : Memory := ⟨∅, .ofSize allocator pages⟩

def read (memory : Memory) (page : PhysPage) : PageBytes :=
  (memory.contents.find? page).getD PageBytes.zero

def write (memory : Memory) (page : PhysPage) (bytes : PageBytes) : Memory :=
  { memory with contents := memory.contents.insert page bytes }

def acquire? (memory : Memory) : Option (PhysPage × Memory) :=
  match memory.pool.take? with
  | some (page, pool) => some (page, { memory with pool }.write page PageBytes.zero)
  | none => none

def release (memory : Memory) (page : PhysPage) : Memory :=
  { memory with pool := memory.pool.give page }

theorem read_write (memory : Memory) (page page' : PhysPage) (bytes : PageBytes) :
    (memory.write page bytes).read page' = if page = page' then bytes else memory.read page' := by
  simp only [read, write, Table.find?_insert]
  split <;> rfl

theorem read_write_self {memory : Memory} {page : PhysPage} {bytes : PageBytes} :
    (memory.write page bytes).read page = bytes :=
  (read_write memory page page bytes).trans (if_pos rfl)

theorem read_write_of_ne {memory : Memory} {page page' : PhysPage} {bytes : PageBytes}
    (h : page' ≠ page) : (memory.write page bytes).read page' = memory.read page' :=
  (read_write memory page page' bytes).trans (if_neg (Ne.symm h))

theorem read_acquire {memory memory' : Memory} {page : PhysPage}
    (h : memory.acquire? = some (page, memory')) : memory'.read page = PageBytes.zero := by
  simp only [acquire?] at h
  split at h
  · simp only [Option.some.injEq, Prod.mk.injEq] at h
    obtain ⟨rfl, rfl⟩ := h
    simp [read_write]
  · simp at h

end Memory

end DemandPaging
