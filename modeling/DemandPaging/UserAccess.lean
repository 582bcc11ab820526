import DemandPaging.Fault

/-!
User code reading and writing memory. An access goes page by page; where the page table does not
allow it, it faults, and it is tried once more when the fault was resolved. Past the last page it
goes on with the first.
-/

namespace DemandPaging

/-- The number of pages that an access touches when it starts at some offset in a page. -/
def pieceCount (offset length : Nat) : Nat :=
  if length = 0 then 0 else (offset + length + (pageSize - 1)) / pageSize

/-- The part of an access that lies in the page number `i`: how far it is from the start of the
access, and how long. -/
def piece (offset length i : Nat) : Nat × Nat :=
  let start := i * pageSize - offset
  (start, min length ((i + 1) * pageSize - offset) - start)

theorem piece_within {offset length i start n : Nat} (ho : offset < pageSize)
    (hi : i < pieceCount offset length) (h : piece offset length i = (start, n)) :
    0 < n ∧ start + n ≤ length ∧ (offset + start) % pageSize + n ≤ pageSize := by
  simp only [pieceCount] at hi
  simp only [piece, Prod.mk.injEq] at h
  split at hi
  · simp at hi
  · simp only [pageSize] at *
    omega

theorem piece_zero_start (offset length : Nat) : (piece offset length 0).1 = 0 := by
  simp only [piece, Nat.zero_mul, Nat.zero_sub]

theorem piece_succ_start {offset length i : Nat} (ho : offset < pageSize)
    (hi : i + 1 < pieceCount offset length) :
    (piece offset length (i + 1)).1 = (piece offset length i).1 + (piece offset length i).2 := by
  simp only [pieceCount] at hi
  simp only [piece]
  split at hi
  · simp at hi
  · simp only [pageSize] at *
    omega

def mapping? (s : SpaceId) (va : VirtAddr) : KernelM (Option Mapping) := do
  return (← get).mappings.find? ⟨s, va.vpnFloor⟩

def readMapped (s : SpaceId) (va : VirtAddr) (n : Nat) : KernelM (Option (Array UInt8)) := do
  match ← mapping? s va with
  | none => pure none
  | some mapping => do
      return some (PageBytes.slice (← readPhys mapping.page) va.pageOffset n)

def writeMapped (s : SpaceId) (va : VirtAddr) (bytes : Array UInt8) : KernelM Bool := do
  match ← mapping? s va with
  | none => pure false
  | some mapping =>
      if mapping.writable then
        let page ← readPhys mapping.page
        writePhys mapping.page (PageBytes.patch page va.pageOffset bytes)
        setDirty ⟨s, va.vpnFloor⟩ true
        pure true
      else
        pure false

def faultIn (s : SpaceId) (va sp : VirtAddr) (write : Bool) : KernelM Bool := do
  let present := (← mapping? s va).isSome
  resolveFault s va sp (.ofParts present write true)

def readPiece (s : SpaceId) (va sp : VirtAddr) (n : Nat) : KernelM (Option (Array UInt8)) := do
  match ← readMapped s va n with
  | some bytes => pure (some bytes)
  | none => if ← faultIn s va sp false then readMapped s va n else pure none

def writePiece (s : SpaceId) (va sp : VirtAddr) (bytes : Array UInt8) : KernelM Bool := do
  if ← writeMapped s va bytes then pure true
  else if ← faultIn s va sp true then writeMapped s va bytes
  else pure false

def readPieces (s : SpaceId) (va sp : VirtAddr) (length : Nat) :
    (count i : Nat) → Array UInt8 → KernelM (Option (Array UInt8))
  | 0, _, got => pure (some got)
  | count + 1, i, got => do
      let (start, n) := piece va.pageOffset length i
      match ← readPiece s (va.advance start) sp n with
      | none => pure none
      | some bytes => readPieces s va sp length count (i + 1) (got ++ bytes)

def writePieces (s : SpaceId) (va sp : VirtAddr) (bytes : Array UInt8) :
    (count i : Nat) → KernelM Bool
  | 0, _ => pure true
  | count + 1, i => do
      let (start, n) := piece va.pageOffset bytes.size i
      if ← writePiece s (va.advance start) sp (bytes.extract start (start + n)) then
        writePieces s va sp bytes count (i + 1)
      else
        pure false

def userRead (s : SpaceId) (va : VirtAddr) (length : Nat) (sp : VirtAddr) :
    KernelM (Option (Array UInt8)) :=
  readPieces s va sp length (pieceCount va.pageOffset length) 0 #[]

/-- Writes in order; what was written before a failure stays. -/
def userWrite (s : SpaceId) (va : VirtAddr) (bytes : Array UInt8) (sp : VirtAddr) : KernelM Bool :=
  writePieces s va sp bytes (pieceCount va.pageOffset bytes.size) 0

end DemandPaging
