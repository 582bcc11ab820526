import DemandPaging.Replies
import DemandPaging.Handle

/-!
Files as the pager sees them: bytes that all handles share, a count of open handles, and the
answers that the file system gives to requests to open, read and write, which may fall short.
-/

namespace DemandPaging

structure File where
  data : Array UInt8
  /-- How long writes may make the file, if it grows at all. -/
  growsTo : Option Nat
  /-- Handles opened less handles closed. -/
  handles : Int
  reopens : Replies Bool
  /-- How many bytes the next write moves at most. -/
  writeCaps : Replies (Option Nat)
  readCaps : Replies (Option Nat)

namespace File

/-- A file that grants every request in full; if it grows, then up to 64 KiB. -/
def ofData (data : Array UInt8) (grows : Bool) : File :=
  ⟨data, if grows then some 65536 else none, 0, .always true, .always none, .always none⟩

instance : Inhabited File := ⟨ofData #[] false⟩

def length (file : File) : Nat := file.data.size

def opened (file : File) : File := { file with handles := file.handles + 1 }

def closed (file : File) : File := { file with handles := file.handles - 1 }

def capped (cap : Option Nat) (n : Nat) : Nat :=
  match cap with
  | some limit => min limit n
  | none => n

theorem capped_le (cap : Option Nat) (n : Nat) : capped cap n ≤ n := by
  cases cap with
  | none => exact Nat.le_refl n
  | some limit => exact Nat.min_le_right limit n

def reopen (file : File) : Bool × File :=
  let (granted, reopens) := file.reopens.next
  let file := { file with reopens }
  (granted, if granted then file.opened else file)

def read (file : File) (offset count : Nat) : Array UInt8 × File :=
  let (cap, readCaps) := file.readCaps.next
  let moved := capped cap (min count (file.length - offset))
  (file.data.extract offset (offset + moved), { file with readCaps })

/-- The bytes that a write from `offset` on can reach. -/
def room (file : File) (offset : Nat) : Nat :=
  file.growsTo.getD file.length - offset

def putFrom (data : Array UInt8) (i : Nat) : List UInt8 → Array UInt8
  | [] => data
  | byte :: rest => putFrom (data.setIfInBounds i byte) (i + 1) rest

/-- Puts bytes in from `offset` on; the data becomes longer if need be, with zeros in a gap. -/
def overwrite (data : Array UInt8) (offset : Nat) (bytes : Array UInt8) : Array UInt8 :=
  putFrom (data ++ Array.replicate (offset + bytes.size - data.size) 0) offset bytes.toList

theorem size_putFrom (data : Array UInt8) (i : Nat) (bytes : List UInt8) :
    (putFrom data i bytes).size = data.size := by
  induction bytes generalizing data i with
  | nil => rfl
  | cons byte rest ih => simp only [putFrom, ih, Array.size_setIfInBounds]

theorem getElem?_putFrom (data : Array UInt8) (i j : Nat) (bytes : List UInt8) :
    (putFrom data i bytes)[j]? =
      if i ≤ j ∧ j < i + bytes.length ∧ j < data.size then bytes[j - i]? else data[j]? := by
  induction bytes generalizing data i with
  | nil =>
      simp only [putFrom, List.length_nil, Nat.add_zero]
      rw [if_neg (by omega)]
  | cons byte rest ih =>
      simp only [putFrom, ih, Array.size_setIfInBounds, Array.getElem?_setIfInBounds,
        List.length_cons]
      by_cases hij : i = j
      · subst hij
        rw [if_neg (by omega), if_pos rfl, Nat.sub_self, List.getElem?_cons_zero]
        by_cases hi : i < data.size
        · rw [if_pos hi, if_pos (by omega)]
        · rw [if_neg hi, if_neg (by omega), Array.getElem?_eq_none (Nat.le_of_not_lt hi)]
      · rw [if_neg hij]
        by_cases hj : i + 1 ≤ j ∧ j < i + 1 + rest.length ∧ j < data.size
        · rw [if_pos hj, if_pos (by omega), show j - i = j - (i + 1) + 1 by omega,
            List.getElem?_cons_succ]
        · rw [if_neg hj, if_neg (by omega)]

theorem size_overwrite (data : Array UInt8) (offset : Nat) (bytes : Array UInt8) :
    (overwrite data offset bytes).size = max data.size (offset + bytes.size) := by
  simp only [overwrite, size_putFrom, Array.size_append, Array.size_replicate]
  omega

theorem getElem?_overwrite {data bytes : Array UInt8} {offset i : Nat} (h : i < data.size) :
    (overwrite data offset bytes)[i]? =
      if offset ≤ i ∧ i < offset + bytes.size then bytes[i - offset]? else data[i]? := by
  simp only [overwrite, getElem?_putFrom, Array.size_append, Array.length_toList,
    Array.getElem?_toList, Array.getElem?_append_left h]
  by_cases hi : offset ≤ i ∧ i < offset + bytes.size
  · rw [if_pos hi, if_pos (by omega)]
  · rw [if_neg hi, if_neg (by omega)]

def writeAt (file : File) (bytes : Array UInt8) (offset : Nat) : Nat × File :=
  let (cap, writeCaps) := file.writeCaps.next
  let moved := capped cap (min bytes.size (file.room offset))
  let file := { file with writeCaps }
  (moved,
    if moved = 0 then file
    else { file with data := overwrite file.data offset (bytes.extract 0 moved) })

end File

end DemandPaging
