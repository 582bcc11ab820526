import DemandPaging.ByteTree
import DemandPaging.Config

/-!
The contents of pages and sectors. A page is exactly eight sectors: `ofSectors_toSectors` says that
cutting a page up and joining the parts loses nothing.
-/

namespace DemandPaging

abbrev PageBytes := ByteTree pageBits

abbrev Sector := ByteTree sectorBits

namespace Sector

def zero : Sector := .replicate 0 sectorBits

def toArray (sector : Sector) : Array UInt8 := Array.ofFn fun i : Fin sectorSize => sector.get i.val

end Sector

namespace PageBytes

def filled (byte : UInt8) : PageBytes := .replicate byte pageBits

def zero : PageBytes := filled 0

def ofFn (f : Nat → UInt8) : PageBytes := ByteTree.ofFn f pageBits 0

/-- The byte at an offset; beyond the page there are zeros. -/
def byteAt (page : PageBytes) (offset : Nat) : UInt8 :=
  if offset < pageSize then page.get offset else 0

def ofArray (bytes : Array UInt8) : PageBytes := ofFn fun i => bytes[i]?.getD 0

def patch (page : PageBytes) (start : Nat) (bytes : Array UInt8) : PageBytes :=
  ofFn fun i => if start ≤ i then bytes[i - start]?.getD (page.byteAt i) else page.byteAt i

def slice (page : PageBytes) (start count : Nat) : Array UInt8 :=
  Array.ofFn fun i : Fin count => page.byteAt (start + i.val)

def toArray (page : PageBytes) : Array UInt8 := page.slice 0 pageSize

def toSectors (page : PageBytes) : List Sector := ByteTree.parts 3 page

def ofSectors (sectors : List Sector) : PageBytes := ByteTree.join 3 sectors

theorem byteAt_ofFn {f : Nat → UInt8} {i : Nat} (h : i < pageSize) : (ofFn f).byteAt i = f i := by
  simp only [byteAt, h, if_pos, ofFn, ByteTree.get_ofFn, Nat.zero_mul, Nat.zero_add]
  rw [show i % 1 <<< pageBits = i from Nat.mod_eq_of_lt h]

theorem byteAt_filled {byte : UInt8} {i : Nat} (h : i < pageSize) :
    (filled byte).byteAt i = byte := by
  simp only [byteAt, h, if_pos, filled, ByteTree.get_replicate]

theorem byteAt_zero (i : Nat) : zero.byteAt i = 0 := by
  simp only [byteAt, zero, filled, ByteTree.get_replicate, ite_self]

theorem byteAt_ofArray {bytes : Array UInt8} {i : Nat} (h : i < pageSize) :
    (ofArray bytes).byteAt i = bytes[i]?.getD 0 :=
  byteAt_ofFn h

theorem byteAt_patch {page : PageBytes} {start i : Nat} {bytes : Array UInt8} (h : i < pageSize) :
    (page.patch start bytes).byteAt i =
      if start ≤ i then bytes[i - start]?.getD (page.byteAt i) else page.byteAt i :=
  byteAt_ofFn h

theorem some_byteAt_patch {page : PageBytes} {start i : Nat} {bytes : Array UInt8} (h : i < pageSize) :
    some ((page.patch start bytes).byteAt i) =
      if start ≤ i ∧ i < start + bytes.size then bytes[i - start]? else some (page.byteAt i) := by
  rw [byteAt_patch h]
  by_cases hin : start ≤ i ∧ i < start + bytes.size
  · have hlt : i - start < bytes.size := by omega
    rw [if_pos hin, if_pos hin.1, Array.getElem?_eq_getElem hlt, Option.getD_some]
  · rw [if_neg hin]
    split
    · rw [Array.getElem?_eq_none (by omega), Option.getD_none]
    · rfl

theorem ext_byteAt {p q : PageBytes} (h : ∀ i < pageSize, p.byteAt i = q.byteAt i) : p = q :=
  ByteTree.ext fun i hi => by
    have hi' := h i hi
    simpa only [byteAt, show i < pageSize from hi, if_pos] using hi'

theorem getElem?_slice {page : PageBytes} {start count i : Nat} (h : i < count) :
    (page.slice start count)[i]? = some (page.byteAt (start + i)) := by
  simp only [slice, Array.getElem?_ofFn, h, dif_pos]

theorem ofSectors_toSectors (page : PageBytes) : ofSectors page.toSectors = page :=
  @ByteTree.join_parts sectorBits 3 page

end PageBytes

end DemandPaging
