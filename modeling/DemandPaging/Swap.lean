import DemandPaging.Disk

/-!
The swap area: a disk cut into slots of one page each, with a bitmap of the slots in use. The
bitmap is a list of words; slot `64 * w + b` is bit `b` of word `w`.
-/

namespace DemandPaging

structure SwapArea where
  disk : Option Disk
  bitmap : List (BitVec 64)
  slots : Nat
  used : Nat

namespace SwapSlot

def firstSector (slot : SwapSlot) : Nat := slot.index * sectorsPerPage

def word (slot : SwapSlot) : Nat := slot.index / 64

def bit (slot : SwapSlot) : Nat := slot.index % 64

end SwapSlot

namespace SwapArea

def ofDisk (disk : Option Disk) : SwapArea :=
  let slots := match disk with
    | some disk => disk.sectorCount / sectorsPerPage
    | none => 0
  ⟨disk, List.replicate ((slots + 63) / 64) 0, slots, 0⟩

def holds (area : SwapArea) (slot : SwapSlot) : Bool :=
  (area.bitmap[slot.word]?.getD 0).getLsbD slot.bit

def firstClear? : List (BitVec 64) → Option (Nat × Nat)
  | [] => none
  | word :: rest =>
      if word = BitVec.allOnes 64 then
        match firstClear? rest with
        | some (w, b) => some (w + 1, b)
        | none => none
      else some (0, (~~~word).ctz.toNat)

def allocSlot? (area : SwapArea) : Option (SwapSlot × SwapArea) :=
  match firstClear? area.bitmap with
  | none => none
  | some (w, b) =>
      let slot : SwapSlot := ⟨w * 64 + b⟩
      if area.slots ≤ slot.index then none
      else
        some (slot, { area with
          bitmap := area.bitmap.modify w (· ||| BitVec.twoPow 64 b), used := area.used + 1 })

def freeSlot (area : SwapArea) (slot : SwapSlot) : Except Panic SwapArea :=
  if area.holds slot then
    if area.used = 0 then .error .subtractOverflow
    else
      .ok { area with
        bitmap := area.bitmap.modify slot.word (· &&& ~~~BitVec.twoPow 64 slot.bit),
        used := area.used - 1 }
  else .error (.doubleFree slot)

/-- The page in a slot; without a disk, the page that is given as it stands. -/
def readSlot (area : SwapArea) (slot : SwapSlot) (page : PageBytes) : Except Panic PageBytes :=
  match area.disk with
  | none => .ok page
  | some disk =>
      match disk.readSectors slot.firstSector sectorsPerPage with
      | .error e => .error e
      | .ok sectors => .ok (PageBytes.ofSectors sectors)

def writeSlot (area : SwapArea) (slot : SwapSlot) (page : PageBytes) : Except Panic SwapArea :=
  match area.disk with
  | none => .ok area
  | some disk =>
      match disk.writeSectors slot.firstSector (PageBytes.toSectors page) with
      | .error e => .error e
      | .ok disk => .ok { area with disk := some disk }

end SwapArea

end DemandPaging
