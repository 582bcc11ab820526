import DemandPaging.Handle

/-!
The conditions that stop the kernel for good. Running out of memory is the only one that callers
can bring about; each of the others says that a part of the pager broke a rule of another part.
-/

namespace DemandPaging

inductive Panic where
  | noVictim
  | doubleFree (slot : SwapSlot)
  | invalidFrame
  | misalignedPage
  | oversizedBacking
  | slotHeld
  | frameHeld
  | addOverflow
  | subtractOverflow
  | multiplyOverflow
  | sectorOutOfRange (count sector : Nat)
deriving DecidableEq

def Panic.message : Panic → String
  | noVictim => "no frame can be evicted"
  | doubleFree slot => "double free of " ++ slot.text
  | invalidFrame => "invalid key"
  | misalignedPage => "assertion failed: va.is_page_aligned()"
  | oversizedBacking => "assertion failed: read_bytes <= PAGE_SIZE"
  | slotHeld => "assertion failed: self.slot.is_none()"
  | frameHeld => "assertion failed: page.frame.is_none()"
  | addOverflow => "attempt to add with overflow"
  | subtractOverflow => "attempt to subtract with overflow"
  | multiplyOverflow => "attempt to multiply with overflow"
  | sectorOutOfRange count sector =>
      s!"sector {sector} is not one of {count}"

end DemandPaging
