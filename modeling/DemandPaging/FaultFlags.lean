import DemandPaging.Address

/-! The reasons that the hardware gives for a page fault, as the bits of a byte. -/

namespace DemandPaging

structure FaultFlags where
  bits : BitVec 8
deriving DecidableEq

namespace FaultFlags

/-- The page is there, but the access is not allowed. -/
def presentBit : BitVec 8 := 1

def writeBit : BitVec 8 := 2

def userBit : BitVec 8 := 4

def known : BitVec 8 := presentBit ||| writeBit ||| userBit

def ofParts (present write user : Bool) : FaultFlags :=
  ⟨(if present then presentBit else 0) ||| (if write then writeBit else 0) |||
    (if user then userBit else 0)⟩

def truncate (bits : BitVec 8) : FaultFlags := ⟨bits &&& known⟩

def isKnown (flags : FaultFlags) : Bool := flags.bits &&& ~~~known == 0

def present (flags : FaultFlags) : Bool := flags.bits &&& presentBit != 0

def write (flags : FaultFlags) : Bool := flags.bits &&& writeBit != 0

def user (flags : FaultFlags) : Bool := flags.bits &&& userBit != 0

def parts (flags : FaultFlags) : List String :=
  (if flags.present then ["PRESENT"] else []) ++ (if flags.write then ["WRITE"] else []) ++
    (if flags.user then ["USER"] else []) ++
    (if flags.isKnown then [] else [hex (flags.bits &&& ~~~known).toNat])

def text (flags : FaultFlags) : String :=
  "FaultFlags(" ++ (if flags.bits = 0 then hex 0 else " | ".intercalate flags.parts) ++ ")"

theorem present_ofParts (present write user : Bool) :
    (ofParts present write user).present = present := by
  cases present <;> cases write <;> cases user <;> decide

theorem write_ofParts (present write user : Bool) :
    (ofParts present write user).write = write := by
  cases present <;> cases write <;> cases user <;> decide

theorem user_ofParts (present write user : Bool) :
    (ofParts present write user).user = user := by
  cases present <;> cases write <;> cases user <;> decide

end FaultFlags

end DemandPaging
