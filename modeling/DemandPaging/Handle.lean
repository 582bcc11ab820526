namespace DemandPaging

structure FrameId where
  index : Nat
deriving DecidableEq

def FrameId.text (id : FrameId) : String := "FrameId(" ++ toString id.index ++ ")"

structure SwapSlot where
  index : Nat
deriving DecidableEq

def SwapSlot.text (slot : SwapSlot) : String := "SwapSlot(" ++ toString slot.index ++ ")"

abbrev SpaceId := Nat

abbrev FileId := Nat

abbrev ProgramId := Nat

end DemandPaging
