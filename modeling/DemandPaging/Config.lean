namespace DemandPaging

abbrev kibi : Nat := 1024

abbrev mebi : Nat := 1024 * kibi

abbrev pageBits : Nat := 12

abbrev pageSize : Nat := 4096

abbrev pageOffsetMask : Nat := 4095

abbrev sectorBits : Nat := 9

abbrev sectorSize : Nat := 512

abbrev sectorsPerPage : Nat := 8

abbrev userStackTop : Nat := 0x47480000

abbrev maxStackSize : Nat := mebi

/-- A push may touch memory this far below the stack pointer before moving it. -/
abbrev stackPushSlack : Nat := 8

abbrev userSpaceEnd : Nat := 0x8004000000

/-- What a failed mapping reports to user code in place of an address. -/
abbrev mapFailed : Nat := 0

/-- Addresses, lengths and counters are machine words, below this bound. -/
abbrev wordBound : Nat := 0x10000000000000000

theorem one_shiftLeft_pageBits : 1 <<< pageBits = pageSize := rfl

theorem one_shiftLeft_sectorBits : 1 <<< sectorBits = sectorSize := rfl

theorem pageOffsetMask_add_one : pageOffsetMask + 1 = pageSize := rfl

theorem sectorsPerPage_mul_sectorSize : sectorsPerPage * sectorSize = pageSize := rfl

theorem userStackTop_le_userSpaceEnd : userStackTop ≤ userSpaceEnd := by decide

end DemandPaging
