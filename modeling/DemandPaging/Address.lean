import DemandPaging.Config

namespace DemandPaging

def hex (n : Nat) : String :=
  "0x" ++ String.ofList (Nat.toDigits 16 n)

structure VirtAddr where
  val : Nat
  val_lt : val < wordBound
deriving DecidableEq

structure PageNum where
  val : Nat
deriving DecidableEq

namespace VirtAddr

def ofNat? (n : Nat) : Option VirtAddr :=
  if h : n < wordBound then some ⟨n, h⟩ else none

def ofBits (n : Nat) : VirtAddr :=
  ⟨n % wordBound, Nat.mod_lt _ (by decide)⟩

def add? (va : VirtAddr) (n : Nat) : Option VirtAddr :=
  ofNat? (va.val + n)

/-- The address at a distance from another; past the last address it goes on at address 0. -/
def advance (va : VirtAddr) (n : Nat) : VirtAddr := ofBits (va.val + n)

def pageOffset (va : VirtAddr) : Nat := va.val % pageSize

def isPageAligned (va : VirtAddr) : Bool := va.pageOffset == 0

def vpnFloor (va : VirtAddr) : PageNum := ⟨va.val / pageSize⟩

def vpnCeil (va : VirtAddr) : PageNum := ⟨(va.val + (pageSize - 1)) / pageSize⟩

def pageFloor (va : VirtAddr) : VirtAddr :=
  ⟨va.val - va.pageOffset, Nat.lt_of_le_of_lt (Nat.sub_le _ _) va.val_lt⟩

def isUser (va : VirtAddr) : Bool := 0 < va.val && va.val < userSpaceEnd

def text (va : VirtAddr) : String := "VA(" ++ hex va.val ++ ")"

def userStackTop : VirtAddr := ⟨DemandPaging.userStackTop, by decide⟩

end VirtAddr

namespace PageNum

/-- The first address of a page; bits that do not fit into a machine word are lost. -/
def pageStart (vpn : PageNum) : VirtAddr := VirtAddr.ofBits (vpn.val * pageSize)

def add? (vpn : PageNum) (n : Nat) : Option PageNum :=
  if vpn.val + n < wordBound then some ⟨vpn.val + n⟩ else none

def range : (start : PageNum) → (count : Nat) → List PageNum
  | _, 0 => []
  | start, count + 1 => start :: range ⟨start.val + 1⟩ count

def rangeTo (start stop : PageNum) : List PageNum := start.range (stop.val - start.val)

def text (vpn : PageNum) : String := "VirtPageNum(" ++ toString vpn.val ++ ")"

theorem mem_range {start : PageNum} {count : Nat} {vpn : PageNum} :
    vpn ∈ start.range count ↔ start.val ≤ vpn.val ∧ vpn.val < start.val + count := by
  induction count generalizing start with
  | zero => simp only [range, List.not_mem_nil, false_iff]; omega
  | succ count ih =>
      obtain ⟨s⟩ := start
      obtain ⟨v⟩ := vpn
      simp only [range, List.mem_cons, PageNum.mk.injEq, ih]
      omega

end PageNum

namespace VirtAddr

theorem pageStart_vpnFloor (va : VirtAddr) : va.vpnFloor.pageStart = va.pageFloor := by
  obtain ⟨v, hv⟩ := va
  simp only [wordBound] at hv
  simp only [PageNum.pageStart, ofBits, vpnFloor, pageFloor, pageOffset, VirtAddr.mk.injEq,
    pageSize, wordBound]
  omega

theorem val_advance_of_lt {va : VirtAddr} {n : Nat} (h : va.val + n < wordBound) :
    (va.advance n).val = va.val + n := by
  simp only [advance, ofBits, Nat.mod_eq_of_lt h]

/-- Pages divide the machine word evenly, so going past the last address keeps offsets. -/
theorem pageOffset_advance (va : VirtAddr) (n : Nat) :
    (va.advance n).pageOffset = (va.val + n) % pageSize := by
  simp only [advance, ofBits, pageOffset, pageSize, wordBound]
  omega

theorem pageFloor_of_isPageAligned {va : VirtAddr} (h : va.isPageAligned) : va.pageFloor = va := by
  obtain ⟨v, hv⟩ := va
  simp only [isPageAligned, pageOffset, beq_iff_eq] at h
  simp only [pageFloor, pageOffset, h, Nat.sub_zero]

theorem vpnFloor_pageFloor (va : VirtAddr) : va.pageFloor.vpnFloor = va.vpnFloor := by
  obtain ⟨v, hv⟩ := va
  simp only [vpnFloor, pageFloor, pageOffset, PageNum.mk.injEq, pageSize]
  omega

theorem isPageAligned_pageFloor (va : VirtAddr) : va.pageFloor.isPageAligned := by
  obtain ⟨v, hv⟩ := va
  simp only [isPageAligned, pageFloor, pageOffset, beq_iff_eq, pageSize]
  omega

end VirtAddr

/-- The address under which the kernel reaches a physical page. -/
structure KernelAddr where
  val : Nat
deriving DecidableEq

def KernelAddr.text (kva : KernelAddr) : String := "KVA(" ++ hex kva.val ++ ")"

/-- Physical pages are numbered from the start of the memory that the pool manages. -/
abbrev PhysPage := Nat

def physPageText (page : PhysPage) : String := "KVA(#" ++ toString page ++ ")"

end DemandPaging
