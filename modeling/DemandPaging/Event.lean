import DemandPaging.Address
import DemandPaging.Console
import DemandPaging.FaultFlags
import DemandPaging.Handle

namespace DemandPaging

inductive Event where
  | started
  | frameAllocated (id : FrameId) (page : PhysPage)
  | outOfMemory (resident used capacity : Nat)
  | victimFailed (va : VirtAddr)
  | frameEvicted (va : VirtAddr) (id : FrameId)
  | frameReleased (id : FrameId)
  | swapIn (va : VirtAddr) (page : PhysPage)
  | swapOut (va : VirtAddr) (page : PhysPage)
  | swapExhausted
  | slotAllocated (slot : SwapSlot)
  | slotFreed (slot : SwapSlot)
  | shortWriteBack (offset written asked : Nat)
  | claimFailed (va : VirtAddr)
  | claimed (va : VirtAddr) (id : FrameId)
  | readOnlyWrite (va : VirtAddr)
  | exclusiveNow (va : VirtAddr)
  | copied (va : VirtAddr) (old new : FrameId)
  | alreadyPresent (va : VirtAddr)
  | badDeclaration (va : VirtAddr)
  | teardown (pages : Nat)
  | initializerNotDuplicated (va : VirtAddr)
  | pageNotDuplicated (va : VirtAddr)
  | shared (va : VirtAddr) (id : FrameId)
  | pageFault (va : VirtAddr) (flags : FaultFlags)
  | nonUserFault (va : VirtAddr)
  | presentReadFault (va : VirtAddr)
  | stackGrown (va : VirtAddr)
  | noPage (va sp : VirtAddr)
  | badMapping (va : VirtAddr) (length offset : Nat)
  | emptyFile
  | offsetOverflow (offset : Nat)
  | mappingOverlaps (va : VirtAddr)
  | mapped (va : VirtAddr) (pages : Nat)
  | notMapped (va : VirtAddr)
  | unmapped (va : VirtAddr) (pages : Nat)
  | bufferUnmapped (va : VirtAddr) (length : Nat) (vpn : PageNum)
  | bufferReadOnly (va : VirtAddr) (length : Nat)

namespace Event

def level : Event → Level
  | outOfMemory .. => .error
  | victimFailed .. | swapExhausted | shortWriteBack .. => .warn
  | started => .info
  | claimFailed .. | readOnlyWrite .. | alreadyPresent .. | badDeclaration ..
  | initializerNotDuplicated .. | pageNotDuplicated .. | nonUserFault .. | presentReadFault ..
  | noPage .. | badMapping .. | emptyFile | offsetOverflow .. | mappingOverlaps .. | notMapped ..
  | bufferUnmapped .. | bufferReadOnly .. => .debug
  | frameAllocated .. | frameEvicted .. | frameReleased .. | swapIn .. | swapOut ..
  | slotAllocated .. | slotFreed .. | claimed .. | exclusiveNow .. | copied .. | teardown ..
  | shared .. | pageFault .. | stackGrown .. | mapped .. | unmapped .. => .trace

def message : Event → String
  | started => "vm: initialized"
  | frameAllocated id page => s!"frame: allocate {id.text} at {physPageText page}"
  | outOfMemory resident used capacity =>
      s!"out of memory: {resident} frames resident, swap {used}/{capacity}"
  | victimFailed va => s!"frame: failed to swap out {va.text}, try next victim"
  | frameEvicted va id => s!"frame: evict {va.text} from {id.text}"
  | frameReleased id => s!"frame: release {id.text}"
  | swapIn va page => s!"swap in {va.text} into {physPageText page}"
  | swapOut va page => s!"swap out {va.text} from {physPageText page}"
  | swapExhausted => "swap area exhausted"
  | slotAllocated slot => s!"swap: alloc slot {slot.index}"
  | slotFreed slot => s!"swap: free slot {slot.index}"
  | shortWriteBack offset written asked =>
      s!"short write back at offset {hex offset}: {written}/{asked}"
  | claimFailed va => s!"failed to claim {va.text}"
  | claimed va id => s!"claim {va.text} with {id.text}"
  | readOnlyWrite va => s!"write to read-only page {va.text}"
  | exclusiveNow va => s!"cow: {va.text} is exclusive now"
  | copied va old new => s!"cow: copy {va.text} from {old.text} to {new.text}"
  | alreadyPresent va => s!"{va.text} is already in spt"
  | badDeclaration va => s!"cannot declare page at {va.text}"
  | teardown pages => s!"teardown spt with {pages} pages"
  | initializerNotDuplicated va => s!"fork: cannot duplicate initializer of {va.text}"
  | pageNotDuplicated va => s!"fork: cannot duplicate {va.text}"
  | shared va id => s!"fork: share {va.text} on {id.text}"
  | pageFault va flags => s!"page fault at {va.text} ({flags.text})"
  | nonUserFault va => s!"fault on non-user address {va.text}"
  | presentReadFault va => s!"read fault on present page {va.text}"
  | stackGrown va => s!"grow stack to {va.text}"
  | noPage va sp => s!"no page for {va.text}, sp {sp.text}"
  | badMapping va length offset =>
      s!"mmap: bad arguments {va.text}, len {hex length}, offset {hex offset}"
  | emptyFile => "mmap: empty file"
  | offsetOverflow offset => s!"mmap: offset {hex offset} overflows"
  | mappingOverlaps va => s!"mmap: {va.text} overlaps existing pages"
  | mapped va pages => s!"mmap: {va.text} with {pages} pages"
  | notMapped va => s!"munmap: {va.text} is not mapped"
  | unmapped va pages => s!"munmap: {va.text} with {pages} pages"
  | bufferUnmapped va length vpn =>
      s!"user buffer {va.text}+{hex length} touches unmapped {vpn.text}"
  | bufferReadOnly va length => s!"user buffer {va.text}+{hex length} is not writable"

def line (event : Event) : String := consoleLine event.level event.message

end Event

end DemandPaging
