import DemandPaging.Space

namespace DemandPaging

def isStackGrowth (addr sp : VirtAddr) : Bool :=
  addr.val < userStackTop && userStackTop - maxStackSize ≤ addr.val &&
    sp.val - stackPushSlack ≤ addr.val

def resolveFault (s : SpaceId) (addr sp : VirtAddr) (flags : FaultFlags) : KernelM Bool := do
  emit (.pageFault addr flags)
  if !addr.isUser then
    emit (.nonUserFault addr)
    pure false
  else if flags.present && !flags.write then
    emit (.presentReadFault addr)
    pure false
  else
    match ← find s addr with
    | some _ => resolve ⟨s, addr.vpnFloor⟩ flags.write
    | none =>
        if isStackGrowth addr sp then
          emit (.stackGrown addr.pageFloor)
          if ← declare s addr.pageFloor true .anon none then
            resolve ⟨s, addr.vpnFloor⟩ flags.write
          else
            pure false
        else
          emit (.noPage addr sp)
          pure false

end DemandPaging
