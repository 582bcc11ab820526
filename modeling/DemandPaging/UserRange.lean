import DemandPaging.Errno
import DemandPaging.Machine

namespace DemandPaging

def checkPages (s : SpaceId) (va : VirtAddr) (length : Nat) (write : Bool) :
    (count : Nat) → (vpn : PageNum) → KernelM (Except Errno Unit)
  | 0, _ => pure (.ok ())
  | count + 1, vpn => do
      match ← page? ⟨s, vpn⟩ with
      | none =>
          emit (.bufferUnmapped va length vpn)
          pure (.error .fault)
      | some page =>
          if write && !page.writable then
            emit (.bufferReadOnly va length)
            pure (.error .fault)
          else
            checkPages s va length write count ⟨vpn.val + 1⟩

def checkUserRange (s : SpaceId) (va : VirtAddr) (length : Nat) (write : Bool) :
    KernelM (Except Errno Unit) :=
  if length = 0 then pure (.ok ())
  else
    match va.add? length with
    | none => pure (.error .fault)
    | some stop =>
        if !va.isUser || userSpaceEnd < stop.val then pure (.error .fault)
        else
          checkPages s va length write (stop.vpnCeil.val - va.vpnFloor.val) va.vpnFloor

end DemandPaging
