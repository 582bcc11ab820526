import DemandPaging.Errno
import DemandPaging.Space

namespace DemandPaging

def Machine.overlaps (m : Machine) (s : SpaceId) (start stop : PageNum) : Bool :=
  m.pages.keys.any fun ref => ref.space == s && start.val ≤ ref.vpn.val && ref.vpn.val < stop.val

def removePages (s : SpaceId) : List PageNum → KernelM Unit
  | [] => pure ()
  | vpn :: rest => do
      let _ ← remove s vpn.pageStart
      removePages s rest

structure MapRequest where
  space : SpaceId
  start : PageNum
  length : Nat
  writable : Bool
  file : FileId
  fileLength : Nat
  offset : Nat

def MapRequest.declarePage (r : MapRequest) (i : Nat) : KernelM Bool := do
  let before ← checkedMul i pageSize
  let offset ← checkedAdd r.offset before
  let left ← checkedSub r.length before
  if ← useFile r.file File.reopen then
    let backing ← FileBacking.ofHandle r.file offset
      (min (min pageSize left) (r.fileLength - offset))
    let vpn ← checkedAdd r.start.val i
    declare r.space (PageNum.pageStart ⟨vpn⟩) r.writable (.file backing) none
  else
    pure false

/-- Declares so many pages from number `i` on; on a failure all pages of the region are removed. -/
def MapRequest.declarePages (r : MapRequest) : (count i : Nat) → KernelM Bool
  | 0, _ => pure true
  | count + 1, i => do
      if ← r.declarePage i then
        r.declarePages count (i + 1)
      else
        let stop ← checkedAdd r.start.val i
        removePages r.space (r.start.rangeTo ⟨stop⟩)
        pure false

def map (s : SpaceId) (va : VirtAddr) (length : Nat) (writable : Bool) (file : FileId)
    (offset : Nat) : KernelM (Except Errno VirtAddr) := do
  if va.val == 0 || !va.isPageAligned || length == 0 || offset % pageSize != 0 then
    emit (.badMapping va length offset)
    pure (.error .invalid)
  else
    match va.add? length with
    | none => pure (.error .invalid)
    | some stop =>
        if userSpaceEnd < stop.val then
          pure (.error .invalid)
        else
          let fileLength := ((← get).file file).length
          if fileLength = 0 then
            emit .emptyFile
            pure (.error .invalid)
          else
            let start := va.vpnFloor
            let pages ← checkedSub stop.vpnCeil.val start.val
            let extent ← checkedMul pages pageSize
            if wordBound ≤ offset + extent then
              emit (.offsetOverflow offset)
              pure (.error .invalid)
            else
              let last ← checkedAdd start.val pages
              if (← get).overlaps s start ⟨last⟩ then
                emit (.mappingOverlaps va)
                pure (.error .exists)
              else
                let request : MapRequest := ⟨s, start, length, writable, file, fileLength, offset⟩
                if ← request.declarePages pages 0 then
                  modify fun m => { m with regions := m.regions.insert ⟨s, start⟩ pages }
                  emit (.mapped va pages)
                  pure (.ok va)
                else
                  pure (.error .noMemory)

def unmap (s : SpaceId) (va : VirtAddr) : KernelM (Except Errno Unit) := do
  let start := va.vpnFloor
  if va.isPageAligned then
    match (← get).regions.find? ⟨s, start⟩ with
    | none =>
        emit (.notMapped va)
        pure (.error .invalid)
    | some pages =>
        modify fun m => { m with regions := m.regions.erase ⟨s, start⟩ }
        let stop ← checkedAdd start.val pages
        removePages s (start.rangeTo ⟨stop⟩)
        emit (.unmapped va pages)
        pure (.ok ())
  else
    pure (.error .invalid)

end DemandPaging
