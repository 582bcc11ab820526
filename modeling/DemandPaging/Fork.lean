import DemandPaging.Space

/-!
Copying an address space. Resident pages come to share their frames with the copy and are mapped
read-only on both sides until one of them is written to.
-/

namespace DemandPaging

def copyUnused (src : Page) (dst : PageRef) : KernelM Bool := do
  match ← src.kind.duplicate with
  | none =>
      emit (.initializerNotDuplicated dst.va)
      pure false
  | some kind => addPage dst (.fresh dst.space src.writable kind)

def shareFrame (srcRef dst : PageRef) (src : Page) (id : FrameId) : KernelM Bool := do
  match ← src.kind.duplicate with
  | none =>
      emit (.pageNotDuplicated dst.va)
      pure false
  | some kind =>
      let copy : Page := ⟨dst.space, src.writable, some id, src.lastAccess, true, kind⟩
      if ← addPage dst copy then
        link id dst
        let phys ← physPage id
        setPage srcRef { src with cow := true }
        if ← remap (src.entryRef srcRef) phys false then
          if ← install (copy.entryRef dst) phys false then
            emit (.shared dst.va id)
            pure true
          else
            pure false
        else
          pure false
      else
        pure false

def bringBack (ref : PageRef) (page : Page) : KernelM Bool :=
  if page.frame.isSome then pure true else claimVacant ref page

def copyUsed (srcRef dst : PageRef) (src : Page) : KernelM Bool := do
  if ← bringBack srcRef src then
    match ← page? srcRef with
    | none => pure false
    | some src =>
        match src.frame with
        | none => pure false
        | some id => shareFrame srcRef dst src id
  else
    pure false

def copyPage (src dst : SpaceId) (vpn : PageNum) : KernelM Bool := do
  match ← page? ⟨src, vpn⟩ with
  | none => pure true
  | some page =>
      if page.kind.isUninit then copyUnused page ⟨dst, vpn⟩
      else copyUsed ⟨src, vpn⟩ ⟨dst, vpn⟩ page

def copyPages (src dst : SpaceId) : List PageNum → KernelM Bool
  | [] => pure true
  | vpn :: rest => do
      if ← copyPage src dst vpn then copyPages src dst rest else pure false

def copyRegions (src dst : SpaceId) : KernelM Unit :=
  modify fun m => { m with
    regions := (m.regionsOf src).foldl (fun t (vpn, count) => t.insert ⟨dst, vpn⟩ count) m.regions }

/-- Copies all pages and regions of one space to another. After a failure the other space holds
the pages that were copied until then. -/
def copySpace (src dst : SpaceId) (order : Traversal) : KernelM Bool := do
  if ← copyPages src dst (order.visit ((← get).pageNumbers src)) then
    copyRegions src dst
    pure true
  else
    pure false

end DemandPaging
