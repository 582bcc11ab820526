import DemandPaging.Claim

namespace DemandPaging

/-- The order in which the pages of a space are visited; any order will do. -/
structure Traversal where
  visit : List PageNum → List PageNum
  perm : ∀ vpns, (visit vpns).Perm vpns

def Traversal.asStored : Traversal := ⟨id, fun _ => List.Perm.refl _⟩

def newSpace : KernelM SpaceId :=
  modifyGet fun m => (m.spaceCount, { m with spaceCount := m.spaceCount + 1 })

def find (s : SpaceId) (va : VirtAddr) : KernelM (Option Page) := do
  let ref : PageRef := ⟨s, va.vpnFloor⟩
  match ← page? ref with
  | none => pure none
  | some page => do
      return some (← touch ref page)

def pageType (s : SpaceId) (va : VirtAddr) : KernelM (Option PageType) := do
  return (← page? ⟨s, va.vpnFloor⟩).map (·.kind.pageType)

def addPage (ref : PageRef) (page : Page) : KernelM Bool := do
  match ← page? ref with
  | some _ =>
      emit (.alreadyPresent ref.va)
      page.kind.close
      pure false
  | none =>
      setPage ref page
      pure true

def insert (s : SpaceId) (va : VirtAddr) (writable : Bool) (kind : PageKind) : KernelM Bool := do
  if va.isPageAligned then
    addPage ⟨s, va.vpnFloor⟩ (.fresh s writable kind)
  else
    throw .misalignedPage

/-- Makes a page that stands in no space that others use; the page table of `table` maps it. -/
def insertLoose (table : SpaceId) (va : VirtAddr) (writable : Bool) (kind : PageKind) :
    KernelM PageRef := do
  if va.isPageAligned then
    let ref : PageRef := ⟨← newSpace, va.vpnFloor⟩
    setPage ref (.fresh table writable kind)
    pure ref
  else
    throw .misalignedPage

def declare (s : SpaceId) (va : VirtAddr) (writable : Bool) (target : PageTarget)
    (init : Option Initializer) : KernelM Bool := do
  let kind : PageKind := .uninit target init
  if va.isUser && va.isPageAligned then
    addPage ⟨s, va.vpnFloor⟩ (.fresh s writable kind)
  else
    emit (.badDeclaration va)
    kind.close
    pure false

def removeRef (ref : PageRef) : KernelM Bool := do
  match ← page? ref with
  | none => pure false
  | some page =>
      dropPage ref
      destroy ref page
      pure true

def remove (s : SpaceId) (va : VirtAddr) : KernelM Bool := removeRef ⟨s, va.vpnFloor⟩

def claimPage (s : SpaceId) (va : VirtAddr) : KernelM Bool := do
  match ← find s va with
  | none => pure false
  | some _ => claim ⟨s, va.vpnFloor⟩

def dropRegions (s : SpaceId) : KernelM Unit :=
  modify fun m => { m with
    regions := m.regions.filterKeys fun ref => ref.space != s }

def destroyPages (s : SpaceId) : List PageNum → KernelM Unit
  | [] => pure ()
  | vpn :: rest => do
      let _ ← removeRef ⟨s, vpn⟩
      destroyPages s rest

/-- Destroys all pages of a space. A space without pages is left as it is. -/
def teardown (s : SpaceId) (order : Traversal) : KernelM Unit := do
  let vpns := (← get).pageNumbers s
  if vpns.isEmpty then
    pure ()
  else
    emit (.teardown vpns.length)
    dropRegions s
    destroyPages s (order.visit vpns)

def exitSpace (s : SpaceId) (order : Traversal) : KernelM Unit := do
  teardown s order
  modify fun m => { m with exited := s :: m.exited }

def Machine.liveSpaces (m : Machine) : List SpaceId :=
  (List.range m.spaceCount).filter fun s => !m.exited.contains s

def exitSpaces (order : Traversal) : List SpaceId → KernelM Unit
  | [] => pure ()
  | s :: rest => do
      exitSpace s order
      exitSpaces order rest

def shutdown (order : Traversal) : KernelM Unit := do
  exitSpaces order (← get).liveSpaces

end DemandPaging
