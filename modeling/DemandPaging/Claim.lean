import DemandPaging.Eviction

/-!
Making a page resident, giving it a frame of its own when it is written to, and giving it up.
Nobody else uses a page while one of these operations works on it.
-/

namespace DemandPaging

def mapAndFill (ref : PageRef) (page : Page) (phys : PhysPage) : KernelM (PageKind × Bool) := do
  if ← install (page.entryRef ref) phys page.writable then
    emit (.swapIn ref.va phys)
    page.kind.fill phys
  else
    pure (page.kind, false)

/-- Gives a page a frame, maps and fills it. When the mapping or the filling fails the frame is
given up again. -/
def claimVacant (ref : PageRef) (page : Page) : KernelM Bool := do
  match page.frame with
  | some _ => throw .frameHeld
  | none =>
      let id ← allocateFrame
      let phys ← physPage id
      link id ref
      match ← mapAndFill ref page phys with
      | (kind, true) =>
          let _ ← touch ref { page with frame := some id, cow := false, kind }
          emit (.claimed ref.va id)
          pure true
      | (kind, false) =>
          emit (.claimFailed ref.va)
          clearMapping (page.entryRef ref)
          setPage ref { page with frame := none, cow := false, kind }
          unlink id ref
          pure false

def claim (ref : PageRef) : KernelM Bool := do
  match ← page? ref with
  | none => pure false
  | some page => if page.frame.isSome then pure true else claimVacant ref page

/-- Gives a page that shares its frame a copy; a page that has come to be the only owner just gets
its write permission back. -/
def breakSharing (ref : PageRef) (page : Page) (old : FrameId) : KernelM Bool := do
  let entry := page.entryRef ref
  let page ← touch ref page
  if (← refCount old) = 1 then
    setPage ref { page with cow := false }
    emit (.exclusiveNow ref.va)
    remap entry (← physPage old) page.writable
  else
    let new ← allocateFrame
    let source ← physPage old
    let target ← physPage new
    writePhys target (← readPhys source)
    unlink old ref
    link new ref
    let page := { page with frame := some new, cow := false }
    setPage ref page
    emit (.copied ref.va old new)
    if ← remap entry target page.writable then
      pure true
    else
      clearMapping entry
      setPage ref { page with frame := none }
      unlink new ref
      pure false

/-- Lets an access to a page that is there go on: claims the page, breaks the sharing for a write,
or puts a lost mapping back. -/
def resolve (ref : PageRef) (write : Bool) : KernelM Bool := do
  match ← page? ref with
  | none => pure false
  | some page =>
      if write && !page.writable then
        emit (.readOnlyWrite ref.va)
        pure false
      else
        match page.frame with
        | none => claimVacant ref page
        | some id =>
            if page.cow && write then
              breakSharing ref page id
            else
              let page ← touch ref page
              remap (page.entryRef ref) (← physPage id) page.mappedWritable

/-- Gives up the frame of a page and what it holds besides; a file page that was written to goes
back to its file. -/
def vacate (ref : PageRef) (page : Page) : KernelM Unit := do
  let entry := page.entryRef ref
  match page.frame with
  | none => page.kind.dispose none page.writable entry
  | some id =>
      page.kind.dispose (some (← physPage id)) page.writable entry
      clearMapping entry
      unlink id ref

def destroy (ref : PageRef) (page : Page) : KernelM Unit := do
  vacate ref page
  page.kind.close

end DemandPaging
