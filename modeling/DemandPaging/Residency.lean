import DemandPaging.Backing

/-!
Moving the contents of a page into a physical page and out of it. An anonymous page goes to a slot
of the swap area, a file page back to its file, and only when it was written to.
-/

namespace DemandPaging

def allocSlot : KernelM (Option SwapSlot) := do
  let m ← get
  match m.swap.allocSlot? with
  | none => pure none
  | some (slot, swap) =>
      set { m with swap }
      emit (.slotAllocated slot)
      pure (some slot)

def freeSlot (slot : SwapSlot) : KernelM Unit := do
  let m ← get
  let swap ← ofExcept (m.swap.freeSlot slot)
  set { m with swap }
  emit (.slotFreed slot)

def readSlot (slot : SwapSlot) (page : PageBytes) : KernelM PageBytes := do
  ofExcept ((← get).swap.readSlot slot page)

def writeSlot (slot : SwapSlot) (page : PageBytes) : KernelM Unit := do
  let m ← get
  let swap ← ofExcept (m.swap.writeSlot slot page)
  set { m with swap }

namespace PageKind

/-- Fills a physical page; gives what the page is afterwards and whether it is filled. When the
initializer fails, its copy is kept for another try. -/
def fill (phys : PhysPage) : PageKind → KernelM (PageKind × Bool)
  | anon none => do
      writePhys phys PageBytes.zero
      pure (anon none, true)
  | anon (some slot) => do
      writePhys phys (← readSlot slot (← readPhys phys))
      freeSlot slot
      pure (anon none, true)
  | file backing => do
      writePhys phys (← backing.load)
      pure (file backing, true)
  | uninit .anon none => do
      writePhys phys PageBytes.zero
      pure (anon none, true)
  | uninit (.file backing) none => do
      writePhys phys (← backing.load)
      pure (file backing, true)
  | uninit target (some init) => do
      let retry ← init.duplicate
      let (bytes, filled) ← init.run (← readPhys phys)
      writePhys phys bytes
      if filled then
        closeInitializer retry
        pure (target.kind, true)
      else
        pure (uninit target (some (retry.getD .alwaysFail)), false)

/-- Saves the contents of a physical page; gives what the page is afterwards, unless that fails. A
page that was never used holds no frame, so there is nothing to save. -/
def save (phys : PhysPage) (entry : PageRef) : PageKind → KernelM (Option PageKind)
  | uninit _ _ => pure none
  | anon (some _) => throw .slotHeld
  | anon none => do
      match ← allocSlot with
      | none =>
          emit .swapExhausted
          pure none
      | some slot =>
          writeSlot slot (← readPhys phys)
          pure (some (anon (some slot)))
  | file backing => do
      if ← isDirty entry then
        if ← backing.writeBack (← readPhys phys) then
          setDirty entry false
          pure (some (file backing))
        else
          pure none
      else
        pure (some (file backing))

/-- Gives up what a page holds outside memory. A writable file page that is in memory and was
written to goes back to its file first, as far as the file takes it. -/
def dispose (phys : Option PhysPage) (writable : Bool) (entry : PageRef) : PageKind → KernelM Unit
  | uninit _ _ => pure ()
  | anon none => pure ()
  | anon (some slot) => freeSlot slot
  | file backing => do
      match phys with
      | none => pure ()
      | some phys =>
          if writable && (← isDirty entry) then
            if ← backing.writeBack (← readPhys phys) then
              setDirty entry false

end PageKind

end DemandPaging
