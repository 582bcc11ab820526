import DemandPaging.Machine

/-!
Where the contents of pages come from and go to: ranges of files, and the initializers of pages
that were never used. Each backing holds one open handle of its file until it is closed.
-/

namespace DemandPaging

def useFile {α : Type} (id : FileId) (f : File → α × File) : KernelM α :=
  modifyGet fun m =>
    let (a, file) := f (m.file id)
    (a, { m with files := m.files.insert id file })

def openFile (id : FileId) : KernelM Unit :=
  useFile id fun file => ((), file.opened)

def closeFile (id : FileId) : KernelM Unit :=
  useFile id fun file => ((), file.closed)

namespace FileBacking

def ofHandle (file : FileId) (offset readBytes : Nat) : KernelM FileBacking :=
  if h : readBytes ≤ pageSize then pure ⟨file, offset, readBytes, h⟩ else throw .oversizedBacking

def duplicate (backing : FileBacking) : KernelM (Option FileBacking) := do
  if ← useFile backing.file File.reopen then pure (some backing) else pure none

def close (backing : FileBacking) : KernelM Unit := closeFile backing.file

/-- The page as the file has it; what cannot be read is zero. -/
def load (backing : FileBacking) : KernelM PageBytes := do
  return PageBytes.ofArray (← useFile backing.file (·.read backing.offset backing.readBytes))

def writeBack (backing : FileBacking) (page : PageBytes) : KernelM Bool := do
  let bytes := PageBytes.slice page 0 backing.readBytes
  let written ← useFile backing.file (·.writeAt bytes backing.offset)
  if written = backing.readBytes then
    pure true
  else
    emit (.shortWriteBack backing.offset written backing.readBytes)
    pure false

end FileBacking

namespace Initializer

def duplicate : Initializer → KernelM (Option Initializer)
  | segment backing => do
      return (← backing.duplicate).map segment
  | program id => do
      let m ← get
      match m.programs.find? id with
      | none => pure none
      | some routine =>
          let (granted, copies) := routine.copies.next
          set { m with programs := m.programs.insert id { routine with copies } }
          pure (if granted then some (program id) else none)
  | alwaysFail => pure (some alwaysFail)

def close : Initializer → KernelM Unit
  | segment backing => backing.close
  | _ => pure ()

/-- Uses the initializer up: gives the page as it leaves it, and whether it succeeded. -/
def run (page : PageBytes) : Initializer → KernelM (PageBytes × Bool)
  | segment backing => do
      let page ← backing.load
      backing.close
      pure (page, true)
  | program id => do
      let m ← get
      match m.programs.find? id with
      | none => pure (page, false)
      | some routine =>
          set { m with
            programs := m.programs.insert id { routine with calls := routine.calls + 1 } }
          pure (routine.run routine.calls page)
  | alwaysFail => pure (page, false)

end Initializer

def closeInitializer : Option Initializer → KernelM Unit
  | some init => init.close
  | none => pure ()

namespace PageTarget

def duplicate : PageTarget → KernelM (Option PageTarget)
  | anon => pure (some anon)
  | file backing => do
      return (← backing.duplicate).map file

def close : PageTarget → KernelM Unit
  | anon => pure ()
  | file backing => backing.close

end PageTarget

namespace PageKind

/-- A copy for another space. Resident anonymous pages hold no slot, so neither does the copy. A
handle that was opened for the initializer is given back when the target cannot be copied. -/
def duplicate : PageKind → KernelM (Option PageKind)
  | uninit target none => do
      return (← target.duplicate).map (uninit · none)
  | uninit target (some init) => do
      match ← init.duplicate with
      | none => pure none
      | some copy =>
          match ← target.duplicate with
          | none => do
              copy.close
              pure none
          | some target => pure (some (uninit target (some copy)))
  | anon _ => pure (some (anon none))
  | file backing => do
      return (← backing.duplicate).map file

def close : PageKind → KernelM Unit
  | uninit target init => do
      target.close
      closeInitializer init
  | anon _ => pure ()
  | file backing => backing.close

end PageKind

end DemandPaging
