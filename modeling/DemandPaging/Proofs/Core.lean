import DemandPaging.Operation
import Mathlib.Logic.Function.Basic

/-!
The part of a machine that decides what its pages hold. Reports, handle counts and the numbers of
requests served so far are left out, so most of what the pager does besides moving pages leaves the
core as it is.
-/

namespace DemandPaging

theorem Table.find?_insert_eq {κ α : Type} [DecidableEq κ] (t : Table κ α) (k : κ) (a : α) :
    (t.insert k a).find? = Function.update t.find? k (some a) := by
  funext k'
  rw [find?_insert, Function.update_apply]
  simp only [eq_comm]

theorem Table.find?_erase_eq {κ α : Type} [DecidableEq κ] (t : Table κ α) (k : κ) :
    (t.erase k).find? = Function.update t.find? k none := by
  funext k'
  rw [find?_erase, Function.update_apply]
  simp only [eq_comm]

theorem FrameTable.find?_update_eq (t : FrameTable) (id : FrameId) (frame : Frame) :
    (t.update id frame).find? = Function.update t.find? id (some frame) :=
  Table.find?_insert_eq t.entries id frame

theorem FrameTable.find?_remove_eq (t : FrameTable) (id : FrameId) :
    (t.remove id).find? = Function.update t.find? id none :=
  Table.find?_erase_eq t.entries id

/-- A file without its counters. -/
structure FileFace where
  data : Array UInt8
  growsTo : Option Nat
  readCap : Nat → Option Nat
  writeCap : Nat → Option Nat

def File.face (file : File) : FileFace :=
  ⟨file.data, file.growsTo, file.readCaps.reply, file.writeCaps.reply⟩

namespace FileFace

/-- What some read of a range may deliver. -/
def Delivers (face : FileFace) (offset count : Nat) (got : Array UInt8) : Prop :=
  ∃ k, got = face.data.extract offset
    (offset + File.capped (face.readCap k) (min count (face.data.size - offset)))

def room (face : FileFace) (offset : Nat) : Nat :=
  face.growsTo.getD face.data.size - offset

def put (face : FileFace) (offset : Nat) (bytes : Array UInt8) (moved : Nat) : FileFace :=
  if moved = 0 then face
  else { face with data := File.overwrite face.data offset (bytes.extract 0 moved) }

/-- How many bytes some write may move. -/
def Accepts (face : FileFace) (offset : Nat) (bytes : Array UInt8) (moved : Nat) : Prop :=
  ∃ k, moved = File.capped (face.writeCap k) (min bytes.size (face.room offset))

end FileFace

/-- A program without the count of its copies. -/
structure Routine where
  run : (calls : Nat) → PageBytes → PageBytes × Bool
  calls : Nat

def Program.routine (program : Program) : Routine := ⟨program.run, program.calls⟩

structure Core where
  memory : Memory
  frames : FrameTable
  swap : SwapArea
  pages : Table PageRef Page
  mappings : Table PageRef Mapping
  regions : Table PageRef Nat
  clock : Nat
  files : FileId → FileFace
  programs : ProgramId → Option Routine
  programCount : Nat
  grants : SpaceId → Nat → Bool

def Machine.core (m : Machine) : Core where
  memory := m.memory
  frames := m.frames
  swap := m.swap
  pages := m.pages
  mappings := m.mappings
  regions := m.regions
  clock := m.clock
  files id := (m.file id).face
  programs id := (m.programs.find? id).map Program.routine
  programCount := m.programs.size
  grants s := ((m.installs.find? s).getD (.always true)).reply

theorem Machine.grants_installs {s : SpaceId} (m : Machine) (installs : Replies Bool) (s' : SpaceId) :
    { m with installs := m.installs.insert s installs }.core.grants s' =
      if s = s' then installs.reply else m.core.grants s' := by
  simp only [Machine.core, Table.find?_insert]
  split <;> rfl

namespace Core

def setFile (c : Core) (id : FileId) (face : FileFace) : Core :=
  { c with files := Function.update c.files id face }

def setPage (c : Core) (ref : PageRef) (page : Page) : Core :=
  { c with pages := c.pages.insert ref page }

def write (c : Core) (phys : PhysPage) (bytes : PageBytes) : Core :=
  { c with memory := c.memory.write phys bytes }

def map (c : Core) (entry : PageRef) (mapping : Mapping) : Core :=
  { c with mappings := c.mappings.insert entry mapping }

def unmap (c : Core) (entry : PageRef) : Core :=
  { c with mappings := c.mappings.erase entry }

def setFrame (c : Core) (id : FrameId) (frame : Frame) : Core :=
  { c with frames := c.frames.update id frame }

def disown (c : Core) (id : FrameId) (frame : Frame) (ref : PageRef) : Core :=
  if (frame.owners.filter (· ≠ ref)).isEmpty then
    { c with frames := c.frames.remove id, memory := c.memory.release frame.page }
  else c.setFrame id { frame with owners := frame.owners.filter (· ≠ ref) }

def dirty (c : Core) (entry : PageRef) : Bool :=
  match c.mappings.find? entry with
  | some mapping => mapping.dirty
  | none => false

end Core

end DemandPaging
