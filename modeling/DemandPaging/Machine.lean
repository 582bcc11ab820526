import DemandPaging.Event
import DemandPaging.File
import DemandPaging.FrameTable
import DemandPaging.Memory
import DemandPaging.Panic
import DemandPaging.Swap

/-!
The state of the pager and of what surrounds it, and `KernelM`, in which its operations are
written: they change the state, and a panic ends them with the state in which it arose.
-/

namespace DemandPaging

structure Mapping where
  page : PhysPage
  writable : Bool
  dirty : Bool
deriving DecidableEq

structure Machine where
  memory : Memory
  frames : FrameTable
  swap : SwapArea
  files : Table FileId File
  programs : Table ProgramId Program
  /-- The number of address spaces ever made; they are numbered in the order of their making. -/
  spaceCount : Nat
  exited : List SpaceId
  pages : Table PageRef Page
  /-- The length in pages of every mapped region, by its first page. -/
  regions : Table PageRef Nat
  /-- The hardware page tables of all spaces. -/
  mappings : Table PageRef Mapping
  /-- Whether a page table can take the next entry. -/
  installs : Table SpaceId (Replies Bool)
  clock : Nat
  /-- Pages whose locks are held by somebody else. -/
  held : List PageRef
  /-- Reports, the latest first. -/
  console : List Event

structure Stats where
  residentFrames : Nat
  sharedFrames : Nat
  swapUsed : Nat
  swapTotal : Nat
deriving DecidableEq

def Stats.text (stats : Stats) : String :=
  s!"VmStats \x7b resident_frames: {stats.residentFrames}, shared_frames: {stats.sharedFrames}, " ++
    s!"swap_used: {stats.swapUsed}, swap_total: {stats.swapTotal} \x7d"

namespace Machine

def fresh (frames : Nat) (sectors : Option Nat) (files : List File)
    (allocator : Allocator := .buddy) : Machine where
  memory := .ofSize frames allocator
  frames := .empty
  swap := .ofDisk (sectors.map Disk.ofSize)
  files := (files.zipIdx).foldl (fun t (file, i) => t.insert i file) ∅
  programs := ∅
  spaceCount := 1
  exited := []
  pages := ∅
  regions := ∅
  mappings := ∅
  installs := ∅
  clock := 0
  held := []
  console := []

def stats (m : Machine) : Stats :=
  ⟨m.frames.resident, m.frames.shared, m.swap.used, m.swap.slots⟩

def file (m : Machine) (id : FileId) : File := (m.files.find? id).getD default

def pageNumbers (m : Machine) (s : SpaceId) : List PageNum :=
  m.pages.keys.filterMap fun ref => if ref.space = s then some ref.vpn else none

def pageCount (m : Machine) (s : SpaceId) : Nat := (m.pageNumbers s).length

def regionsOf (m : Machine) (s : SpaceId) : List (PageNum × Nat) :=
  m.regions.rows.filterMap fun (ref, count) => if ref.space = s then some (ref.vpn, count) else none

def mappingsOf (m : Machine) (s : SpaceId) : List (PageNum × Mapping) :=
  m.mappings.rows.filterMap fun (ref, entry) => if ref.space = s then some (ref.vpn, entry) else none

end Machine

abbrev KernelM := EStateM Panic Machine

def emit (event : Event) : KernelM Unit :=
  modify fun m => { m with console := event :: m.console }

def ofExcept {α : Type} : Except Panic α → KernelM α
  | .ok a => pure a
  | .error e => throw e

def checkedAdd (a b : Nat) : KernelM Nat :=
  if a + b < wordBound then pure (a + b) else throw .addOverflow

def checkedSub (a b : Nat) : KernelM Nat :=
  if b ≤ a then pure (a - b) else throw .subtractOverflow

def checkedMul (a b : Nat) : KernelM Nat :=
  if a * b < wordBound then pure (a * b) else throw .multiplyOverflow

def tick : KernelM Nat := do
  let now ← checkedAdd (← get).clock 1
  modify fun m => { m with clock := now }
  pure now

def page? (ref : PageRef) : KernelM (Option Page) := do
  return (← get).pages.find? ref

def setPage (ref : PageRef) (page : Page) : KernelM Unit :=
  modify fun m => { m with pages := m.pages.insert ref page }

def dropPage (ref : PageRef) : KernelM Unit :=
  modify fun m => { m with pages := m.pages.erase ref }

def touch (ref : PageRef) (page : Page) : KernelM Page := do
  let now ← tick
  let page := { page with lastAccess := now }
  setPage ref page
  pure page

def readPhys (page : PhysPage) : KernelM PageBytes := do
  return (← get).memory.read page

def writePhys (page : PhysPage) (bytes : PageBytes) : KernelM Unit :=
  modify fun m => { m with memory := m.memory.write page bytes }

namespace Page

/-- Under this reference the page stands in its page table. -/
def entryRef (page : Page) (ref : PageRef) : PageRef := ⟨page.table, ref.vpn⟩

end Page

def askInstall (s : SpaceId) : KernelM Bool :=
  modifyGet fun m =>
    let (granted, installs) := ((m.installs.find? s).getD (.always true)).next
    (granted, { m with installs := m.installs.insert s installs })

/-- Maps a page, clean, unless the page table cannot take the entry. -/
def install (entry : PageRef) (page : PhysPage) (writable : Bool) : KernelM Bool := do
  if ← askInstall entry.space then
    modify fun m => { m with mappings := m.mappings.insert entry ⟨page, writable, false⟩ }
    pure true
  else
    pure false

def clearMapping (entry : PageRef) : KernelM Unit :=
  modify fun m => { m with mappings := m.mappings.erase entry }

def isDirty (entry : PageRef) : KernelM Bool := do
  match (← get).mappings.find? entry with
  | some mapping => pure mapping.dirty
  | none => pure false

def setDirty (entry : PageRef) (dirty : Bool) : KernelM Unit :=
  modify fun m => { m with mappings := m.mappings.modify entry ({ · with dirty }) }

def remap (entry : PageRef) (page : PhysPage) (writable : Bool) : KernelM Bool := do
  let dirty ← isDirty entry
  if ← install entry page writable then
    setDirty entry dirty
    pure true
  else
    pure false

end DemandPaging
