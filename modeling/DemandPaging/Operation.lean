import DemandPaging.Fork
import DemandPaging.Region
import DemandPaging.UserAccess
import DemandPaging.UserRange

namespace DemandPaging

inductive TargetRequest where
  | anon
  | file (id : FileId) (offset count : Nat)

inductive InitializerRequest where
  | segment (id : FileId) (offset count : Nat)
  | program (routine : Program)

inductive KindRequest where
  | anon
  | file (id : FileId) (offset count : Nat)
  | uninit (target : TargetRequest) (init : Option InitializerRequest)

/-- New settings of a file; what is not given stays. -/
structure FileSettings where
  data : Option (Array UInt8)
  reopens : Option (Replies Bool)
  writeCaps : Option (Replies (Option Nat))
  readCaps : Option (Replies (Option Nat))

inductive Operation where
  | newSpace
  | declare (s : SpaceId) (va : VirtAddr) (writable : Bool) (target : TargetRequest)
      (init : Option InitializerRequest)
  | insert (s : SpaceId) (va : VirtAddr) (writable : Bool) (kind : KindRequest)
  | claim (s : SpaceId) (va : VirtAddr)
  | find (s : SpaceId) (va : VirtAddr)
  | pageType (s : SpaceId) (va : VirtAddr)
  | remove (s : SpaceId) (va : VirtAddr)
  | map (s : SpaceId) (va : VirtAddr) (length : Nat) (writable : Bool) (file : FileId)
      (offset : Nat)
  | unmap (s : SpaceId) (va : VirtAddr)
  | check (s : SpaceId) (va : VirtAddr) (length : Nat) (write : Bool)
  | fault (s : SpaceId) (va sp : VirtAddr) (flags : FaultFlags)
  | read (s : SpaceId) (va : VirtAddr) (length : Nat) (sp : VirtAddr)
  | write (s : SpaceId) (va : VirtAddr) (bytes : Array UInt8) (sp : VirtAddr)
  | fork (src dst : SpaceId) (order : Traversal)
  | teardown (s : SpaceId) (order : Traversal)
  | exit (s : SpaceId) (order : Traversal)
  | size (s : SpaceId)
  | mappings (s : SpaceId)
  | setDirty (s : SpaceId) (va : VirtAddr) (dirty : Bool)
  | dropMapping (s : SpaceId) (va : VirtAddr)
  | setInstalls (s : SpaceId) (installs : Replies Bool)
  | file (id : FileId)
  | configureFile (id : FileId) (settings : FileSettings)
  | duplicateBacking (id : FileId) (offset count : Nat)
  | stats
  /-- Carries out an operation while somebody holds the lock of a page. -/
  | locked (s : SpaceId) (va : VirtAddr) (op : Operation)

structure PageView where
  va : VirtAddr
  page : Page

inductive Answer where
  | done
  | flag (b : Bool)
  | space (id : SpaceId)
  | found (view : Option PageView)
  | type (t : Option PageType)
  | mapped (r : Except Errno VirtAddr)
  | accepted (r : Except Errno Unit)
  | bytes (r : Option (Array UInt8))
  | size (pages : Nat)
  | mappings (entries : List (PageNum × Mapping))
  | file (f : File)
  | backing (readBytes : Nat) (copy : Option Nat) (handles : Int)
  | stats (s : Stats)
  | absent

def Machine.sortedMappings (m : Machine) (s : SpaceId) : List (PageNum × Mapping) :=
  (m.mappingsOf s).mergeSort fun a b => a.1.val ≤ b.1.val

def newBacking (id : FileId) (offset count : Nat) : KernelM FileBacking := do
  openFile id
  FileBacking.ofHandle id offset count

def addProgram (routine : Program) : KernelM ProgramId :=
  modifyGet fun m =>
    (m.programs.size, { m with programs := m.programs.insert m.programs.size routine })

def TargetRequest.make : TargetRequest → KernelM PageTarget
  | anon => pure .anon
  | file id offset count => do
      return .file (← newBacking id offset count)

def InitializerRequest.make : InitializerRequest → KernelM Initializer
  | segment id offset count => do
      return .segment (← newBacking id offset count)
  | program routine => do
      return .program (← addProgram routine)

def makeInitializer : Option InitializerRequest → KernelM (Option Initializer)
  | none => pure none
  | some init => do
      return some (← init.make)

def KindRequest.make : KindRequest → KernelM PageKind
  | anon => pure (.anon none)
  | file id offset count => do
      return .file (← newBacking id offset count)
  | uninit target init => do
      let target ← target.make
      return .uninit target (← makeInitializer init)

def closeBacking : Option FileBacking → KernelM Unit
  | some backing => backing.close
  | none => pure ()

def FileSettings.apply (settings : FileSettings) (f : File) : File :=
  { f with
    data := settings.data.getD f.data
    reopens := settings.reopens.getD f.reopens
    writeCaps := settings.writeCaps.getD f.writeCaps
    readCaps := settings.readCaps.getD f.readCaps }

def holding {α : Type} (ref : PageRef) (x : KernelM α) : KernelM α := do
  let held := (← get).held
  modify fun m => { m with held := ref :: held }
  let a ← x
  modify fun m => { m with held }
  pure a

def Operation.perform : Operation → KernelM Answer
  | newSpace => do
      return .space (← DemandPaging.newSpace)
  | declare s va writable target init => do
      let target ← target.make
      let init ← makeInitializer init
      return .flag (← DemandPaging.declare s va writable target init)
  | insert s va writable kind => do
      return .flag (← DemandPaging.insert s va writable (← kind.make))
  | claim s va => do
      return .flag (← claimPage s va)
  | find s va => do
      return .found ((← DemandPaging.find s va).map fun page => ⟨va.pageFloor, page⟩)
  | pageType s va => do
      return .type (← DemandPaging.pageType s va)
  | remove s va => do
      return .flag (← DemandPaging.remove s va)
  | map s va length writable id offset => do
      openFile id
      let r ← DemandPaging.map s va length writable id offset
      closeFile id
      return .mapped r
  | unmap s va => do
      return .accepted (← DemandPaging.unmap s va)
  | check s va length writing => do
      return .accepted (← checkUserRange s va length writing)
  | fault s va sp flags => do
      return .flag (← resolveFault s va sp flags)
  | read s va length sp => do
      return .bytes (← userRead s va length sp)
  | write s va bytes sp => do
      return .flag (← userWrite s va bytes sp)
  | fork src dst order => do
      return .flag (← copySpace src dst order)
  | teardown s order => do
      DemandPaging.teardown s order
      return .size ((← get).pageCount s)
  | exit s order => do
      exitSpace s order
      return .flag true
  | size s => do
      return .size ((← get).pageCount s)
  | mappings s => do
      return .mappings ((← get).sortedMappings s)
  | setDirty s va dirty => do
      DemandPaging.setDirty ⟨s, va.vpnFloor⟩ dirty
      return .flag (← isDirty ⟨s, va.vpnFloor⟩)
  | dropMapping s va => do
      clearMapping ⟨s, va.vpnFloor⟩
      return .done
  | setInstalls s installs => do
      modify fun m => { m with installs := m.installs.insert s installs }
      return .done
  | file id => do
      return .file ((← get).file id)
  | configureFile id settings => do
      useFile id fun f => ((), settings.apply f)
      return .done
  | duplicateBacking id offset count => do
      let backing ← newBacking id offset count
      let copy ← backing.duplicate
      let handles := ((← get).file id).handles
      closeBacking copy
      backing.close
      return .backing backing.readBytes (copy.map (·.readBytes)) handles
  | stats => do
      return .stats (← get).stats
  | locked s va op => do
      match ← DemandPaging.find s va with
      | none => return .absent
      | some _ => holding ⟨s, va.vpnFloor⟩ op.perform

end DemandPaging
