import DemandPaging.Address
import DemandPaging.Handle
import DemandPaging.PageBytes
import DemandPaging.Replies

/-!
Pages of an address space. A page is materialised by its first use: until then it carries what it
is to become and how its first contents are produced; after that it is backed by the swap area or
by a file.
-/

namespace DemandPaging

/-- The first `readBytes` bytes of a page are those of the file from `offset` on. -/
structure FileBacking where
  file : FileId
  offset : Nat
  readBytes : Nat
  readBytes_le : readBytes ≤ pageSize
deriving DecidableEq

/-- A routine that fills a page. What it does may depend on how often it was run before, by any of
the pages that share it; `copies` says whether another page may come to share it. -/
structure Program where
  run : (calls : Nat) → PageBytes → PageBytes × Bool
  calls : Nat
  copies : Replies Bool

/-- Fills the first `count` bytes with `byte`, notes the number of calls in the last byte, and fails
in its first `failures` calls. -/
def Program.filling (byte : UInt8) (count failures : Nat) (copies : Replies Bool) : Program where
  run calls page :=
    (PageBytes.ofFn fun i =>
      if i = pageSize - 1 then UInt8.ofNat (calls + 1)
      else if i < count then byte
      else PageBytes.byteAt page i,
      decide (failures ≤ calls))
  calls := 0
  copies := copies

inductive Initializer where
  | segment (backing : FileBacking)
  | program (id : ProgramId)
  | alwaysFail
deriving DecidableEq

inductive PageTarget where
  | anon
  | file (backing : FileBacking)
deriving DecidableEq

inductive PageKind where
  | uninit (target : PageTarget) (init : Option Initializer)
  | anon (slot : Option SwapSlot)
  | file (backing : FileBacking)
deriving DecidableEq

inductive PageType where
  | anon | file
deriving DecidableEq

def PageType.name : PageType → String
  | anon => "Anon"
  | file => "File"

def PageTarget.pageType : PageTarget → PageType
  | anon => .anon
  | file _ => .file

def PageTarget.kind : PageTarget → PageKind
  | anon => .anon none
  | file backing => .file backing

namespace PageKind

def pageType : PageKind → PageType
  | uninit target _ => target.pageType
  | anon _ => .anon
  | file _ => .file

def isUninit : PageKind → Bool
  | uninit _ _ => true
  | _ => false

end PageKind

theorem PageTarget.pageType_kind (target : PageTarget) : target.kind.pageType = target.pageType := by
  cases target <;> rfl

structure PageRef where
  space : SpaceId
  vpn : PageNum
deriving DecidableEq

def PageRef.va (ref : PageRef) : VirtAddr := ref.vpn.pageStart

structure Page where
  /-- The page table that maps the page. -/
  table : SpaceId
  writable : Bool
  frame : Option FrameId
  lastAccess : Nat
  /-- Mapped read-only because the frame is shared. -/
  cow : Bool
  kind : PageKind
deriving DecidableEq

namespace Page

def fresh (table : SpaceId) (writable : Bool) (kind : PageKind) : Page :=
  ⟨table, writable, none, 0, false, kind⟩

def mappedWritable (page : Page) : Bool := page.writable && !page.cow

end Page

end DemandPaging
