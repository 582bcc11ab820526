import DemandPaging.Proofs.Core

/-!
What the pager does to the core, one page or one frame at a time. A deed says what a step means to
the users of the pages; a step without deeds moves contents about or changes permissions only.
-/

namespace DemandPaging

inductive Deed where
  | add (ref : PageRef) (page : Page)
  | make (ref : PageRef) (init : Option Initializer) (bytes : PageBytes)
  | fail (ref : PageRef) (kept : Initializer)
  | read (ref : PageRef) (offset : Nat) (bytes : Array UInt8)
  | write (ref : PageRef) (offset : Nat) (bytes : Array UInt8)
  | share (src dst : PageRef) (whole : Bool)
  | lose (ref : PageRef)
  | drop (ref : PageRef)
  | chart (regions : Table PageRef Nat)

def Deed.Settles (ref : PageRef) : Deed → Prop
  | make ref' _ _ => ref' = ref
  | fail ref' _ => ref' = ref
  | _ => False

def Initializer.Kept (init kept : Initializer) : Prop := kept = init ∨ kept = .alwaysFail

/-- What the copy of a page that is in use starts as. -/
def PageKind.twin : PageKind → PageKind
  | .anon _ => .anon none
  | kind => kind

namespace Core

inductive Produces (c : Core) (page : PageBytes) : Initializer → PageBytes × Bool → Core → Prop where
  | segment {backing : FileBacking} {got : Array UInt8}
      (got_of : (c.files backing.file).Delivers backing.offset backing.readBytes got) :
      Produces c page (.segment backing) (PageBytes.ofArray got, true) c
  | program {id : ProgramId} {routine : Routine} (found : c.programs id = some routine) :
      Produces c page (.program id) (routine.run routine.calls page)
        { c with
          programs := Function.update c.programs id
            (some { routine with calls := routine.calls + 1 }) }
  | missing {id : ProgramId} (absent : c.programs id = none) :
      Produces c page (.program id) (page, false) c
  | alwaysFail : Produces c page .alwaysFail (page, false) c

inductive Fills (c : Core) (ref : PageRef) (page : PageBytes) :
    PageKind → PageKind → PageBytes → Core → List Deed → Prop where
  | zero : Fills c ref page (.anon none) (.anon none) PageBytes.zero c []
  | slot {slot : SwapSlot} {bytes : PageBytes} {swap : SwapArea}
      (stored : c.swap.readSlot slot page = .ok bytes) (freed : c.swap.freeSlot slot = .ok swap) :
      Fills c ref page (.anon (some slot)) (.anon none) bytes { c with swap } []
  | file {backing : FileBacking} {got : Array UInt8}
      (got_of : (c.files backing.file).Delivers backing.offset backing.readBytes got) :
      Fills c ref page (.file backing) (.file backing) (PageBytes.ofArray got) c []
  | newAnon : Fills c ref page (.uninit .anon none) (.anon none) PageBytes.zero c
      [.make ref none PageBytes.zero]
  | newFile {backing : FileBacking} {got : Array UInt8}
      (got_of : (c.files backing.file).Delivers backing.offset backing.readBytes got) :
      Fills c ref page (.uninit (.file backing) none) (.file backing) (PageBytes.ofArray got) c
        [.make ref none (PageBytes.ofArray got)]
  | made {target : PageTarget} {init : Initializer} {bytes : PageBytes} {c' : Core}
      (made : c.Produces page init (bytes, true) c') :
      Fills c ref page (.uninit target (some init)) target.kind bytes c'
        [.make ref (some init) bytes]

inductive Saves (c : Core) (bytes : PageBytes) (entry : PageRef) :
    PageKind → PageKind → Core → Prop where
  | anon {slot : SwapSlot} {taken swap : SwapArea} (free : c.swap.allocSlot? = some (slot, taken))
      (stored : taken.writeSlot slot bytes = .ok swap) :
      Saves c bytes entry (.anon none) (.anon (some slot)) { c with swap }
  | clean {backing : FileBacking} (clean : c.dirty entry = false) :
      Saves c bytes entry (.file backing) (.file backing) c
  | dirty {backing : FileBacking} (dirty : c.dirty entry = true)
      (taken : (c.files backing.file).Accepts backing.offset
        (PageBytes.slice bytes 0 backing.readBytes) backing.readBytes) :
      Saves c bytes entry (.file backing) (.file backing)
        (c.setFile backing.file ((c.files backing.file).put backing.offset
          (PageBytes.slice bytes 0 backing.readBytes) backing.readBytes))

inductive Disposes (c : Core) (page : Page) (entry : PageRef) : Core → Prop where
  | nothing (no_slot : ∀ slot, page.kind ≠ .anon (some slot))
      (no_write : ∀ backing id, page.kind = .file backing → page.frame = some id →
        page.writable = true → c.dirty entry = false) : Disposes c page entry c
  | slot {slot : SwapSlot} {swap : SwapArea} (kind : page.kind = .anon (some slot))
      (freed : c.swap.freeSlot slot = .ok swap) : Disposes c page entry { c with swap }
  | file {backing : FileBacking} {id : FrameId} {frame : Frame} {moved : Nat}
      (kind : page.kind = .file backing) (resident : page.frame = some id)
      (found : c.frames.find? id = some frame) (writable : page.writable = true)
      (dirty : c.dirty entry = true)
      (taken : (c.files backing.file).Accepts backing.offset
        (PageBytes.slice (c.memory.read frame.page) 0 backing.readBytes) moved) :
      Disposes c page entry (c.setFile backing.file ((c.files backing.file).put backing.offset
        (PageBytes.slice (c.memory.read frame.page) 0 backing.readBytes) moved))

def stamp (c : Core) (ref : PageRef) (page : Page) : Core :=
  { c with
    clock := c.clock + 1
    pages := c.pages.insert ref { page with lastAccess := c.clock + 1 } }

def giveBack (c : Core) (id : FrameId) (phys : PhysPage) : Core :=
  { c with frames := c.frames.remove id, memory := c.memory.release phys }

/-- Two pages come to share a frame; neither page table is changed yet. -/
def share (c : Core) (src dst : PageRef) (page : Page) (id : FrameId) (frame : Frame) : Core :=
  ((c.setPage dst ⟨dst.space, page.writable, some id, page.lastAccess, true, page.kind.twin⟩).setFrame
    id { frame with owners := frame.owners ++ [dst] }).setPage src { page with cow := true }

def mapShared (c : Core) (entry : PageRef) (phys : PhysPage) : Core :=
  c.map entry ⟨phys, false, c.dirty entry⟩

def store (c : Core) (entry : PageRef) (phys : PhysPage) (bytes : PageBytes) : Core :=
  { c.write phys bytes with mappings := c.mappings.modify entry ({ · with dirty := true }) }

/-- A page leaves a shared frame for a copy of it. -/
def diverge (c : Core) (ref : PageRef) (old : FrameId) (shared : Frame) (phys : PhysPage) : Core :=
  (c.write phys (c.memory.read shared.page)).disown old shared ref

inductive Step : Core → List Deed → Core → Prop where
  | touch {c : Core} {ref : PageRef} {page : Page} (found : c.pages.find? ref = some page) :
      Step c [] (c.stamp ref page)
  | learn {c : Core} {routine : Routine} :
      Step c [] { c with
        programs := Function.update c.programs c.programCount (some routine)
        programCount := c.programCount + 1 }
  | chart {c : Core} (regions : Table PageRef Nat) : Step c [.chart regions] { c with regions }
  | add {c : Core} {ref : PageRef} {writable : Bool} {kind : PageKind}
      (vacant : c.pages.find? ref = none) (no_slot : ∀ slot, kind ≠ .anon (some slot)) :
      Step c [.add ref (.fresh ref.space writable kind)]
        (c.setPage ref (.fresh ref.space writable kind))
  | acquire {c : Core} {phys : PhysPage} {memory : Memory}
      (taken : c.memory.acquire? = some (phys, memory)) :
      Step c [] { c with memory, frames := (c.frames.add ⟨phys, []⟩).2 }
  | spoil {c : Core} {ref : PageRef} {page : Page} {backing : FileBacking} {id : FrameId}
      {phys : PhysPage} {moved : Nat} (found : c.pages.find? ref = some page)
      (kind : page.kind = .file backing) (owned : c.frames.find? id = some ⟨phys, [ref]⟩)
      (dirty : c.dirty (page.entryRef ref) = true)
      (taken : (c.files backing.file).Accepts backing.offset
        (PageBytes.slice (c.memory.read phys) 0 backing.readBytes) moved)
      (short : moved ≠ backing.readBytes) :
      Step c [] (c.setFile backing.file ((c.files backing.file).put backing.offset
        (PageBytes.slice (c.memory.read phys) 0 backing.readBytes) moved))
  | evict {c c₁ : Core} {ref : PageRef} {page : Page} {id : FrameId} {phys : PhysPage}
      {kind : PageKind} (found : c.pages.find? ref = some page)
      (owned : c.frames.find? id = some ⟨phys, [ref]⟩)
      (saved : c.Saves (c.memory.read phys) (page.entryRef ref) page.kind kind c₁) :
      Step c [] ((((c₁.unmap (page.entryRef ref)).setPage ref
        { page with kind, frame := none, cow := false }).setFrame id ⟨phys, []⟩).write phys
          PageBytes.zero)
  | fill {c c₁ : Core} {ref : PageRef} {page : Page} {id : FrameId} {phys : PhysPage}
      {kind : PageKind} {bytes : PageBytes} {deeds : List Deed}
      (found : c.pages.find? ref = some page) (away : page.frame = none)
      (free : c.frames.find? id = some ⟨phys, []⟩)
      (filled : c.Fills ref (c.memory.read phys) page.kind kind bytes c₁ deeds) :
      Step c deeds ((((c₁.setFrame id ⟨phys, [ref]⟩).map (page.entryRef ref)
        ⟨phys, page.writable, false⟩).write phys bytes).stamp ref
          { page with frame := some id, cow := false, kind })
  | refuse {c : Core} {ref : PageRef} {page : Page} {id : FrameId} {phys : PhysPage} {k : Nat}
      (found : c.pages.find? ref = some page) (away : page.frame = none)
      (free : c.frames.find? id = some ⟨phys, []⟩) (refused : c.grants page.table k = false) :
      Step c [] (((c.giveBack id phys).unmap (page.entryRef ref)).setPage ref
        { page with frame := none, cow := false })
  | fail {c c₁ : Core} {ref : PageRef} {page : Page} {id : FrameId} {phys : PhysPage}
      {target : PageTarget} {init kept : Initializer} {bytes : PageBytes}
      (found : c.pages.find? ref = some page) (away : page.frame = none)
      (kind : page.kind = .uninit target (some init))
      (free : c.frames.find? id = some ⟨phys, []⟩)
      (made : c.Produces (c.memory.read phys) init (bytes, false) c₁) (kept_of : init.Kept kept) :
      Step c [.fail ref kept] ((((c₁.write phys bytes).giveBack id phys).unmap
        (page.entryRef ref)).setPage ref
          { page with frame := none, cow := false, kind := .uninit target (some kept) })
  | copy {c : Core} {ref : PageRef} {page : Page} {old new : FrameId} {shared : Frame}
      {phys : PhysPage} (found : c.pages.find? ref = some page) (resident : page.frame = some old)
      (owned : c.frames.find? old = some shared) (many : shared.owners.length ≠ 1)
      (free : c.frames.find? new = some ⟨phys, []⟩) :
      Step c [] ((((c.diverge ref old shared phys).setFrame new ⟨phys, [ref]⟩).map
        (page.entryRef ref) ⟨phys, page.writable, c.dirty (page.entryRef ref)⟩).setPage ref
          { page with frame := some new, cow := false })
  | lose {c : Core} {ref : PageRef} {page : Page} {old new : FrameId} {shared : Frame}
      {phys : PhysPage} {k : Nat} (found : c.pages.find? ref = some page)
      (resident : page.frame = some old) (owned : c.frames.find? old = some shared)
      (many : shared.owners.length ≠ 1) (free : c.frames.find? new = some ⟨phys, []⟩)
      (refused : c.grants page.table k = false) :
      Step c [.lose ref] ((((c.diverge ref old shared phys).giveBack new phys).unmap
        (page.entryRef ref)).setPage ref { page with frame := none, cow := false })
  | own {c : Core} {ref : PageRef} {page : Page} {id : FrameId} {frame : Frame}
      (found : c.pages.find? ref = some page) (resident : page.frame = some id)
      (owned : c.frames.find? id = some frame) (sole : frame.owners.length = 1) :
      Step c [] (c.setPage ref { page with cow := false })
  | remap {c : Core} {ref : PageRef} {page : Page} {id : FrameId} {frame : Frame}
      (found : c.pages.find? ref = some page) (resident : page.frame = some id)
      (owned : c.frames.find? id = some frame) :
      Step c [] (c.map (page.entryRef ref)
        ⟨frame.page, page.mappedWritable, c.dirty (page.entryRef ref)⟩)
  | share {c : Core} {src dst : PageRef} {page : Page} {id : FrameId} {frame : Frame}
      (found : c.pages.find? src = some page) (used : page.kind.isUninit = false)
      (vacant : c.pages.find? dst = none) (resident : page.frame = some id)
      (owned : c.frames.find? id = some frame) :
      Step c [.share src dst true] (((c.share src dst page id frame).mapShared (page.entryRef src)
        frame.page).map dst ⟨frame.page, false, false⟩)
  | shareHalf {c : Core} {src dst : PageRef} {page : Page} {id : FrameId} {frame : Frame}
      {s : SpaceId} {k : Nat} (found : c.pages.find? src = some page)
      (used : page.kind.isUninit = false) (vacant : c.pages.find? dst = none)
      (resident : page.frame = some id) (owned : c.frames.find? id = some frame)
      (refused : c.grants s k = false) {c' : Core}
      (mapped : c' = c.share src dst page id frame ∨
        c' = (c.share src dst page id frame).mapShared (page.entryRef src) frame.page) :
      Step c [.share src dst false] c'
  | read {c : Core} {ref : PageRef} {mapping : Mapping} {offset count : Nat}
      (mapped : c.mappings.find? ref = some mapping) (fits : offset + count ≤ pageSize) :
      Step c [.read ref offset (PageBytes.slice (c.memory.read mapping.page) offset count)] c
  | write {c : Core} {ref : PageRef} {mapping : Mapping} {offset : Nat} {bytes : Array UInt8}
      (mapped : c.mappings.find? ref = some mapping) (writable : mapping.writable = true)
      (fits : offset + bytes.size ≤ pageSize) :
      Step c [.write ref offset bytes] (c.store ref mapping.page
        (PageBytes.patch (c.memory.read mapping.page) offset bytes))
  | dropAway {c c₁ : Core} {ref : PageRef} {page : Page} (found : c.pages.find? ref = some page)
      (away : page.frame = none)
      (disposed : Disposes { c with pages := c.pages.erase ref } page (page.entryRef ref) c₁) :
      Step c [.drop ref] c₁
  | drop {c c₁ : Core} {ref : PageRef} {page : Page} {id : FrameId} {frame : Frame}
      (found : c.pages.find? ref = some page) (resident : page.frame = some id)
      (owned : c.frames.find? id = some frame)
      (disposed : Disposes { c with pages := c.pages.erase ref } page (page.entryRef ref) c₁) :
      Step c [.drop ref] ((c₁.unmap (page.entryRef ref)).disown id frame ref)

inductive Steps : Core → List Deed → Core → Prop where
  | refl (c : Core) : Steps c [] c
  | tail {c c₁ c₂ : Core} {ds es : List Deed} (run : Steps c ds c₁) (step : Step c₁ es c₂) :
      Steps c (ds ++ es) c₂

theorem Step.steps {c c' : Core} {ds : List Deed} (h : Step c ds c') : Steps c ds c' :=
  .tail (.refl c) h

theorem Steps.trans {c c₁ c₂ : Core} {ds es : List Deed} (h : Steps c ds c₁) (h' : Steps c₁ es c₂) :
    Steps c (ds ++ es) c₂ := by
  induction h' with
  | refl => simpa only [List.append_nil] using h
  | tail _ step ih =>
      rw [← List.append_assoc]
      exact ih.tail step

theorem Steps.keep {P : Core → Prop} (hP : ∀ {c c' ds}, Step c ds c' → P c → P c') {c c' : Core}
    {ds : List Deed} (h : Steps c ds c') (hc : P c) : P c' := by
  induction h with
  | refl => exact hc
  | tail _ step ih => exact hP step ih

end Core

end DemandPaging
