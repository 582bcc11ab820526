import DemandPaging.Proofs.Surroundings

/-!
The pages without the frames. A look is all that the contents of a page and of its file depend on:
what the page is, whether it may be written to, its bytes while it is in memory, and whether they
were written to. Every step of the core is a move on the looks of the pages and on the files.
-/

namespace DemandPaging

open Function (update)

structure Look where
  kind : PageKind
  writable : Bool
  content : Option PageBytes
  dirty : Bool

abbrev Looks : Type := PageRef → Option Look

abbrev Files : Type := FileId → FileFace

inductive Loads (F : Files) : PageKind → PageKind → PageBytes → Prop where
  | anon {kind : PageKind} {bytes : PageBytes} (anon : kind.pageType = .anon) :
      Loads F kind (.anon none) bytes
  | file {backing : FileBacking} {got : Array UInt8}
      (got_of : (F backing.file).Delivers backing.offset backing.readBytes got) :
      Loads F (.file backing) (.file backing) (PageBytes.ofArray got)
  | newFile {backing : FileBacking} {got : Array UInt8}
      (got_of : (F backing.file).Delivers backing.offset backing.readBytes got) :
      Loads F (.uninit (.file backing) none) (.file backing) (PageBytes.ofArray got)
  | made {backing : FileBacking} {init : Initializer} {bytes : PageBytes} :
      Loads F (.uninit (.file backing) (some init)) (.file backing) bytes

def Files.putBack (F : Files) (backing : FileBacking) (bytes : PageBytes) (moved : Nat) : Files :=
  update F backing.file ((F backing.file).put backing.offset
    (PageBytes.slice bytes 0 backing.readBytes) moved)

def Files.Takes (F : Files) (backing : FileBacking) (bytes : PageBytes) (moved : Nat) : Prop :=
  (F backing.file).Accepts backing.offset (PageBytes.slice bytes 0 backing.readBytes) moved

inductive Saved (F : Files) (bytes : PageBytes) : PageKind → Bool → PageKind → Files → Prop where
  | anon {dirty : Bool} {slot : SwapSlot} : Saved F bytes (.anon none) dirty (.anon (some slot)) F
  | clean {backing : FileBacking} : Saved F bytes (.file backing) false (.file backing) F
  | dirty {backing : FileBacking} (taken : F.Takes backing bytes backing.readBytes) :
      Saved F bytes (.file backing) true (.file backing) (F.putBack backing bytes backing.readBytes)

inductive Move (L : Looks) (F : Files) : List Deed → Looks → Files → Prop where
  | still : Move L F [] L F
  | chart {regions : Table PageRef Nat} : Move L F [.chart regions] L F
  | add {ref : PageRef} {writable : Bool} {kind : PageKind} (vacant : L ref = none) :
      Move L F [.add ref (.fresh ref.space writable kind)]
        (update L ref (some ⟨kind, writable, none, false⟩)) F
  | spoil {ref : PageRef} {backing : FileBacking} {writable : Bool} {bytes : PageBytes} {moved : Nat}
      (found : L ref = some ⟨.file backing, writable, some bytes, true⟩)
      (taken : F.Takes backing bytes moved) (short : moved ≠ backing.readBytes) :
      Move L F [] L (F.putBack backing bytes moved)
  | evict {ref : PageRef} {kind kind' : PageKind} {writable dirty : Bool} {bytes : PageBytes}
      {F' : Files} (found : L ref = some ⟨kind, writable, some bytes, dirty⟩)
      (saved : Saved F bytes kind dirty kind' F') :
      Move L F [] (update L ref (some ⟨kind', writable, none, false⟩)) F'
  | fill {ref : PageRef} {kind kind' : PageKind} {writable : Bool} {bytes : PageBytes}
      {deeds : List Deed} (found : L ref = some ⟨kind, writable, none, false⟩)
      (loads : Loads F kind kind' bytes) (settles : ∀ d ∈ deeds, d.Settles ref) :
      Move L F deeds (update L ref (some ⟨kind', writable, some bytes, false⟩)) F
  | fail {ref : PageRef} {target : PageTarget} {init kept : Initializer} {writable : Bool}
      (found : L ref = some ⟨.uninit target (some init), writable, none, false⟩) :
      Move L F [.fail ref kept]
        (update L ref (some ⟨.uninit target (some kept), writable, none, false⟩)) F
  | lose {ref : PageRef} {look : Look} (found : L ref = some look) :
      Move L F [.lose ref] (update L ref (some ⟨look.kind, look.writable, none, false⟩)) F
  | share {src dst : PageRef} {kind : PageKind} {writable dirty whole : Bool} {bytes : PageBytes}
      (found : L src = some ⟨kind, writable, some bytes, dirty⟩) (vacant : L dst = none) :
      Move L F [.share src dst whole]
        (update L dst (some ⟨kind.twin, writable, some bytes, false⟩)) F
  | read {ref : PageRef} {look : Look} {bytes : PageBytes} {offset count : Nat}
      (found : L ref = some look) (content : look.content = some bytes)
      (fits : offset + count ≤ pageSize) :
      Move L F [.read ref offset (PageBytes.slice bytes offset count)] L F
  | write {ref : PageRef} {kind : PageKind} {dirty : Bool} {page : PageBytes} {offset : Nat}
      {bytes : Array UInt8} (found : L ref = some ⟨kind, true, some page, dirty⟩)
      (fits : offset + bytes.size ≤ pageSize) :
      Move L F [.write ref offset bytes]
        (update L ref (some ⟨kind, true, some (page.patch offset bytes), true⟩)) F
  | drop {ref : PageRef} {look : Look} (found : L ref = some look)
      (nothing : ∀ backing, look.kind = .file backing → look.content.isSome → look.writable = true →
        look.dirty = false) :
      Move L F [.drop ref] (update L ref none) F
  | dropWriting {ref : PageRef} {backing : FileBacking} {bytes : PageBytes} {moved : Nat}
      (found : L ref = some ⟨.file backing, true, some bytes, true⟩)
      (taken : F.Takes backing bytes moved) :
      Move L F [.drop ref] (update L ref none) (F.putBack backing bytes moved)

namespace Core

variable {c c' c₁ : Core} {deeds : List Deed} {ref : PageRef} {page page' : Page} {id : FrameId}
  {frame : Frame} {phys : PhysPage}

def lookOf (c : Core) (ref : PageRef) (page : Page) : Look where
  kind := page.kind
  writable := page.writable
  content := page.frame.map fun _ => c.bytes page
  dirty := c.dirty ref

def looks (c : Core) : Looks := fun ref => (c.pages.find? ref).map (c.lookOf ref)

theorem looks_found (found : c.pages.find? ref = some page) :
    c.looks ref = some (c.lookOf ref page) := by
  simp only [looks, found, Option.map_some]

theorem looks_vacant (vacant : c.pages.find? ref = none) : c.looks ref = none := by
  simp only [looks, vacant, Option.map_none]

theorem lookOf_resident (resident : page.frame = some id)
    (owned : c.frames.find? id = some frame) :
    c.lookOf ref page =
      ⟨page.kind, page.writable, some (c.memory.read frame.page), c.dirty ref⟩ := by
  simp only [lookOf, bytes_resident resident owned, resident, Option.map_some]

theorem lookOf_away (away : page.frame = none) :
    c.lookOf ref page = ⟨page.kind, page.writable, none, c.dirty ref⟩ := by
  simp only [lookOf, away, Option.map_none]

theorem dirty_of_find {mapping : Mapping} (h : c.mappings.find? ref = some mapping) :
    c.dirty ref = mapping.dirty := by
  simp only [dirty, h]

theorem dirty_none (h : c.mappings.find? ref = none) : c.dirty ref = false := by
  simp only [dirty, h]

theorem dirty_congr (h : c'.mappings.find? ref = c.mappings.find? ref) :
    c'.dirty ref = c.dirty ref := by
  simp only [dirty, h]

theorem Sound.dirty_away (h : c.Sound) (found : c.pages.find? ref = some page)
    (away : page.frame = none) : c.dirty ref = false := by
  cases hentry : c.mappings.find? ref with
  | none => exact dirty_none hentry
  | some mapping =>
      obtain ⟨p, id, frame, hp, hid, -⟩ := h.mapped ref mapping hentry
      rw [found] at hp
      cases hp
      rw [away] at hid
      exact nomatch hid

theorem looks_congr (hs : c.Sound) (unmoved : c.Unmoved c' ref) (hd : c'.dirty ref = c.dirty ref) :
    c'.looks ref = c.looks ref := by
  cases found : c.pages.find? ref with
  | none => rw [looks_vacant found, looks_vacant (unmoved.page.trans found)]
  | some page =>
      rw [looks_found found, looks_found (unmoved.page.trans found)]
      refine congrArg some ?_
      cases hf : page.frame with
      | none => rw [lookOf_away hf, lookOf_away hf, hd]
      | some id =>
          obtain ⟨frame, howned, -⟩ := hs.owned.frame_of ref page id found hf
          obtain ⟨frame', howned', hread⟩ := unmoved.frame page id frame found hf howned
          rw [lookOf_resident hf howned, lookOf_resident hf howned', hread, hd]

/-- No entry of another page that users may write through leads to the frame of a page. -/
def Shielded (c : Core) (ref : PageRef) : Prop :=
  ∀ r entry page id frame, c.mappings.find? r = some entry → entry.writable = true →
    c.pages.find? r = some page → page.frame = some id → c.frames.find? id = some frame →
      ref ∈ frame.owners → ref = r

theorem Guarded.shielded (h : c.Guarded fun _ => False) (ref : PageRef) : c.Shielded ref :=
  fun r entry page id frame mapped writable found resident owned hr =>
    (h.exclusive r entry page id frame mapped writable found resident owned ref hr).resolve_right
      not_false

theorem move_of_page {look : Look} {files : Files} (found : c'.pages.find? ref = some page')
    (look_of : c'.lookOf ref page' = look) (others : ∀ r, r ≠ ref → c'.looks r = c.looks r)
    (move : Move c.looks c.files deeds (update c.looks ref (some look)) files) :
    Move c.looks c.files deeds c'.looks files := by
  have hlooks : c'.looks = update c.looks ref (some look) := by
    funext r
    by_cases hr : r = ref
    · subst hr
      rw [looks_found found, look_of, Function.update_self]
    · rw [others r hr, Function.update_of_ne hr]
  rw [hlooks]
  exact move

namespace Sound

theorem dirty_vacant (h : c.Sound) (vacant : c.pages.find? ref = none) : c.dirty ref = false := by
  cases hentry : c.mappings.find? ref with
  | none => exact dirty_none hentry
  | some mapping =>
      obtain ⟨p, id, frame, hp, -⟩ := h.mapped ref mapping hentry
      rw [vacant] at hp
      exact nomatch hp

theorem looks_setPage (h : c.Sound) (found : c.pages.find? ref = some page)
    (hk : page'.kind = page.kind) (hw : page'.writable = page.writable)
    (hf : page'.frame = page.frame) : (c.setPage ref page').looks = c.looks := by
  funext r
  by_cases hr : r = ref
  · subst hr
    rw [looks_found found, looks_found Table.find?_insert_self]
    simp only [lookOf, bytes, hk, hw, hf]
    rfl
  · exact looks_congr h (.of_same (Table.find?_insert_of_ne hr) rfl rfl) rfl

theorem move_add (h : c.Sound) {writable : Bool} {kind : PageKind}
    (vacant : c.pages.find? ref = none) :
    Move c.looks c.files [.add ref (.fresh ref.space writable kind)]
      (c.setPage ref (.fresh ref.space writable kind)).looks c.files := by
  refine move_of_page Table.find?_insert_self ?_ (fun r hr => ?_) (.add (looks_vacant vacant))
  · exact (lookOf_away rfl).trans (congrArg _ (h.dirty_vacant vacant))
  · exact looks_congr h (.of_same (Table.find?_insert_of_ne hr) rfl rfl) rfl

theorem looks_acquire (h : c.Sound) {memory : Memory}
    (taken : c.memory.acquire? = some (phys, memory)) :
    Core.looks { c with memory, frames := (c.frames.add ⟨phys, []⟩).2 } = c.looks := by
  funext r
  exact looks_congr h (h.unmoved_acquire taken) rfl

theorem looks_others {r : PageRef} (h : c.Sound) (owned : c.frames.find? id = some frame)
    (hr : r ∉ frame.owners) (hp : c'.pages.find? r = c.pages.find? r)
    (hf : ∀ i, i ≠ id → c'.frames.find? i = c.frames.find? i)
    (hm : ∀ p, p ≠ frame.page → c'.memory.read p = c.memory.read p)
    (hd : c'.mappings.find? r = c.mappings.find? r) : c'.looks r = c.looks r :=
  looks_congr h (h.unmoved_others owned hr hp hf hm) (dirty_congr hd)

theorem move_evict (h : c.Sound) {kind : PageKind} (found : c.pages.find? ref = some page)
    (owned : c.frames.find? id = some ⟨phys, [ref]⟩)
    (saved : c.Saves (c.memory.read phys) (page.entryRef ref) page.kind kind c₁) :
    Move c.looks c.files [] ((((c₁.unmap (page.entryRef ref)).setPage ref
      { page with kind, frame := none, cow := false }).setFrame id ⟨phys, []⟩).write phys
        PageBytes.zero).looks c₁.files := by
  have resident := h.victim found owned
  have hlook := looks_found found
  rw [lookOf_resident resident owned] at hlook
  rw [h.entryRef found] at saved ⊢
  have hsaved : Saved c.files (c.memory.read phys) page.kind (c.dirty ref) kind c₁.files := by
    generalize page.kind = old at saved
    cases saved with
    | anon => exact .anon
    | clean clean => exact clean ▸ .clean
    | dirty dirty taken => exact dirty ▸ .dirty taken
  obtain ⟨swap, files, rfl⟩ := saved.core_eq
  refine move_of_page Table.find?_insert_self ?_ (fun r hr => ?_) (.evict hlook hsaved)
  · exact (lookOf_away rfl).trans (congrArg _ (dirty_none Table.find?_erase_self))
  · refine h.looks_others owned (fun hm => hr (List.mem_singleton.1 hm))
      (Table.find?_insert_of_ne hr) (fun i hi => ?_)
      (fun p hp => ?_) (Table.find?_erase_of_ne hr)
    · exact FrameTable.find?_update_of_ne hi
    · exact Memory.read_write_of_ne hp

theorem fills_loads {bytes bytes' : PageBytes} {kind kind' : PageKind}
    (filled : c.Fills ref bytes kind kind' bytes' c₁ deeds) :
    Loads c.files kind kind' bytes' ∧ (∀ d ∈ deeds, d.Settles ref) ∧ c₁.files = c.files := by
  have single {d : Deed} (hd : d.Settles ref) : ∀ e ∈ [d], e.Settles ref :=
    fun e he => List.mem_singleton.1 he ▸ hd
  cases filled with
  | zero => exact ⟨.anon rfl, nofun, rfl⟩
  | slot => exact ⟨.anon rfl, nofun, rfl⟩
  | file got_of => exact ⟨.file got_of, nofun, rfl⟩
  | newAnon => exact ⟨.anon rfl, single rfl, rfl⟩
  | newFile got_of => exact ⟨.newFile got_of, single rfl, rfl⟩
  | @made target _ _ _ made =>
      obtain ⟨programs, rfl, -⟩ := made.core_eq
      cases target with
      | anon => exact ⟨.anon rfl, single rfl, rfl⟩
      | file => exact ⟨.made, single rfl, rfl⟩

theorem move_fill (h : c.Sound) {kind : PageKind} {bytes : PageBytes}
    (found : c.pages.find? ref = some page) (away : page.frame = none)
    (free : c.frames.find? id = some ⟨phys, []⟩)
    (filled : c.Fills ref (c.memory.read phys) page.kind kind bytes c₁ deeds) :
    Move c.looks c.files deeds ((((c₁.setFrame id ⟨phys, [ref]⟩).map (page.entryRef ref)
      ⟨phys, page.writable, false⟩).write phys bytes).stamp ref
        { page with frame := some id, cow := false, kind }).looks c₁.files := by
  have hlook := looks_found found
  rw [lookOf_away away, h.dirty_away found away] at hlook
  obtain ⟨hloads, hsettles, hfiles⟩ := fills_loads filled
  obtain ⟨swap, programs, rfl, -⟩ := filled.core_eq
  rw [h.entryRef found]
  refine move_of_page Table.find?_insert_self ?_ (fun r hr => ?_) (.fill hlook hloads hsettles)
  · refine (lookOf_resident rfl FrameTable.find?_update_self).trans ?_
    have hread : (c.memory.write phys bytes).read phys = bytes :=
      Memory.read_write_self
    have hdirty := @dirty_of_find (c.map ref ⟨phys, page.writable, false⟩) ref _ Table.find?_insert_self
    exact congrArg₂ _ (congrArg some hread) hdirty
  · refine h.looks_others free List.not_mem_nil (Table.find?_insert_of_ne hr) (fun i hi => ?_)
      (fun p hp => ?_) (Table.find?_insert_of_ne hr)
    · exact FrameTable.find?_update_of_ne hi
    · exact Memory.read_write_of_ne hp

theorem looks_refuse (h : c.Sound) (found : c.pages.find? ref = some page)
    (away : page.frame = none) (free : c.frames.find? id = some ⟨phys, []⟩) :
    (((c.giveBack id phys).unmap (page.entryRef ref)).setPage ref
      { page with frame := none, cow := false }).looks = c.looks := by
  rw [h.entryRef found]
  funext r
  by_cases hr : r = ref
  · subst hr
    rw [looks_found found, looks_found Table.find?_insert_self,
      lookOf_away rfl, lookOf_away away, h.dirty_away found away]
    exact congrArg (fun d => some (Look.mk _ _ _ d)) (dirty_none Table.find?_erase_self)
  · refine h.looks_others free List.not_mem_nil (Table.find?_insert_of_ne hr) (fun i hi => ?_)
      (fun _ _ => rfl) (Table.find?_erase_of_ne hr)
    exact FrameTable.find?_remove_of_ne hi

theorem move_fail (h : c.Sound) {target : PageTarget} {init kept : Initializer} {bytes : PageBytes}
    (found : c.pages.find? ref = some page) (away : page.frame = none)
    (kind : page.kind = .uninit target (some init)) (free : c.frames.find? id = some ⟨phys, []⟩)
    (made : c.Produces (c.memory.read phys) init (bytes, false) c₁) :
    Move c.looks c.files [.fail ref kept] ((((c₁.write phys bytes).giveBack id phys).unmap
      (page.entryRef ref)).setPage ref { page with
        frame := none, cow := false, kind := .uninit target (some kept) }).looks c₁.files := by
  have hlook := looks_found found
  rw [lookOf_away away, h.dirty_away found away, kind] at hlook
  obtain ⟨programs, rfl, -⟩ := made.core_eq
  rw [h.entryRef found]
  refine move_of_page Table.find?_insert_self ?_ (fun r hr => ?_) (.fail hlook)
  · exact (lookOf_away rfl).trans (congrArg _ (dirty_none Table.find?_erase_self))
  · refine h.looks_others free List.not_mem_nil (Table.find?_insert_of_ne hr) (fun i hi => ?_)
      (fun p hp => ?_) (Table.find?_erase_of_ne hr)
    · exact FrameTable.find?_remove_of_ne hi
    · exact Memory.read_write_of_ne hp

theorem looks_copy {old new : FrameId} {shared : Frame} (h : c.Sound)
    (found : c.pages.find? ref = some page) (resident : page.frame = some old)
    (owned : c.frames.find? old = some shared) (free : c.frames.find? new = some ⟨phys, []⟩) :
    ((((c.diverge ref old shared phys).setFrame new ⟨phys, [ref]⟩).map (page.entryRef ref)
      ⟨phys, page.writable, c.dirty (page.entryRef ref)⟩).setPage ref
        { page with frame := some new, cow := false }).looks = c.looks := by
  obtain ⟨frames, memory, left, heq, hframes, hleft, -⟩ := c.diverge_eq ref old shared phys
  rw [heq, h.entryRef found]
  funext r
  by_cases hr : r = ref
  · subst hr
    rw [looks_found found, looks_found Table.find?_insert_self, lookOf_resident resident owned,
      lookOf_resident rfl FrameTable.find?_update_self]
    have hread : memory.read phys = c.memory.read shared.page :=
      (leaves_read hleft phys).trans Memory.read_write_self
    have hdirty := @dirty_of_find (c.map r ⟨phys, page.writable, c.dirty r⟩) r _ Table.find?_insert_self
    exact congrArg₂ (fun b d => some (Look.mk _ _ (some b) d)) hread hdirty
  · refine looks_congr h (h.unmoved_parted owned free hr hleft (Table.find?_insert_of_ne hr)
      (fun i hi => ?_) fun _ => rfl) (dirty_congr (Table.find?_insert_of_ne hr))
    exact (FrameTable.find?_update_of_ne hi).trans (congrFun hframes i)

theorem move_lose {old new : FrameId} {shared : Frame} (h : c.Sound)
    (found : c.pages.find? ref = some page) (owned : c.frames.find? old = some shared)
    (free : c.frames.find? new = some ⟨phys, []⟩)
    (hc : c' = ((((c.diverge ref old shared phys).giveBack new phys).unmap
      (page.entryRef ref)).setPage ref { page with frame := none, cow := false })) :
    Move c.looks c.files [.lose ref] c'.looks c'.files := by
  obtain ⟨frames, memory, left, heq, hframes, hleft, -⟩ := c.diverge_eq ref old shared phys
  rw [heq, h.entryRef found] at hc
  subst hc
  refine move_of_page Table.find?_insert_self ?_ (fun r hr => ?_) (.lose (looks_found found))
  · exact (lookOf_away rfl).trans (congrArg _ (dirty_none Table.find?_erase_self))
  · refine looks_congr h (h.unmoved_parted owned free hr hleft (Table.find?_insert_of_ne hr)
      (fun i hi => ?_) fun _ => rfl) (dirty_congr (Table.find?_erase_of_ne hr))
    exact (FrameTable.find?_remove_of_ne hi).trans (congrFun hframes i)

theorem looks_map (h : c.Sound) (writable : Bool) :
    (c.map ref ⟨phys, writable, c.dirty ref⟩).looks = c.looks := by
  funext r
  refine looks_congr h (.of_same rfl rfl rfl) ?_
  by_cases hr : r = ref
  · subst hr
    exact @dirty_of_find (c.map r ⟨phys, writable, c.dirty r⟩) r _ Table.find?_insert_self
  · exact dirty_congr (Table.find?_insert_of_ne hr)

theorem move_share {src dst : PageRef} {whole : Bool} (h : c.Sound)
    (found : c.pages.find? src = some page) (vacant : c.pages.find? dst = none)
    (resident : page.frame = some id) (owned : c.frames.find? id = some frame) :
    Move c.looks c.files [.share src dst whole] (c.share src dst page id frame).looks c.files := by
  obtain ⟨hsrc, hdst, hframe⟩ := @share_find page id frame c src dst (ne_of_found found vacant)
  have hlook := looks_found found
  rw [lookOf_resident resident owned] at hlook
  refine move_of_page hdst ((lookOf_resident rfl hframe).trans ?_) (fun r hr => ?_)
    (.share hlook (looks_vacant vacant))
  · exact congrArg _ (h.dirty_vacant vacant)
  · by_cases hs : r = src
    · subst hs
      rw [looks_found found, looks_found hsrc, lookOf_resident resident owned]
      exact congrArg some (@lookOf_resident (c.share r dst page id frame) r
        { page with cow := true } id { frame with owners := frame.owners ++ [dst] } resident hframe)
    · exact looks_congr h (unmoved_share found vacant owned hs hr) rfl

theorem looks_mapShared {src dst : PageRef} (h : c.Sound) (found : c.pages.find? src = some page)
    (vacant : c.pages.find? dst = none) (resident : page.frame = some id)
    (owned : c.frames.find? id = some frame) :
    ((c.share src dst page id frame).mapShared (page.entryRef src) frame.page).looks =
      (c.share src dst page id frame).looks :=
  (h.share found vacant resident owned).looks_map false

theorem looks_entered {src dst : PageRef} (h : c.Sound) (found : c.pages.find? src = some page)
    (vacant : c.pages.find? dst = none) (resident : page.frame = some id)
    (owned : c.frames.find? id = some frame) :
    (((c.share src dst page id frame).mapShared (page.entryRef src) frame.page).map dst
      ⟨frame.page, false, false⟩).looks =
        ((c.share src dst page id frame).mapShared (page.entryRef src) frame.page).looks := by
  have hclean : ((c.share src dst page id frame).mapShared (page.entryRef src) frame.page).dirty
      dst = false := by
    rw [h.entryRef found]
    have hne := ne_of_found found vacant
    have hsame := @dirty_congr c ((c.share src dst page id frame).mapShared src frame.page) dst
      (Table.find?_insert_of_ne hne)
    rw [hsame]
    exact h.dirty_vacant vacant
  have hmap := @looks_map _ dst frame.page (h.mapShared found vacant resident owned) false
  rw [hclean] at hmap
  exact hmap

theorem looks_store {r : PageRef} {mapping : Mapping} {bytes : PageBytes} (h : c.Sound)
    (shielded : c.Shielded r) (mapped : c.mappings.find? ref = some mapping)
    (writable : mapping.writable = true) (hr : r ≠ ref) :
    (c.store ref mapping.page bytes).looks r = c.looks r := by
  obtain ⟨page, id, frame, found, resident, owned, hphys, -⟩ := h.mapped ref mapping mapped
  rw [← hphys]
  refine h.looks_others owned (fun hm => hr ?_) rfl (fun _ _ => rfl) (fun _ => Memory.read_write_of_ne)
    (Table.find?_modify_of_ne hr)
  exact shielded ref mapping page id frame mapped writable found resident owned hm

theorem move_write (h : c.Sound) {mapping : Mapping} {offset : Nat} {bytes : Array UInt8}
    (hg : c.Guarded fun _ => False) (mapped : c.mappings.find? ref = some mapping)
    (writable : mapping.writable = true) (fits : offset + bytes.size ≤ pageSize) :
    Move c.looks c.files [.write ref offset bytes] (c.store ref mapping.page
      (PageBytes.patch (c.memory.read mapping.page) offset bytes)).looks c.files := by
  obtain ⟨page, id, frame, found, resident, owned, hphys, hwritable⟩ := h.mapped ref mapping mapped
  have hlook := looks_found found
  rw [lookOf_resident resident owned, hwritable writable] at hlook
  have hothers (r : PageRef) (hr : r ≠ ref) : (c.store ref mapping.page (PageBytes.patch
      (c.memory.read mapping.page) offset bytes)).looks r = c.looks r :=
    h.looks_store (hg.shielded r) mapped writable hr
  rw [← hphys] at hothers ⊢
  refine move_of_page found ?_ hothers (.write hlook fits)
  rw [@lookOf_resident (c.store ref frame.page _) ref page id frame resident owned]
  have hread : (c.memory.write frame.page (PageBytes.patch (c.memory.read frame.page) offset
      bytes)).read frame.page = PageBytes.patch (c.memory.read frame.page) offset bytes :=
    Memory.read_write_self
  have hdirty : (c.store ref frame.page (PageBytes.patch (c.memory.read frame.page) offset
      bytes)).dirty ref = true := by
    refine @dirty_of_find _ ref { mapping with dirty := true }
      ((Table.find?_modify _ _ _ _).trans ?_)
    rw [if_pos rfl, mapped]
    rfl
  rw [hwritable writable]
  exact congrArg₂ _ (congrArg some hread) hdirty

theorem looks_dropped {files : Files} {swap : SwapArea} (h : c.Sound) {r : PageRef} (hr : r ≠ ref) :
    Core.looks { c with pages := c.pages.erase ref, swap, files } r = c.looks r :=
  looks_congr h (.of_same (Table.find?_erase_of_ne hr) rfl rfl) rfl

theorem looks_gone {files : Files} (vacant : c'.pages.find? ref = none)
    (others : ∀ r, r ≠ ref → c'.looks r = c.looks r)
    (move : Move c.looks c.files deeds (update c.looks ref none) files) :
    Move c.looks c.files deeds c'.looks files := by
  have hlooks : c'.looks = update c.looks ref none := by
    funext r
    by_cases hr : r = ref
    · subst hr
      rw [looks_vacant vacant, Function.update_self]
    · rw [others r hr, Function.update_of_ne hr]
  rw [hlooks]
  exact move

theorem move_dropAway (h : c.Sound) (found : c.pages.find? ref = some page)
    (away : page.frame = none) {entry : PageRef}
    (disposed : Disposes { c with pages := c.pages.erase ref } page entry c₁) :
    Move c.looks c.files [.drop ref] c₁.looks c₁.files := by
  have hlook := looks_found found
  rw [lookOf_away away] at hlook
  have hfiles : c₁.files = c.files := by
    cases disposed with
    | file _ resident => rw [away] at resident; exact nomatch resident
    | _ => rfl
  obtain ⟨swap, files, rfl⟩ := disposed.core_eq
  rw [show files = c.files from hfiles]
  refine looks_gone Table.find?_erase_self (fun r hr => h.looks_dropped hr) (.drop hlook ?_)
  exact fun backing _ hcontent => nomatch hcontent

theorem move_drop (h : c.Sound) (found : c.pages.find? ref = some page)
    (resident : page.frame = some id) (owned : c.frames.find? id = some frame)
    (disposed : Disposes { c with pages := c.pages.erase ref } page (page.entryRef ref) c₁)
    (hc : c' = (c₁.unmap (page.entryRef ref)).disown id frame ref) :
    Move c.looks c.files [.drop ref] c'.looks c'.files := by
  have hlook := looks_found found
  rw [lookOf_resident resident owned] at hlook
  rw [h.entryRef found] at disposed hc
  have hmove : Move c.looks c.files [.drop ref] (update c.looks ref none) c₁.files := by
    cases disposed with
    | nothing no_slot no_write =>
        exact .drop hlook fun backing hk _ hw => no_write backing id hk resident hw
    | slot kind freed => exact (h.no_slot found resident _ kind).elim
    | @file backing id' frame' moved kind resident' found' writable dirty taken =>
        rw [resident] at resident'
        cases resident'
        replace found' : c.frames.find? id = some frame' := found'
        rw [owned] at found'
        cases found'
        rw [kind, writable, show c.dirty ref = true from dirty] at hlook
        exact .dropWriting hlook taken
  obtain ⟨swap, files, rfl⟩ := disposed.core_eq
  obtain ⟨frames, memory, left, heq, hframes, hleft, -⟩ := disown_eq
    (Core.unmap { c with pages := c.pages.erase ref, swap, files } ref) id frame ref
  rw [heq] at hc
  subst hc
  refine looks_gone Table.find?_erase_self (fun r hr => ?_) hmove
  exact looks_congr h (h.unmoved_left owned hr hleft (Table.find?_erase_of_ne hr) hframes rfl)
    (dirty_congr (Table.find?_erase_of_ne hr))

end Sound

theorem move_still (looks : c'.looks = c.looks) (files : c'.files = c.files) :
    Move c.looks c.files [] c'.looks c'.files := by
  rw [looks, files]
  exact .still

theorem Step.move (h : Step c deeds c') (hs : c.Sound)
    (hg : (∃ d ∈ deeds, d.IsWrite) → c.Guarded fun _ => False) :
    Move c.looks c.files deeds c'.looks c'.files := by
  cases h with
  | @touch ref page found =>
      refine move_still ?_ rfl
      exact @Sound.looks_setPage c ref page _ hs found rfl rfl rfl
  | learn => exact .still
  | chart => exact .chart
  | add vacant => exact hs.move_add vacant
  | acquire taken => exact move_still (hs.looks_acquire taken) rfl
  | spoil found kind owned dirty taken short =>
      have hlook := looks_found found
      rw [lookOf_resident (hs.victim found owned) owned, kind] at hlook
      rw [hs.entryRef found] at dirty
      rw [dirty] at hlook
      exact .spoil hlook taken short
  | evict found owned saved => exact hs.move_evict found owned saved
  | fill found away free filled => exact hs.move_fill found away free filled
  | refuse found away free => exact move_still (hs.looks_refuse found away free) rfl
  | fail found away kind free made => exact hs.move_fail found away kind free made
  | copy found resident owned many free =>
      exact move_still (hs.looks_copy found resident owned free) (disown_apart _ _ _ _).2.2.2
  | lose found resident owned many free => exact hs.move_lose found owned free rfl
  | own found => exact move_still (hs.looks_setPage found rfl rfl rfl) rfl
  | remap found resident owned =>
      rw [hs.entryRef found, hs.looks_map]
      exact .still
  | @share src dst page id frame found used vacant resident owned =>
      have hmove := @Sound.move_share c page id frame src dst true hs found vacant resident owned
      have hshared := hs.looks_mapShared found vacant resident owned
      have hentered := hs.looks_entered found vacant resident owned
      rw [← hshared, ← hentered] at hmove
      exact hmove
  | @shareHalf src dst page id frame s k found used vacant resident owned refused c' mapped =>
      have hmove := @Sound.move_share c page id frame src dst false hs found vacant resident owned
      rcases mapped with rfl | rfl
      · exact hmove
      · rw [← hs.looks_mapShared found vacant resident owned] at hmove
        exact hmove
  | read mapped fits =>
      obtain ⟨page, id, frame, found, resident, owned, hphys, -⟩ := hs.mapped _ _ mapped
      have hlook := looks_found found
      rw [lookOf_resident resident owned, hphys] at hlook
      exact .read hlook rfl fits
  | write mapped writable fits =>
      exact hs.move_write (hg ⟨_, List.mem_cons_self, trivial⟩) mapped writable fits
  | dropAway found away disposed => exact hs.move_dropAway found away disposed
  | drop found resident owned disposed => exact hs.move_drop found resident owned disposed rfl

end Core

end DemandPaging
