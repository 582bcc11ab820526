import DemandPaging.Proofs.Guarded

/-!
What the pages hold, wherever the pager keeps it: in memory, in the swap area, or nowhere while it
is all zero. `Core.flat` shows the anonymous pages, each with bytes of its own.
-/

namespace DemandPaging

open Function (update)

/-- A page as its users know it; of a file page it only says that there is one. -/
inductive Cell where
  | pending (init : Option Initializer)
  | live (bytes : PageBytes)
  | file

abbrev Flat : Type := PageRef → Option Cell

namespace Cell

def made (bytes : PageBytes) : Cell → Cell
  | file => file
  | _ => live bytes

def failed (kept : Initializer) : Cell → Cell
  | file => file
  | _ => pending (some kept)

def patched (offset : Nat) (bytes : Array UInt8) : Cell → Cell
  | live page => live (page.patch offset bytes)
  | cell => cell

end Cell

def PageKind.freshCell : PageKind → Cell
  | .uninit .anon init => .pending init
  | .uninit (.file _) _ => .file
  | .anon _ => .live PageBytes.zero
  | .file _ => .file

namespace Deed

def IsWrite : Deed → Prop
  | write _ _ _ => True
  | _ => False

def apply (F : Flat) : Deed → Flat
  | add ref page => update F ref (some page.kind.freshCell)
  | make ref _ bytes => update F ref ((F ref).map (.made bytes))
  | fail ref kept => update F ref ((F ref).map (.failed kept))
  | read _ _ _ => F
  | write ref offset bytes => update F ref ((F ref).map (.patched offset bytes))
  | share src dst _ => update F dst (F src)
  | lose ref => update F ref ((F ref).map (.made PageBytes.zero))
  | drop ref => update F ref none
  | chart _ => F

def applyAll (F : Flat) (deeds : List Deed) : Flat := deeds.foldl apply F

theorem applyAll_append (F : Flat) (ds es : List Deed) :
    applyAll F (ds ++ es) = applyAll (applyAll F ds) es :=
  List.foldl_append

def target : Deed → Option PageRef
  | add ref _ | make ref _ _ | fail ref _ | write ref _ _ | share _ ref _ | lose ref | drop ref =>
      some ref
  | read _ _ _ | chart _ => none

theorem apply_apart {F : Flat} {d : Deed} {ref : PageRef} (h : d.target ≠ some ref) :
    d.apply F ref = F ref := by
  cases d with
  | read | chart => rfl
  | _ => exact Function.update_of_ne (fun he => h (congrArg some he.symm)) _ _

theorem applyAll_apart {F : Flat} {ds : List Deed} {ref : PageRef}
    (h : ∀ d ∈ ds, d.target ≠ some ref) : applyAll F ds ref = F ref := by
  induction ds generalizing F with
  | nil => rfl
  | cons d ds ih =>
      have hrest := @ih (d.apply F) fun e he => h e (List.mem_cons_of_mem d he)
      exact hrest.trans (apply_apart (h d List.mem_cons_self))

theorem apply_none {F : Flat} {d : Deed} {ref : PageRef} (hF : F ref = none)
    (hadd : ∀ page, d ≠ .add ref page) (hshare : ∀ src whole, d ≠ .share src ref whole) :
    d.apply F ref = none := by
  by_cases ht : d.target = some ref
  · cases d with
    | add => cases ht; exact (hadd _ rfl).elim
    | share => cases ht; exact (hshare _ _ rfl).elim
    | read | chart => exact hF
    | drop => cases ht; exact Function.update_self _ _ _
    | _ =>
        cases ht
        refine (Function.update_self _ _ _).trans ?_
        rw [hF]
        rfl
  · rw [apply_apart ht, hF]

theorem applyAll_none {F : Flat} {ds : List Deed} {ref : PageRef} (hF : F ref = none)
    (hadd : ∀ page, .add ref page ∉ ds) (hshare : ∀ src whole, .share src ref whole ∉ ds) :
    applyAll F ds ref = none := by
  induction ds generalizing F with
  | nil => exact hF
  | cons d ds ih =>
      refine ih (apply_none hF (fun page he => ?_) fun src whole he => ?_) (fun page hm => ?_)
        fun src whole hm => ?_
      · exact hadd page (he ▸ List.mem_cons_self)
      · exact hshare src whole (he ▸ List.mem_cons_self)
      · exact hadd page (List.mem_cons_of_mem d hm)
      · exact hshare src whole (List.mem_cons_of_mem d hm)

end Deed

namespace Core

def bytes (c : Core) (page : Page) : PageBytes :=
  match page.frame, page.kind with
  | some id, _ =>
      match c.frames.find? id with
      | some frame => c.memory.read frame.page
      | none => PageBytes.zero
  | none, .anon (some slot) => c.swap.pageIn slot
  | none, _ => PageBytes.zero

def cell (c : Core) (page : Page) : Cell :=
  match page.kind with
  | .uninit .anon init => .pending init
  | .uninit (.file _) _ => .file
  | .anon _ => .live (c.bytes page)
  | .file _ => .file

def flat (c : Core) : Flat := fun ref => (c.pages.find? ref).map c.cell

variable {c c' c₁ : Core} {deeds : List Deed} {ref dst : PageRef} {page page' : Page} {id : FrameId}
  {frame : Frame} {phys : PhysPage} {slot : SwapSlot}

theorem bytes_resident (resident : page.frame = some id) (owned : c.frames.find? id = some frame) :
    c.bytes page = c.memory.read frame.page := by
  simp only [bytes, resident, owned]

theorem bytes_slot (away : page.frame = none) (kind : page.kind = .anon (some slot)) :
    c.bytes page = c.swap.pageIn slot := by
  simp only [bytes, away, kind]

theorem bytes_none (away : page.frame = none) (no_slot : ∀ slot, page.kind ≠ .anon (some slot)) :
    c.bytes page = PageBytes.zero := by
  unfold bytes
  rw [away]
  split
  · next h => exact nomatch h
  · next slot _ hk => exact (no_slot slot hk).elim
  · rfl

theorem flat_found (found : c.pages.find? ref = some page) : c.flat ref = some (c.cell page) := by
  simp only [flat, found, Option.map_some]

theorem flat_vacant (vacant : c.pages.find? ref = none) : c.flat ref = none := by
  simp only [flat, vacant, Option.map_none]

theorem flat_eq_none : c.flat ref = none ↔ c.pages.find? ref = none :=
  Option.map_eq_none_iff

/-- A page is the same before and after, and so is what stands in its frame. -/
structure Unmoved (c c' : Core) (ref : PageRef) : Prop where
  page : c'.pages.find? ref = c.pages.find? ref
  frame : ∀ page id frame, c.pages.find? ref = some page → page.frame = some id →
    c.frames.find? id = some frame → ∃ frame', c'.frames.find? id = some frame' ∧
      c'.memory.read frame'.page = c.memory.read frame.page

theorem Unmoved.of_same (hp : c'.pages.find? ref = c.pages.find? ref) (hf : c'.frames = c.frames)
    (hm : c'.memory = c.memory) : c.Unmoved c' ref :=
  ⟨hp, fun _ _ frame _ _ owned => ⟨frame, hf ▸ owned, by rw [hm]⟩⟩

theorem bytes_congr (hs : c.Sound) (found : c.pages.find? ref = some page) (unmoved : c.Unmoved c' ref)
    (hslot : ∀ slot, page.kind = .anon (some slot) → c'.swap.pageIn slot = c.swap.pageIn slot) :
    c'.bytes page = c.bytes page := by
  cases hf : page.frame with
  | some id =>
      obtain ⟨frame, howned, -⟩ := hs.owned.frame_of ref page id found hf
      obtain ⟨frame', howned', hread⟩ := unmoved.frame page id frame found hf howned
      rw [bytes_resident hf howned, bytes_resident hf howned', hread]
  | none =>
      by_cases hk : ∃ slot, page.kind = .anon (some slot)
      · obtain ⟨slot, hk⟩ := hk
        rw [bytes_slot hf hk, bytes_slot hf hk, hslot slot hk]
      · rw [bytes_none hf fun slot h => hk ⟨slot, h⟩, bytes_none hf fun slot h => hk ⟨slot, h⟩]

theorem cell_congr (hk : page'.kind = page.kind) (hb : c'.bytes page' = c.bytes page) :
    c'.cell page' = c.cell page := by
  simp only [cell, hk, hb]

theorem bytes_away (away' : page'.frame = none) (away : page.frame = none)
    (hk : page'.kind = page.kind) (hs : c'.swap = c.swap) : c'.bytes page' = c.bytes page := by
  by_cases hslot : ∃ slot, page.kind = .anon (some slot)
  · obtain ⟨slot, hslot⟩ := hslot
    rw [bytes_slot away hslot, bytes_slot away' (hk.trans hslot), hs]
  · rw [bytes_none away fun slot h => hslot ⟨slot, h⟩,
      bytes_none away' fun slot h => hslot ⟨slot, hk.symm.trans h⟩]

theorem flat_congr (hs : c.Sound) (unmoved : c.Unmoved c' ref)
    (hslot : ∀ page slot, c.pages.find? ref = some page → page.kind = .anon (some slot) →
      c'.swap.pageIn slot = c.swap.pageIn slot) : c'.flat ref = c.flat ref := by
  cases found : c.pages.find? ref with
  | none => rw [flat_vacant found, flat_vacant (unmoved.page.trans found)]
  | some page =>
      rw [flat_found found, flat_found (unmoved.page.trans found)]
      exact congrArg some (cell_congr rfl (bytes_congr hs found unmoved fun slot => hslot page slot found))

namespace Sound

theorem phys_ne {i : FrameId} {f : Frame} (h : c.Sound) (owned : c.frames.find? id = some frame)
    (found : c.frames.find? i = some f) (hne : i ≠ id) : f.page ≠ frame.page :=
  fun he => hne (h.pooled.inj i id f frame found owned he)

theorem frame_ne {r : PageRef} {i : FrameId} (h : c.Sound) (owned : c.frames.find? id = some frame)
    (hr : r ∉ frame.owners) (found : c.pages.find? r = some page) (resident : page.frame = some i) :
    i ≠ id := by
  rintro rfl
  exact hr (h.owner found resident owned)

theorem unmoved_others {r : PageRef} (h : c.Sound) (owned : c.frames.find? id = some frame)
    (hr : r ∉ frame.owners) (hp : c'.pages.find? r = c.pages.find? r)
    (hf : ∀ i, i ≠ id → c'.frames.find? i = c.frames.find? i)
    (hm : ∀ p, p ≠ frame.page → c'.memory.read p = c.memory.read p) : c.Unmoved c' r := by
  refine ⟨hp, fun page i f found resident howned => ?_⟩
  have hne := h.frame_ne owned hr found resident
  exact ⟨f, (hf i hne).trans howned, hm _ (h.phys_ne owned howned hne)⟩

theorem unmoved_acquire {r : PageRef} {memory : Memory} (h : c.Sound)
    (taken : c.memory.acquire? = some (phys, memory)) :
    c.Unmoved { c with memory, frames := (c.frames.add ⟨phys, []⟩).2 } r := by
  obtain ⟨-, hnew, hfind, -⟩ := h.add_frame ⟨phys, []⟩
  refine ⟨rfl, fun page i f _ _ owned => ⟨f, ?_, h.pooled.acquire_read taken owned⟩⟩
  have hi : i ≠ (c.frames.add ⟨phys, []⟩).1 := by
    rintro rfl
    rw [hnew] at owned
    exact nomatch owned
  exact (congrFun hfind i).trans ((Function.update_of_ne hi _ _).trans owned)

theorem leaves_read {shared : Frame} {memory memory' : Memory} {left : Option Frame}
    (hleft : Leaves shared ref memory left memory') (p : PhysPage) :
    memory'.read p = memory.read p := by
  cases hleft <;> rfl

theorem leaves_stay {r : PageRef} {i old : FrameId} {f shared : Frame} {memory memory' : Memory}
    {left : Option Frame} (h : c.Sound) (owned : c.frames.find? old = some shared)
    (hleft : Leaves shared ref memory left memory') (hr : r ≠ ref)
    (found : c.pages.find? r = some page) (resident : page.frame = some i)
    (hf : c.frames.find? i = some f) :
    ∃ f', update c.frames.find? old left i = some f' ∧ f'.page = f.page := by
  by_cases hi : i = old
  · subst hi
    have hmem := h.owner found resident hf
    have hsame : shared = f := Option.some.inj (owned.symm.trans hf)
    subst hsame
    rw [Function.update_self]
    cases hleft with
    | others => exact ⟨_, rfl, rfl⟩
    | nobody empty =>
        -- the frame would be given back only if nobody else were in it
        have hstill : r ∈ shared.owners.filter (· ≠ ref) :=
          List.mem_filter.2 ⟨hmem, decide_eq_true hr⟩
        rw [List.isEmpty_iff.1 empty] at hstill
        exact nomatch hstill
  · rw [Function.update_of_ne hi]
    exact ⟨f, hf, rfl⟩

theorem unmoved_parted {r : PageRef} {old new : FrameId} {shared : Frame} {memory : Memory}
    {bytes : PageBytes} {left : Option Frame} (h : c.Sound) (owned : c.frames.find? old = some shared)
    (free : c.frames.find? new = some ⟨phys, []⟩) (hr : r ≠ ref)
    (hleft : Leaves shared ref (c.memory.write phys bytes) left memory)
    (hp : c'.pages.find? r = c.pages.find? r)
    (hf : ∀ i, i ≠ new → c'.frames.find? i = update c.frames.find? old left i)
    (hm : ∀ p, c'.memory.read p = memory.read p) : c.Unmoved c' r := by
  refine ⟨hp, fun page i f found resident howned => ?_⟩
  obtain ⟨f', hf', hphys⟩ := h.leaves_stay owned hleft hr found resident howned
  have hne := h.frame_ne free List.not_mem_nil found resident
  refine ⟨f', (hf i hne).trans hf', ?_⟩
  rw [hm, hphys, leaves_read hleft, Memory.read_write, if_neg (Ne.symm (h.phys_ne free howned hne))]

theorem unmoved_left {r : PageRef} {memory : Memory} {left : Option Frame} (h : c.Sound)
    (owned : c.frames.find? id = some frame) (hr : r ≠ ref)
    (hleft : Leaves frame ref c.memory left memory) (hp : c'.pages.find? r = c.pages.find? r)
    (hf : c'.frames.find? = update c.frames.find? id left) (hm : c'.memory = memory) :
    c.Unmoved c' r := by
  refine ⟨hp, fun page i f found resident howned => ?_⟩
  obtain ⟨f', hf', hphys⟩ := h.leaves_stay owned hleft hr found resident howned
  exact ⟨f', (congrFun hf i).trans hf', by rw [hm, hphys, leaves_read hleft]⟩

theorem unmoved_share {r src : PageRef} (found : c.pages.find? src = some page)
    (vacant : c.pages.find? dst = none) (owned : c.frames.find? id = some frame) (hs : r ≠ src)
    (hd : r ≠ dst) : c.Unmoved (c.share src dst page id frame) r := by
  obtain ⟨-, -, hframe⟩ := @share_find page id frame c src dst (ne_of_found found vacant)
  refine ⟨?_, fun p i f _ _ hf => ?_⟩
  · refine (Table.find?_insert_of_ne hs).trans ?_
    exact Table.find?_insert_of_ne hd
  · by_cases hi : i = id
    · subst hi
      cases Option.some.inj (owned.symm.trans hf)
      exact ⟨_, hframe, rfl⟩
    · exact ⟨f, (FrameTable.find?_update_of_ne hi).trans hf, rfl⟩

theorem flat_setPage (h : c.Sound) (found : c.pages.find? ref = some page)
    (hk : page'.kind = page.kind) (hf : page'.frame = page.frame) :
    (c.setPage ref page').flat = c.flat := by
  funext r
  by_cases hr : r = ref
  · subst hr
    rw [flat_found found, flat_found Table.find?_insert_self]
    refine congrArg some (cell_congr hk ?_)
    simp only [bytes, hk, hf]
    rfl
  · exact flat_congr h (.of_same (Table.find?_insert_of_ne hr) rfl rfl) fun _ _ _ _ => rfl

theorem flat_add (h : c.Sound) {writable : Bool} {kind : PageKind}
    (no_slot : ∀ slot, kind ≠ .anon (some slot)) :
    (c.setPage ref (.fresh ref.space writable kind)).flat =
      Deed.applyAll c.flat [.add ref (.fresh ref.space writable kind)] := by
  funext r
  by_cases hr : r = ref
  · subst hr
    rw [flat_found Table.find?_insert_self]
    simp only [Deed.applyAll, List.foldl_cons, List.foldl_nil, Deed.apply, Function.update_self, cell,
      Page.fresh]
    cases kind with
    | uninit target => cases target <;> rfl
    | anon slot =>
        rw [bytes_none rfl no_slot]
        rfl
    | file => rfl
  · have hdeed : Deed.applyAll c.flat [.add ref (.fresh ref.space writable kind)] r = c.flat r :=
      Function.update_of_ne hr _ _
    rw [hdeed]
    exact flat_congr h (.of_same (Table.find?_insert_of_ne hr) rfl rfl) fun _ _ _ _ => rfl

theorem flat_acquire (h : c.Sound) {memory : Memory}
    (taken : c.memory.acquire? = some (phys, memory)) :
    Core.flat { c with memory, frames := (c.frames.add ⟨phys, []⟩).2 } = c.flat := by
  funext r
  exact flat_congr h (h.unmoved_acquire taken) fun _ _ _ _ => rfl

theorem evict_bytes (h : c.Sound) {bytes : PageBytes} {taken swap : SwapArea}
    (free : c.swap.allocSlot? = some (slot, taken)) (stored : taken.writeSlot slot bytes = .ok swap) :
    swap.pageIn slot = bytes ∧ ∀ r page other, c.pages.find? r = some page →
      page.kind = .anon (some other) → swap.pageIn other = c.swap.pageIn other := by
  obtain ⟨hfree, -, hlt, hdisk, -⟩ := SwapArea.allocSlot?_some free
  have hd : taken.disk ≠ none := by
    rw [hdisk]
    intro hn
    rw [h.slotted.backed hn] at hlt
    exact nomatch hlt
  obtain ⟨hread, hother, -⟩ := SwapArea.writeSlot_ok hd stored
  refine ⟨hread, fun r p other found hk => ?_⟩
  have hne : other ≠ slot := by
    rintro rfl
    have hheld := (h.slotted.held r p other found hk).1
    rw [hfree] at hheld
    exact nomatch hheld
  rw [hother other hne]
  simp only [SwapArea.pageIn, hdisk]

theorem saves_pageIn {bytes : PageBytes} {entry : PageRef} {kind kind' : PageKind} (h : c.Sound)
    (saved : c.Saves bytes entry kind kind' c₁) : ∀ r page other,
      c.pages.find? r = some page → page.kind = .anon (some other) →
        c₁.swap.pageIn other = c.swap.pageIn other := by
  cases saved with
  | anon free stored => exact (h.evict_bytes free stored).2
  | clean => exact fun _ _ _ _ _ => rfl
  | dirty => exact fun _ _ _ _ _ => rfl

theorem flat_evict (h : c.Sound) {kind : PageKind} (found : c.pages.find? ref = some page)
    (owned : c.frames.find? id = some ⟨phys, [ref]⟩)
    (saved : c.Saves (c.memory.read phys) (page.entryRef ref) page.kind kind c₁) :
    ((((c₁.unmap (page.entryRef ref)).setPage ref
      { page with kind, frame := none, cow := false }).setFrame id ⟨phys, []⟩).write phys
        PageBytes.zero).flat = c.flat := by
  have hbytes := bytes_resident (h.victim found owned) owned
  have hslots := h.saves_pageIn saved
  funext r
  by_cases hr : r = ref
  · subst hr
    rw [flat_found found, flat_found Table.find?_insert_self]
    generalize hk : page.kind = old at saved
    cases saved with
    | anon free stored =>
        have hread := (h.evict_bytes free stored).1
        simp only [cell, hk, hbytes]
        rw [bytes_slot rfl rfl]
        exact congrArg (some ∘ Cell.live) hread
    | clean => simp only [cell, hk]
    | dirty => simp only [cell, hk]
  · obtain ⟨swap, files, rfl⟩ := saved.core_eq
    exact flat_congr h (h.unmoved_others owned (fun hm => hr (List.mem_singleton.1 hm))
      (Table.find?_insert_of_ne hr) (fun _ => FrameTable.find?_update_of_ne)
      fun _ => Memory.read_write_of_ne) (hslots r)

theorem fills_pageIn {bytes bytes' : PageBytes} {kind kind' : PageKind}
    (filled : c.Fills ref bytes kind kind' bytes' c₁ deeds) (slot : SwapSlot) :
    c₁.swap.pageIn slot = c.swap.pageIn slot := by
  cases filled with
  | slot stored freed =>
      obtain ⟨-, -, hdisk, -⟩ := SwapArea.freeSlot_ok freed
      simp only [SwapArea.pageIn, hdisk]
  | made made =>
      obtain ⟨programs, rfl, -⟩ := made.core_eq
      rfl
  | _ => rfl

theorem fills_cell {bytes' : PageBytes} {kind : PageKind} (h : c.Sound)
    (found : c.pages.find? ref = some page) (away : page.frame = none)
    (filled : c.Fills ref PageBytes.zero page.kind kind bytes' c₁ deeds) (hb : c'.bytes page' = bytes')
    (hk : page'.kind = kind) : some (c'.cell page') = Deed.applyAll c.flat deeds ref := by
  have hflat := flat_found found
  generalize hold : page.kind = old at filled
  cases filled with
  | zero =>
      have hzero := @bytes_none c page away fun slot hs => nomatch hold.symm.trans hs
      simp only [Deed.applyAll, List.foldl_nil, hflat, cell, hold, hk, hb, hzero]
  | slot stored freed =>
      have hd := (h.slotted.held ref page _ found hold).2.2
      rw [SwapArea.readSlot_ok hd stored] at hb
      simp only [Deed.applyAll, List.foldl_nil, hflat, cell, hold, hk, hb, bytes_slot away hold]
  | file => simp only [Deed.applyAll, List.foldl_nil, hflat, cell, hold, hk]
  | newAnon =>
      simp only [Deed.applyAll, List.foldl_cons, List.foldl_nil, Deed.apply, hflat, cell, hold, hk, hb,
        Function.update_self, Option.map_some, Cell.made]
  | newFile =>
      simp only [Deed.applyAll, List.foldl_cons, List.foldl_nil, Deed.apply, hflat, cell, hold, hk,
        Function.update_self, Option.map_some, Cell.made]
  | @made target =>
      cases target <;> simp only [Deed.applyAll, List.foldl_cons, List.foldl_nil, Deed.apply, hflat,
        cell, hold, hk, hb, Function.update_self, Option.map_some, PageTarget.kind, Cell.made]

theorem fills_other {r : PageRef} {bytes bytes' : PageBytes} {kind kind' : PageKind}
    (filled : c.Fills ref bytes kind kind' bytes' c₁ deeds) (hr : r ≠ ref) (F : Flat) :
    Deed.applyAll F deeds r = F r := by
  cases filled with
  | newAnon => exact Function.update_of_ne hr _ _
  | newFile => exact Function.update_of_ne hr _ _
  | made => exact Function.update_of_ne hr _ _
  | _ => rfl

theorem flat_fill (h : c.Sound) {kind : PageKind} {bytes : PageBytes}
    (found : c.pages.find? ref = some page) (away : page.frame = none)
    (free : c.frames.find? id = some ⟨phys, []⟩)
    (filled : c.Fills ref (c.memory.read phys) page.kind kind bytes c₁ deeds) :
    ((((c₁.setFrame id ⟨phys, [ref]⟩).map (page.entryRef ref) ⟨phys, page.writable, false⟩).write phys
      bytes).stamp ref { page with frame := some id, cow := false, kind }).flat =
        Deed.applyAll c.flat deeds := by
  rw [h.pooled.clear id phys free] at filled
  have hslots := fills_pageIn filled
  have hcore := filled.core_eq
  funext r
  by_cases hr : r = ref
  · subst hr
    rw [flat_found Table.find?_insert_self]
    refine h.fills_cell found away filled ?_ rfl
    rw [bytes_resident rfl FrameTable.find?_update_self]
    exact Memory.read_write_self
  · rw [fills_other filled hr]
    obtain ⟨swap, programs, rfl, -⟩ := hcore
    exact flat_congr h (h.unmoved_others free List.not_mem_nil (Table.find?_insert_of_ne hr)
      (fun _ => FrameTable.find?_update_of_ne) fun _ => Memory.read_write_of_ne)
      fun _ slot _ _ => hslots slot

theorem flat_refuse (h : c.Sound) (found : c.pages.find? ref = some page) (away : page.frame = none)
    (free : c.frames.find? id = some ⟨phys, []⟩) :
    (((c.giveBack id phys).unmap (page.entryRef ref)).setPage ref
      { page with frame := none, cow := false }).flat = c.flat := by
  funext r
  by_cases hr : r = ref
  · subst hr
    rw [flat_found found, flat_found Table.find?_insert_self]
    exact congrArg some (cell_congr rfl (bytes_away rfl away rfl rfl))
  · exact flat_congr h (h.unmoved_others free List.not_mem_nil (Table.find?_insert_of_ne hr)
      (fun _ => FrameTable.find?_remove_of_ne) fun _ _ => rfl)
      fun _ _ _ _ => rfl

theorem flat_fail (h : c.Sound) {target : PageTarget} {init kept : Initializer} {bytes : PageBytes}
    (found : c.pages.find? ref = some page)
    (kind : page.kind = .uninit target (some init)) (free : c.frames.find? id = some ⟨phys, []⟩)
    (made : c.Produces (c.memory.read phys) init (bytes, false) c₁) :
    ((((c₁.write phys bytes).giveBack id phys).unmap (page.entryRef ref)).setPage ref
      { page with frame := none, cow := false, kind := .uninit target (some kept) }).flat =
        Deed.applyAll c.flat [.fail ref kept] := by
  obtain ⟨programs, rfl, -⟩ := made.core_eq
  funext r
  by_cases hr : r = ref
  · subst hr
    rw [flat_found Table.find?_insert_self]
    simp only [Deed.applyAll, List.foldl_cons, List.foldl_nil, Deed.apply, flat_found found,
      Function.update_self]
    cases target <;> simp only [cell, kind, Option.map_some, Cell.failed]
  · have hdeed : Deed.applyAll c.flat [.fail ref kept] r = c.flat r := Function.update_of_ne hr _ _
    rw [hdeed]
    exact flat_congr h (h.unmoved_others free List.not_mem_nil (Table.find?_insert_of_ne hr)
      (fun _ => FrameTable.find?_remove_of_ne) fun _ => Memory.read_write_of_ne) fun _ _ _ _ => rfl

theorem flat_copy {old new : FrameId} {shared : Frame} (h : c.Sound)
    (found : c.pages.find? ref = some page) (resident : page.frame = some old)
    (owned : c.frames.find? old = some shared) (free : c.frames.find? new = some ⟨phys, []⟩) :
    ((((c.diverge ref old shared phys).setFrame new ⟨phys, [ref]⟩).map (page.entryRef ref)
      ⟨phys, page.writable, c.dirty (page.entryRef ref)⟩).setPage ref
        { page with frame := some new, cow := false }).flat = c.flat := by
  obtain ⟨frames, memory, left, heq, hframes, hleft, -⟩ := c.diverge_eq ref old shared phys
  rw [heq]
  funext r
  by_cases hr : r = ref
  · subst hr
    rw [flat_found found, flat_found Table.find?_insert_self]
    refine congrArg some (cell_congr rfl ?_)
    rw [bytes_resident rfl FrameTable.find?_update_self, bytes_resident resident owned]
    exact (leaves_read hleft phys).trans Memory.read_write_self
  · refine flat_congr h (h.unmoved_parted owned free hr hleft (Table.find?_insert_of_ne hr)
      (fun i hi => ?_) fun _ => rfl) fun _ _ _ _ => rfl
    exact (FrameTable.find?_update_of_ne hi).trans (congrFun hframes i)

theorem flat_lose {old new : FrameId} {shared : Frame} (h : c.Sound)
    (found : c.pages.find? ref = some page) (resident : page.frame = some old)
    (owned : c.frames.find? old = some shared) (free : c.frames.find? new = some ⟨phys, []⟩) :
    ((((c.diverge ref old shared phys).giveBack new phys).unmap (page.entryRef ref)).setPage ref
      { page with frame := none, cow := false }).flat = Deed.applyAll c.flat [.lose ref] := by
  obtain ⟨frames, memory, left, heq, hframes, hleft, -⟩ := c.diverge_eq ref old shared phys
  rw [heq]
  funext r
  by_cases hr : r = ref
  · subst hr
    have hused := h.used found resident
    have hslot := h.no_slot found resident
    have hzero (d : Core) : d.bytes { page with frame := none, cow := false } = PageBytes.zero :=
      bytes_none rfl hslot
    rw [flat_found Table.find?_insert_self]
    simp only [Deed.applyAll, List.foldl_cons, List.foldl_nil, Deed.apply, flat_found found,
      Function.update_self, cell, hzero]
    cases hk : page.kind with
    | uninit => rw [hk] at hused; cases hused
    | anon => rfl
    | file => rfl
  · have hdeed : Deed.applyAll c.flat [.lose ref] r = c.flat r := Function.update_of_ne hr _ _
    rw [hdeed]
    refine flat_congr h (h.unmoved_parted owned free hr hleft (Table.find?_insert_of_ne hr)
      (fun i hi => ?_) fun _ => rfl) fun _ _ _ _ => rfl
    exact (FrameTable.find?_remove_of_ne hi).trans (congrFun hframes i)

theorem flat_share {src : PageRef} (h : c.Sound) (found : c.pages.find? src = some page)
    (vacant : c.pages.find? dst = none) (resident : page.frame = some id)
    (owned : c.frames.find? id = some frame) (whole : Bool) :
    (c.share src dst page id frame).flat = Deed.applyAll c.flat [.share src dst whole] := by
  obtain ⟨hsrc, hdst, hframe⟩ := @share_find page id frame c src dst (ne_of_found found vacant)
  have hused := h.used found resident
  have hdeed (r : PageRef) : Deed.applyAll c.flat [.share src dst whole] r =
      update c.flat dst (c.flat src) r := rfl
  funext r
  rw [hdeed]
  by_cases hd : r = dst
  · subst hd
    rw [Function.update_self, flat_found found, flat_found hdst]
    have hb : (c.share src r page id frame).bytes ⟨r.space, page.writable, some id, page.lastAccess, true,
        page.kind.twin⟩ = c.bytes page := by
      rw [bytes_resident rfl hframe, bytes_resident resident owned]
      rfl
    simp only [cell, hb]
    cases hk : page.kind with
    | uninit => rw [hk] at hused; exact nomatch hused
    | anon => rfl
    | file => rfl
  · rw [Function.update_of_ne hd]
    by_cases hr : r = src
    · subst hr
      rw [flat_found found, flat_found hsrc]
      refine congrArg some (cell_congr rfl ?_)
      rw [bytes_resident resident owned]
      have hb := @bytes_resident _ { page with cow := true } id _ resident hframe
      exact hb
    · exact flat_congr h (unmoved_share found vacant owned hr hd) fun _ _ _ _ => rfl

theorem flat_write (h : c.Sound) {mapping : Mapping} {offset : Nat} {bytes : Array UInt8}
    (hg : c.Guarded fun _ => False) (mapped : c.mappings.find? ref = some mapping)
    (writable : mapping.writable = true) :
    (c.store ref mapping.page (PageBytes.patch (c.memory.read mapping.page) offset bytes)).flat =
      Deed.applyAll c.flat [.write ref offset bytes] := by
  obtain ⟨page, id, frame, found, resident, owned, hphys, -⟩ := h.mapped ref mapping mapped
  have hused := h.used found resident
  rw [← hphys]
  funext r
  by_cases hr : r = ref
  · subst hr
    have hstored : (c.store r frame.page (PageBytes.patch (c.memory.read frame.page) offset
        bytes)).bytes page = PageBytes.patch (c.bytes page) offset bytes := by
      rw [bytes_resident resident owned, @bytes_resident (c.store r frame.page _) page id frame
        resident owned]
      exact Memory.read_write_self
    rw [@flat_found (c.store r frame.page _) r page found]
    simp only [Deed.applyAll, List.foldl_cons, List.foldl_nil, Deed.apply, flat_found found,
      Function.update_self, cell, hstored]
    cases hk : page.kind with
    | uninit => rw [hk] at hused; exact nomatch hused
    | anon => rfl
    | file => rfl
  · have hdeed : Deed.applyAll c.flat [.write ref offset bytes] r = c.flat r :=
      Function.update_of_ne hr _ _
    rw [hdeed]
    refine flat_congr h (h.unmoved_others owned (fun hm => hr ?_) rfl (fun _ _ => rfl)
      fun _ => Memory.read_write_of_ne) fun _ _ _ _ => rfl
    exact (hg.exclusive ref mapping page id frame mapped writable found resident owned r
      hm).resolve_right not_false

theorem disposes_pageIn {entry : PageRef} (disposed : c.Disposes page entry c₁) (slot : SwapSlot) :
    c₁.swap.pageIn slot = c.swap.pageIn slot := by
  cases disposed with
  | slot kind freed =>
      obtain ⟨-, -, hdisk, -⟩ := SwapArea.freeSlot_ok freed
      simp only [SwapArea.pageIn, hdisk]
  | _ => rfl

theorem flat_dropAway {entry : PageRef} (h : c.Sound)
    (disposed : Disposes { c with pages := c.pages.erase ref } page entry c₁) :
    c₁.flat = Deed.applyAll c.flat [.drop ref] := by
  have hslots := disposes_pageIn disposed
  obtain ⟨swap, files, rfl⟩ := disposed.core_eq
  have hdeed (r : PageRef) : Deed.applyAll c.flat [.drop ref] r = update c.flat ref none r := rfl
  funext r
  rw [hdeed]
  by_cases hr : r = ref
  · subst hr
    rw [Function.update_self]
    exact flat_vacant Table.find?_erase_self
  · rw [Function.update_of_ne hr]
    exact flat_congr h (.of_same (Table.find?_erase_of_ne hr) rfl rfl) fun _ slot _ _ => hslots slot

theorem flat_drop (h : c.Sound) (found : c.pages.find? ref = some page)
    (owned : c.frames.find? id = some frame)
    (disposed : Disposes { c with pages := c.pages.erase ref } page (page.entryRef ref) c₁) :
    ((c₁.unmap (page.entryRef ref)).disown id frame ref).flat = Deed.applyAll c.flat [.drop ref] := by
  have hslots := disposes_pageIn disposed
  rw [h.entryRef found] at *
  obtain ⟨swap, files, rfl⟩ := disposed.core_eq
  obtain ⟨frames, memory, left, heq, hframes, hleft, -⟩ := disown_eq
    (Core.unmap { c with pages := c.pages.erase ref, swap, files } ref) id frame ref
  rw [heq]
  have hdeed (r : PageRef) : Deed.applyAll c.flat [.drop ref] r = update c.flat ref none r := rfl
  funext r
  rw [hdeed]
  by_cases hr : r = ref
  · subst hr
    rw [Function.update_self]
    exact flat_vacant Table.find?_erase_self
  · rw [Function.update_of_ne hr]
    exact flat_congr h (h.unmoved_left owned hr hleft (Table.find?_erase_of_ne hr) hframes rfl)
      fun _ slot _ _ => hslots slot

end Sound

theorem Step.flat (h : Step c deeds c') (hs : c.Sound)
    (hg : (∃ d ∈ deeds, d.IsWrite) → c.Guarded fun _ => False) :
    c'.flat = Deed.applyAll c.flat deeds := by
  cases h with
  | touch found => exact hs.flat_setPage found rfl rfl
  | learn => rfl
  | chart => rfl
  | add vacant no_slot => exact hs.flat_add no_slot
  | acquire taken => exact hs.flat_acquire taken
  | spoil => rfl
  | evict found owned saved => exact hs.flat_evict found owned saved
  | fill found away free filled => exact hs.flat_fill found away free filled
  | refuse found away free => exact hs.flat_refuse found away free
  | fail found away kind free made => exact hs.flat_fail found kind free made
  | copy found resident owned many free => exact hs.flat_copy found resident owned free
  | lose found resident owned many free => exact hs.flat_lose found resident owned free
  | own found => exact hs.flat_setPage found rfl rfl
  | remap => rfl
  | share found used vacant resident owned => exact hs.flat_share found vacant resident owned true
  | shareHalf found used vacant resident owned refused mapped =>
      have hshared := hs.flat_share found vacant resident owned false
      rcases mapped with rfl | rfl <;> exact hshared
  | read => rfl
  | write mapped writable =>
      exact hs.flat_write (hg ⟨_, List.mem_cons_self, trivial⟩) mapped writable
  | dropAway found away disposed => exact hs.flat_dropAway disposed
  | drop found resident owned disposed => exact hs.flat_drop found owned disposed

/-- The deeds of a run say all that becomes of the pages. -/
theorem Steps.flat (h : Steps c deeds c') (hs : c.Sound)
    (hg : (∃ d ∈ deeds, d.IsWrite) → c.Guarded (fun _ => False) ∧
      ∀ src dst whole, .share src dst whole ∈ deeds → whole = true) :
    c'.flat = Deed.applyAll c.flat deeds := by
  induction h with
  | refl => rfl
  | @tail _ _ ds es run step ih =>
      rw [Deed.applyAll_append, ← ih fun ⟨d, hd, hw⟩ => ?_]
      · refine step.flat (run.sound hs) fun ⟨d, hd, hw⟩ => ?_
        obtain ⟨hguard, hwhole⟩ := hg ⟨d, List.mem_append_right ds hd, hw⟩
        refine run.guarded hs (fun src dst whole hm => ⟨id, fun hfalse => ?_⟩) hguard
        have htrue := hwhole src dst whole (List.mem_append_left es hm)
        rw [hfalse] at htrue
        exact nomatch htrue
      · obtain ⟨hguard, hwhole⟩ := hg ⟨d, List.mem_append_left es hd, hw⟩
        exact ⟨hguard, fun src dst whole hm => hwhole src dst whole (List.mem_append_left es hm)⟩

theorem Steps.vacant (h : Steps c deeds c') (hs : c.Sound) (hw : ∀ d ∈ deeds, ¬ d.IsWrite)
    (vacant : c.pages.find? ref = none) (hadd : ∀ page, .add ref page ∉ deeds)
    (hshare : ∀ src whole, .share src ref whole ∉ deeds) : c'.pages.find? ref = none := by
  rw [← flat_eq_none, h.flat hs fun ⟨d, hd, hwrite⟩ => (hw d hd hwrite).elim]
  exact Deed.applyAll_none (flat_eq_none.2 vacant) hadd hshare

end Core

end DemandPaging
