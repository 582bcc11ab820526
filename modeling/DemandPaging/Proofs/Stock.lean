import DemandPaging.Proofs.Tracing
import Mathlib.Algebra.BigOperators.Group.List.Basic
import Mathlib.Tactic.Abel

/-!
The stock of physical pages and swap slots. Every page of memory is free or in a frame, and every
slot that is in use is held by a page; no step of the pager loses or doubles one.
-/

namespace DemandPaging

open Function (update update_self update_of_ne)

namespace Table

variable {κ α M : Type} [DecidableEq κ] [AddCommMonoid M]

def total (t : Table κ α) (f : α → M) : M := (t.rows.map fun row => f row.2).sum

def set (t : Table κ α) (k : κ) : Option α → Table κ α
  | some a => t.insert k a
  | none => t.erase k

theorem find?_set (t : Table κ α) (k : κ) (new : Option α) :
    (t.set k new).find? = update t.find? k new := by
  cases new with
  | some a => exact find?_insert_eq t k a
  | none => exact find?_erase_eq t k

theorem sum_setRow (f : α → M) (k : κ) (a : α) (rows : List (κ × α)) :
    ((setRow k a rows).map fun row => f row.2).sum + (findRow? k rows).elim 0 f =
      (rows.map fun row => f row.2).sum + f a := by
  induction rows with
  | nil => simp [setRow, findRow?]
  | cons row rest ih =>
      obtain ⟨j, b⟩ := row
      by_cases hj : j = k
      · simp only [setRow, findRow?, if_pos hj, List.map_cons, List.sum_cons, Option.elim_some]
        abel
      · simp only [setRow, findRow?, if_neg hj, List.map_cons, List.sum_cons, add_assoc, ih]

theorem sum_dropRow (f : α → M) (k : κ) (rows : List (κ × α)) :
    ((dropRow k rows).map fun row => f row.2).sum + (findRow? k rows).elim 0 f =
      (rows.map fun row => f row.2).sum := by
  induction rows with
  | nil => simp [dropRow, findRow?]
  | cons row rest ih =>
      obtain ⟨j, b⟩ := row
      by_cases hj : j = k
      · simp only [dropRow, findRow?, if_pos hj, List.map_cons, List.sum_cons, Option.elim_some]
        abel
      · simp only [dropRow, findRow?, if_neg hj, List.map_cons, List.sum_cons, add_assoc, ih]

theorem total_set (t : Table κ α) (k : κ) (new : Option α) (f : α → M) :
    (t.set k new).total f + (t.find? k).elim 0 f = t.total f + new.elim 0 f := by
  cases new with
  | some a => exact sum_setRow f k a t.rows
  | none => exact (sum_dropRow f k t.rows).trans (add_zero _).symm

theorem total_find? {t : Table κ α} {k : κ} {a : α} (h : t.find? k = some a) (f : α → M) :
    t.total f = (t.erase k).total f + f a := by
  have htotal := t.total_set k none f
  rw [h] at htotal
  exact (htotal.trans (add_zero _)).symm

theorem length_dropRow {k : κ} {rows : List (κ × α)} (h : findRow? k rows ≠ none) :
    (dropRow k rows).length + 1 = rows.length := by
  induction rows with
  | nil => exact (h rfl).elim
  | cons row rest ih =>
      obtain ⟨j, b⟩ := row
      by_cases hj : j = k
      · simp only [dropRow, if_pos hj, List.length_cons]
      · simp only [findRow?, if_neg hj] at h
        simp only [dropRow, if_neg hj, List.length_cons, ih h]

theorem size_erase {t : Table κ α} {k : κ} {a : α} (h : t.find? k = some a) :
    (t.erase k).size + 1 = t.size :=
  length_dropRow (by rw [show findRow? k t.rows = some a from h]; exact nofun)

end Table

/-- Every physical page below `n` is free or in a frame, and there are no others. -/
structure Stocked (n : Nat) (frames : FrameTable) (memory : Memory) : Prop where
  all : memory.pool.free + frames.entries.size = n
  free_lt : ∀ phys, 0 < memory.pool.count phys → phys < n
  frame_lt : ∀ id frame, frames.find? id = some frame → frame.page < n

variable {n : Nat} {frames frames' : FrameTable} {memory memory' : Memory} {phys : PhysPage}
  {id : FrameId} {frame frame' : Frame}

namespace FrameTable

theorem size_update (found : frames.find? id = some frame) :
    (frames.update id frame').entries.size = frames.entries.size :=
  Table.size_insert_of_mem _ (Table.mem_keys.2 (Option.isSome_of_eq_some found))

theorem size_add (wf : frames.WellFormed) (frame : Frame) :
    (frames.add frame).2.entries.size = frames.entries.size + 1 := by
  obtain ⟨-, hnew, -⟩ := wf.add frame
  have hmem : (frames.add frame).1 ∉ frames.entries.keys := fun hm => by
    have hsome := Table.mem_keys.1 hm
    rw [show frames.entries.find? _ = none from hnew] at hsome
    exact nomatch hsome
  unfold FrameTable.add at hmem ⊢
  split
  · next hv =>
      rw [hv] at hmem
      exact Table.size_insert_of_not_mem frame hmem
  · next hv =>
      rw [hv] at hmem
      exact Table.size_insert_of_not_mem frame hmem

end FrameTable

namespace Stocked

theorem keep (h : Stocked n frames memory) (same : memory'.pool = memory.pool) :
    Stocked n frames memory' :=
  ⟨same ▸ h.all, same ▸ h.free_lt, h.frame_lt⟩

theorem acquire (h : Stocked n frames memory) (wf : frames.WellFormed)
    (taken : memory.acquire? = some (phys, memory')) :
    Stocked n (frames.add ⟨phys, []⟩).2 memory' := by
  unfold Memory.acquire? at taken
  split at taken
  · next b pool ht =>
      cases taken
      have hcount := Pool.count_take ht
      have hfree := Pool.free_take ht
      have hall := h.all
      have hpool (p : PhysPage) : pool.count p ≤ memory.pool.count p := by
        rw [hcount]
        exact Nat.le_add_right _ _
      refine ⟨?_, fun p hp => h.free_lt p (Nat.lt_of_lt_of_le hp (hpool p)), fun i f hf => ?_⟩
      · rw [FrameTable.size_add wf]
        change pool.free + _ = n
        omega
      · rw [(wf.add ⟨phys, []⟩).2.2] at hf
        split at hf
        · cases hf
          refine h.free_lt phys ?_
          rw [hcount, if_pos rfl]
          exact Nat.succ_pos _
        · exact h.frame_lt i f hf
  · exact nomatch taken

theorem update (h : Stocked n frames memory) (found : frames.find? id = some frame)
    (same : frame'.page = frame.page) : Stocked n (frames.update id frame') memory := by
  refine ⟨?_, h.free_lt, fun i f hf => ?_⟩
  · rw [FrameTable.size_update found]
    exact h.all
  · rw [FrameTable.find?_update] at hf
    split at hf
    · cases hf
      exact same ▸ h.frame_lt id frame found
    · exact h.frame_lt i f hf

theorem remove (h : Stocked n frames memory)
    (found : frames.find? id = some frame) :
    Stocked n (frames.remove id) (memory.release frame.page) := by
  have hall := h.all
  have hsize : (frames.remove id).entries.size + 1 = frames.entries.size := Table.size_erase found
  have hfree : (memory.release frame.page).pool.free = memory.pool.free + 1 :=
    Pool.free_give memory.pool frame.page
  refine ⟨by omega, fun p hp => ?_, fun i f hf => ?_⟩
  · change 0 < (memory.pool.give frame.page).count p at hp
    rw [Pool.count_give] at hp
    split at hp
    · next he => exact he ▸ h.frame_lt id frame found
    · exact h.free_lt p hp
  · rw [FrameTable.find?_remove] at hf
    split at hf
    · exact nomatch hf
    · exact h.frame_lt i f hf

end Stocked

def PageKind.slot? : PageKind → Option SwapSlot
  | anon slot => slot
  | _ => none

theorem PageKind.slot?_eq_some {kind : PageKind} {slot : SwapSlot} :
    kind.slot? = some slot ↔ kind = .anon (some slot) := by
  cases kind <;> simp [slot?]

theorem PageKind.slot?_eq_none {kind : PageKind} :
    kind.slot? = none ↔ ∀ slot, kind ≠ .anon (some slot) := by
  rw [Option.eq_none_iff_forall_ne_some]
  exact forall_congr' fun slot => slot?_eq_some.not

theorem PageKind.slot?_twin (kind : PageKind) : kind.twin.slot? = none := by
  cases kind <;> rfl

def Page.slotCount (page : Page) : Nat := if page.kind.slot?.isSome then 1 else 0

theorem Page.slotCount_some {page : Page} {slot : SwapSlot} (h : page.kind.slot? = some slot) :
    page.slotCount = 1 := by
  rw [slotCount, h]
  rfl

theorem Page.slotCount_none {page : Page} (h : page.kind.slot? = none) : page.slotCount = 0 := by
  rw [slotCount, h]
  rfl

structure Stored (pages : Table PageRef Page) (swap : SwapArea) : Prop where
  roomy : swap.Roomy
  within : ∀ slot, swap.holds slot = true → slot.index < swap.slots
  kept : ∀ slot, swap.holds slot = true → ∃ ref page, pages.find? ref = some page ∧
    page.kind.slot? = some slot
  used : swap.used = pages.total Page.slotCount

variable {pages : Table PageRef Page} {swap taken swap' : SwapArea} {ref : PageRef}
  {page page' : Page} {slot : SwapSlot} {bytes : PageBytes}

namespace Stored

theorem kept_elsewhere {other : SwapSlot} (h : Stored pages swap) (held : swap.holds other = true)
    (apart : ((pages.find? ref).bind fun page => page.kind.slot?) ≠ some other) (new : Option Page) :
    ∃ r page, (pages.set ref new).find? r = some page ∧ page.kind.slot? = some other := by
  obtain ⟨r, page, found, hslot⟩ := h.kept other held
  refine ⟨r, page, ?_, hslot⟩
  rw [Table.find?_set, update_of_ne ?_ _ _, found]
  rintro rfl
  rw [found] at apart
  exact apart hslot

theorem set (h : Stored pages swap) (new : Option Page)
    (same : (new.bind fun page => page.kind.slot?) =
      (pages.find? ref).bind fun page => page.kind.slot?) : Stored (pages.set ref new) swap := by
  have hcount (p : Option Page) : p.elim 0 Page.slotCount =
      if (p.bind fun page => page.kind.slot?).isSome then 1 else 0 := by
    cases p <;> rfl
  refine ⟨h.roomy, h.within, fun other held => ?_, ?_⟩
  · by_cases hother : ((pages.find? ref).bind fun page => page.kind.slot?) = some other
    · obtain ⟨page', rfl, hslot⟩ := Option.bind_eq_some_iff.1 (same.trans hother)
      exact ⟨ref, page', by rw [Table.find?_set, update_self], hslot⟩
    · exact h.kept_elsewhere held hother new
  · have htotal := pages.total_set ref new Page.slotCount
    rw [hcount, hcount, same] at htotal
    rw [h.used]
    exact (Nat.add_right_cancel htotal).symm

theorem store (h : Stored pages swap) (free : swap.allocSlot? = some (slot, taken))
    (stored : taken.writeSlot slot bytes = .ok swap') (found : pages.find? ref = some page)
    (before : page.kind.slot? = none) (after : page'.kind.slot? = some slot) :
    Stored (pages.set ref (some page')) swap' := by
  obtain ⟨-, hholds, hlt, hdisk, hslots⟩ := SwapArea.allocSlot?_some free
  obtain ⟨hbitmap, hslots', hused, hroomy⟩ := SwapArea.writeSlot_rest stored
  have hsame (other : SwapSlot) : swap'.holds other = if other = slot then true else swap.holds other := by
    rw [← hholds]
    simp only [SwapArea.holds, hbitmap]
  refine ⟨hroomy fun disk hd => ?_, fun other held => ?_, fun other held => ?_, ?_⟩
  · rw [hslots]
    exact h.roomy disk (hdisk ▸ hd)
  · rw [hslots', hslots]
    rw [hsame] at held
    split at held
    · next he => exact he ▸ hlt
    · exact h.within other held
  · rw [hsame] at held
    split at held
    · next he => exact ⟨ref, page', by rw [Table.find?_set, update_self], he ▸ after⟩
    · refine h.kept_elsewhere held ?_ _
      rw [found, Option.bind_some, before]
      intro h
      cases h
  · have htotal := pages.total_set ref (some page') Page.slotCount
    rw [found, Option.elim_some, Option.elim_some, Page.slotCount_none before,
      Page.slotCount_some after] at htotal
    rw [hused, SwapArea.allocSlot?_used free, h.used]
    exact htotal.symm

theorem free (h : Stored pages swap) (found : pages.find? ref = some page)
    (before : page.kind.slot? = some slot) (freed : swap.freeSlot slot = .ok swap')
    (new : Option Page) (after : (new.bind fun page => page.kind.slot?) = none) :
    Stored (pages.set ref new) swap' := by
  obtain ⟨-, hholds, hdisk, hslots⟩ := SwapArea.freeSlot_ok freed
  refine ⟨fun disk hd => ?_, fun other held => ?_, fun other held => ?_, ?_⟩
  · rw [hslots]
    exact h.roomy disk (hdisk ▸ hd)
  · rw [hholds] at held
    split at held
    · exact nomatch held
    · rw [hslots]
      exact h.within other held
  · rw [hholds] at held
    split at held
    · exact nomatch held
    · next hne =>
        refine h.kept_elsewhere held ?_ _
        rw [found, Option.bind_some, before]
        exact fun he => hne (Option.some.inj he).symm
  · have htotal := pages.total_set ref new Page.slotCount
    have hnew : new.elim 0 Page.slotCount = 0 := by
      cases new with
      | none => rfl
      | some page' => exact Page.slotCount_none after
    rw [found, Option.elim_some, Page.slotCount_some before, hnew] at htotal
    have hused := SwapArea.freeSlot_used freed
    have hbefore := h.used
    omega

end Stored

namespace Core

variable {c c' c₁ : Core} {deeds : List Deed} {kind kind' : PageKind} {entry : PageRef}

structure Accounted (n : Nat) (c : Core) : Prop where
  stocked : Stocked n c.frames c.memory
  stored : Stored c.pages c.swap

theorem disown_pages (c : Core) (id : FrameId) (frame : Frame) (ref : PageRef) :
    (c.disown id frame ref).pages = c.pages := by
  unfold disown
  split <;> rfl

theorem disown_mappings (c : Core) (id : FrameId) (frame : Frame) (ref : PageRef) :
    (c.disown id frame ref).mappings = c.mappings := by
  unfold disown
  split <;> rfl

theorem diverge_pages (c : Core) (ref : PageRef) (old : FrameId) (shared : Frame) (phys : PhysPage) :
    (c.diverge ref old shared phys).pages = c.pages :=
  disown_pages (c.write phys _) old shared ref

theorem slot?_found (found : c.pages.find? ref = some page) :
    ((c.pages.find? ref).bind fun page => page.kind.slot?) = page.kind.slot? := by
  rw [found, Option.bind_some]

namespace Accounted

theorem setPage (h : c.Accounted n) (found : c.pages.find? ref = some page) (page' : Page)
    (same : page'.kind.slot? = page.kind.slot?) : (c.setPage ref page').Accounted n :=
  ⟨h.stocked, h.stored.set (some page') (same.trans (slot?_found found).symm)⟩

theorem stamp (h : c.Accounted n) (found : c.pages.find? ref = some page) :
    (c.stamp ref page).Accounted n :=
  ⟨h.stocked, (h.setPage found { page with lastAccess := c.clock + 1 } rfl).stored⟩

theorem add (h : c.Accounted n) (vacant : c.pages.find? ref = none) (page : Page)
    (none : page.kind.slot? = none) : (c.setPage ref page).Accounted n :=
  ⟨h.stocked, h.stored.set (some page) (none.trans (by rw [vacant]; rfl))⟩

theorem setFrame (h : c.Accounted n) (found : c.frames.find? id = some frame) (frame' : Frame)
    (same : frame'.page = frame.page) : (c.setFrame id frame').Accounted n :=
  ⟨h.stocked.update found same, h.stored⟩

theorem write (h : c.Accounted n) (phys : PhysPage) (bytes : PageBytes) :
    (c.write phys bytes).Accounted n :=
  ⟨h.stocked.keep rfl, h.stored⟩

theorem unmap (h : c.Accounted n) (entry : PageRef) : (c.unmap entry).Accounted n :=
  ⟨h.stocked, h.stored⟩

theorem giveBack (h : c.Accounted n) (found : c.frames.find? id = some frame) :
    (c.giveBack id frame.page).Accounted n :=
  ⟨h.stocked.remove found, h.stored⟩

theorem disown (h : c.Accounted n) (found : c.frames.find? id = some frame) (ref : PageRef) :
    (c.disown id frame ref).Accounted n := by
  unfold Core.disown
  split
  · exact h.giveBack found
  · exact h.setFrame found _ rfl

theorem diverge (h : c.Accounted n) (found : c.frames.find? id = some frame) (ref : PageRef)
    (phys : PhysPage) : (c.diverge ref id frame phys).Accounted n :=
  (h.write phys _).disown found ref

theorem share {src dst : PageRef} (h : c.Accounted n) (found : c.pages.find? src = some page)
    (vacant : c.pages.find? dst = none) (owned : c.frames.find? id = some frame) :
    (c.share src dst page id frame).Accounted n := by
  have hcopy := h.add vacant
    ⟨dst.space, page.writable, some id, page.lastAccess, true, page.kind.twin⟩ page.kind.slot?_twin
  have hframe := hcopy.setFrame owned { frame with owners := frame.owners ++ [dst] } rfl
  have hsrc (new : Page) : (c.setPage dst new).pages.find? src = some page :=
    (Table.find?_insert_of_ne (Ne.symm (ne_of_found found vacant))).trans found
  exact hframe.setPage (hsrc _) { page with cow := true } rfl

end Accounted

theorem Fills.stored {bytes bytes' : PageBytes} (h : Fills c ref bytes kind kind' bytes' c₁ deeds)
    (page' : Page) (hst : Stored c.pages c.swap) (found : c.pages.find? ref = some page)
    (old : page.kind = kind) (new : page'.kind = kind') : Stored (c.pages.insert ref page') c₁.swap := by
  have hnew : page'.kind.slot? = none := by
    rw [new]
    exact PageKind.slot?_eq_none.2 h.used.2
  have hsame (hold : kind.slot? = none) : Stored (c.pages.insert ref page') c.swap := by
    refine hst.set (some page') (hnew.trans ?_)
    rw [slot?_found found, old, hold]
  cases h with
  | slot stored freed => exact hst.free found (by rw [old]; rfl) freed (some page') hnew
  | made made =>
      obtain ⟨programs, rfl, -⟩ := made.core_eq
      exact hsame rfl
  | _ => exact hsame rfl

theorem Saves.stored {bytes : PageBytes} (h : Saves c bytes entry kind kind' c₁)
    (page' : Page) (hst : Stored c.pages c.swap) (found : c.pages.find? ref = some page)
    (old : page.kind = kind) (new : page'.kind = kind') : Stored (c.pages.insert ref page') c₁.swap := by
  cases h with
  | anon free stored =>
      exact hst.store free stored found (by rw [old]; rfl) (by rw [new]; rfl)
  | clean =>
      refine hst.set (some page') ?_
      rw [slot?_found found, Option.bind_some, old, new]
  | dirty =>
      refine hst.set (some page') ?_
      rw [slot?_found found, Option.bind_some, old, new]

theorem Disposes.accounted (h : Disposes { c with pages := c.pages.erase ref } page entry c₁)
    (ha : c.Accounted n) (found : c.pages.find? ref = some page) : c₁.Accounted n := by
  have herase (hslot : page.kind.slot? = none) : Stored (c.pages.erase ref) c.swap := by
    refine ha.stored.set none ?_
    rw [slot?_found found, hslot]
    rfl
  cases h with
  | nothing no_slot => exact ⟨ha.stocked, herase (PageKind.slot?_eq_none.2 no_slot)⟩
  | slot kind freed =>
      exact ⟨ha.stocked, ha.stored.free found (PageKind.slot?_eq_some.2 kind) freed none rfl⟩
  | file kind => exact ⟨ha.stocked, herase (by rw [kind]; rfl)⟩

theorem Step.accounted (h : Step c deeds c') (hs : c.Sound) (ha : c.Accounted n) :
    c'.Accounted n := by
  cases h with
  | touch found => exact ha.stamp found
  | learn => exact ⟨ha.stocked, ha.stored⟩
  | chart => exact ⟨ha.stocked, ha.stored⟩
  | add vacant no_slot => exact ha.add vacant _ (PageKind.slot?_eq_none.2 no_slot)
  | acquire taken => exact ⟨ha.stocked.acquire hs.table taken, ha.stored⟩
  | spoil => exact ⟨ha.stocked, ha.stored⟩
  | @evict c₁ ref page id phys kind found owned saved =>
      have hstored := saved.stored { page with kind, frame := none, cow := false } ha.stored found
        rfl rfl
      obtain ⟨swap, files, rfl⟩ := saved.core_eq
      exact ⟨((ha.setFrame owned ⟨phys, []⟩ rfl).write phys PageBytes.zero).stocked,
        hstored⟩
  | @fill c₁ ref page id phys kind bytes _ found away free filled =>
      have hstored := filled.stored { page with
        frame := some id, cow := false, kind, lastAccess := c.clock + 1 } ha.stored found rfl rfl
      obtain ⟨swap, programs, rfl, -⟩ := filled.core_eq
      exact ⟨((ha.setFrame free ⟨phys, [ref]⟩ rfl).write phys bytes).stocked, hstored⟩
  | refuse found away free =>
      exact ((ha.giveBack free).unmap _).setPage found _ rfl
  | @fail c₁ ref page id phys target init kept bytes found away kind free made =>
      obtain ⟨programs, rfl, -⟩ := made.core_eq
      have hback := (ha.write phys bytes).giveBack free
      refine ⟨hback.stocked, (hback.setPage found _ ?_).stored⟩
      rw [kind]
      rfl
  | @copy ref page old new shared phys found resident owned many free =>
      have hfree := diverge_free c ref old shared phys (hs.new_ne found resident free) free
      have hfound : (c.diverge ref old shared phys).pages.find? ref = some page := by
        rw [diverge_pages]
        exact found
      have hframe := (ha.diverge owned ref phys).setFrame hfree ⟨phys, [ref]⟩ rfl
      have hrest := hframe.setPage hfound { page with frame := some new, cow := false } rfl
      exact ⟨hrest.stocked, hrest.stored⟩
  | @lose ref page old new shared phys k found resident owned many free =>
      have hfree := diverge_free c ref old shared phys (hs.new_ne found resident free) free
      have hfound : (c.diverge ref old shared phys).pages.find? ref = some page := by
        rw [diverge_pages]
        exact found
      exact (((ha.diverge owned ref phys).giveBack hfree).unmap _).setPage hfound _ rfl
  | own found => exact ha.setPage found _ rfl
  | remap => exact ⟨ha.stocked, ha.stored⟩
  | share found used vacant resident owned =>
      have hshare := ha.share found vacant owned
      exact ⟨hshare.stocked, hshare.stored⟩
  | shareHalf found used vacant resident owned refused mapped =>
      have hshare := ha.share found vacant owned
      rcases mapped with rfl | rfl
      · exact hshare
      · exact ⟨hshare.stocked, hshare.stored⟩
  | read => exact ha
  | write => exact ⟨(ha.write _ _).stocked, ha.stored⟩
  | dropAway found away disposed => exact disposed.accounted ha found
  | drop found resident owned disposed =>
      have hrest := disposed.accounted ha found
      obtain ⟨swap, files, rfl⟩ := disposed.core_eq
      exact (hrest.unmap _).disown owned _

theorem Steps.accounted (h : Steps c deeds c') (hs : c.Sound) (ha : c.Accounted n) :
    c'.Accounted n :=
  (h.keep (P := fun c => c.Sound ∧ c.Accounted n)
    (fun step hc => ⟨step.sound hc.1, step.accounted hc.1 hc.2⟩) ⟨hs, ha⟩).2

end Core

theorem Machine.fresh_accounted (n : Nat) (sectors : Option Nat) (files : List File)
    (allocator : Allocator := .buddy) :
    (Machine.fresh n sectors files allocator).core.Accounted n := by
  have none_held (slot : SwapSlot) (held : (SwapArea.ofDisk (sectors.map Disk.ofSize)).holds slot = true) :
      False := by
    rw [SwapArea.holds_ofDisk] at held
    exact nomatch held
  refine ⟨⟨Pool.free_ofSize allocator n, fun p hp => ?_, nofun⟩, ⟨SwapArea.ofDisk_roomy _,
    fun slot held => (none_held slot held).elim, fun slot held => (none_held slot held).elim, rfl⟩⟩
  change 0 < (Pool.ofSize allocator n).count p at hp
  rw [Pool.count_ofSize] at hp
  split at hp
  · assumption
  · exact (Nat.lt_irrefl 0 hp).elim

end DemandPaging
