import DemandPaging.Proofs.Coherence
import Mathlib.Data.Finset.Card
import Mathlib.Order.Bounds.Basic

/-!
The swap area as a store of pages. What it answers depends on its size and on what was asked of it so far
only: which slots are held, and which page was written to a slot last.
-/

namespace DemandPaging

inductive SwapRequest where
  | alloc
  | free (slot : SwapSlot)
  | write (slot : SwapSlot) (page : PageBytes)
  | read (slot : SwapSlot) (buffer : PageBytes)

inductive SwapReply where
  | slot (slot? : Option SwapSlot)
  | page (page : PageBytes)
  | done

/-- Requests with the replies to them, the last one first. -/
abbrev SwapHistory := List (SwapRequest × SwapReply)

namespace SwapHistory

def held : SwapHistory → Finset SwapSlot
  | [] => ∅
  | (.alloc, .slot (some slot)) :: history => Insert.insert slot (held history)
  | (.free slot, _) :: history => (held history).erase slot
  | _ :: history => held history

def lastWritten? (slot : SwapSlot) : SwapHistory → Option PageBytes
  | [] => none
  | (.write other page, _) :: history =>
      if other = slot then some page else lastWritten? slot history
  | _ :: history => lastWritten? slot history

end SwapHistory

def SwapRequest.Heeds (held : Finset SwapSlot) : SwapRequest → Prop
  | .alloc => True
  | .free slot => slot ∈ held
  | .write slot _ => slot ∈ held
  | .read slot _ => slot ∈ held

instance (held : Finset SwapSlot) : DecidablePred (SwapRequest.Heeds held)
  | .alloc => isTrue trivial
  | .free slot => inferInstanceAs (Decidable (slot ∈ held))
  | .write slot _ => inferInstanceAs (Decidable (slot ∈ held))
  | .read slot _ => inferInstanceAs (Decidable (slot ∈ held))

namespace SwapArea

def serve (area : SwapArea) : SwapRequest → Except Panic (SwapReply × SwapArea)
  | .alloc =>
      match area.allocSlot? with
      | some (slot, taken) => .ok (.slot (some slot), taken)
      | none => .ok (.slot none, area)
  | .free slot =>
      match area.freeSlot slot with
      | .ok area => .ok (.done, area)
      | .error e => .error e
  | .write slot page =>
      match area.writeSlot slot page with
      | .ok area => .ok (.done, area)
      | .error e => .error e
  | .read slot buffer =>
      match area.readSlot slot buffer with
      | .ok page => .ok (.page page, area)
      | .error e => .error e

inductive Replies (area : SwapArea) : SwapRequest → SwapReply → SwapArea → Prop where
  | took {slot : SwapSlot} {taken : SwapArea} (took : area.allocSlot? = some (slot, taken)) :
      Replies area .alloc (.slot (some slot)) taken
  | full (full : area.allocSlot? = none) : Replies area .alloc (.slot none) area
  | freed {slot : SwapSlot} {area' : SwapArea} (freed : area.freeSlot slot = .ok area') :
      Replies area (.free slot) .done area'
  | wrote {slot : SwapSlot} {page : PageBytes} {area' : SwapArea}
      (wrote : area.writeSlot slot page = .ok area') : Replies area (.write slot page) .done area'
  | read {slot : SwapSlot} {buffer page : PageBytes} (read : area.readSlot slot buffer = .ok page) :
      Replies area (.read slot buffer) (.page page) area

/-- The areas that requests about slots that are held lead to, when the first finds all slots of the disk
free. -/
inductive Served (disk : Option Disk) : SwapHistory → SwapArea → Prop where
  | start : Served disk [] (ofDisk disk)
  | next {history : SwapHistory} {area area' : SwapArea} {request : SwapRequest} {reply : SwapReply}
      (served : Served disk history area) (heeds : request.Heeds history.held)
      (replied : area.serve request = .ok (reply, area')) :
      Served disk ((request, reply) :: history) area'

variable {area area' taken : SwapArea} {disk : Option Disk} {history : SwapHistory}
  {request : SwapRequest} {reply : SwapReply} {slot : SwapSlot} {page buffer : PageBytes}

theorem writeSlot_sectors (h : area.writeSlot slot page = .ok area') :
    area'.disk.map Disk.sectorCount = area.disk.map Disk.sectorCount := by
  unfold writeSlot at h
  split at h
  · cases h
    rfl
  · next there hd =>
      split at h
      · cases h
      · next written hwritten =>
          cases h
          rw [hd, Option.map_some, Option.map_some, Disk.writeSectors_count hwritten]

theorem allocSlot?_least (h : area.allocSlot? = some (slot, taken)) {other : SwapSlot}
    (before : other.index < slot.index) : area.holds other = true := by
  unfold allocSlot? at h
  split at h
  · exact nomatch h
  · next w b hclear =>
      obtain ⟨hb, word, hword, -⟩ := firstClear?_some hclear
      dsimp only at h
      split at h
      · exact nomatch h
      · cases h
        obtain ⟨hlen, -⟩ := List.getElem?_eq_some_iff.1 hword
        have hother : other.word < area.bitmap.length := by
          simp only [SwapSlot.word] at *
          omega
        by_contra hfree
        rw [Bool.not_eq_true, holds, List.getElem?_eq_getElem hother, Option.getD_some] at hfree
        -- a slot that is free has a clear bit, and the search ends no later than at it
        obtain ⟨w', b', hclear', hle⟩ := firstClear?_least (List.getElem?_eq_getElem hother) hfree
          (Nat.mod_lt _ (by decide))
        obtain ⟨rfl, rfl⟩ := Prod.mk.inj (Option.some.inj (hclear.symm.trans hclear'))
        have hindex : other.word * 64 + other.bit = other.index := by
          simp only [SwapSlot.word, SwapSlot.bit]
          omega
        rw [hindex] at hle
        exact absurd before (Nat.not_lt.2 hle)

theorem serve_ok (h : area.serve request = .ok (reply, area')) : area.Replies request reply area' := by
  cases request with
  | alloc =>
      simp only [serve] at h
      split at h
      · next taken =>
          cases h
          exact .took taken
      · next full =>
          cases h
          exact .full full
  | free slot =>
      simp only [serve] at h
      split at h
      · next freed =>
          cases h
          exact .freed freed
      · exact nomatch h
  | write slot page =>
      simp only [serve] at h
      split at h
      · next written =>
          cases h
          exact .wrote written
      · exact nomatch h
  | read slot buffer =>
      simp only [serve] at h
      split at h
      · next read =>
          cases h
          exact .read read
      · exact nomatch h

def serveAll (area : SwapArea) (history : SwapHistory) :
    List SwapRequest → Option (SwapHistory × SwapArea)
  | [] => some (history, area)
  | request :: requests =>
      if request.Heeds history.held then
        match area.serve request with
        | .ok (reply, area) => area.serveAll ((request, reply) :: history) requests
        | .error _ => none
      else none

theorem Served.serveAll {requests : List SwapRequest} {history' : SwapHistory}
    (served : Served disk history area)
    (h : area.serveAll history requests = some (history', area')) : Served disk history' area' := by
  induction requests generalizing area history with
  | nil =>
      cases h
      exact served
  | cons request requests ih =>
      simp only [SwapArea.serveAll] at h
      split at h
      · next heeds =>
          split at h
          · next replied => exact ih (served.next heeds replied) h
          · exact nomatch h
      · exact nomatch h

structure Records (disk : Option Disk) (history : SwapHistory) (area : SwapArea) : Prop where
  held : ∀ slot, area.holds slot = true ↔ slot ∈ history.held
  within : ∀ slot ∈ history.held, slot.index < area.slots
  used : area.used = history.held.card
  page : ∀ slot, area.pageIn slot = (history.lastWritten? slot).getD ((ofDisk disk).pageIn slot)
  slots : area.slots = (ofDisk disk).slots
  sectors : area.disk.map Disk.sectorCount = disk.map Disk.sectorCount
  covered : area.Covered

namespace Records

theorem start (disk : Option Disk) : Records disk [] (ofDisk disk) where
  held slot := by
    rw [holds_ofDisk]
    exact iff_of_false Bool.false_ne_true (Finset.notMem_empty slot)
  within slot hslot := absurd hslot (Finset.notMem_empty slot)
  used := rfl
  page _ := rfl
  slots := rfl
  sectors := rfl
  covered := ofDisk_covered disk

variable (h : Records disk history area)
include h

theorem free_iff : area.holds slot = false ↔ slot ∉ history.held := by
  rw [← h.held slot, Bool.not_eq_true]

theorem roomy : area.Roomy := by
  intro there hd
  have hsectors := h.sectors
  rw [hd] at hsectors
  obtain ⟨first, hfirst, hcount⟩ := Option.map_eq_some_iff.1 hsectors.symm
  rw [h.slots, ← hcount]
  exact ofDisk_roomy disk first hfirst

theorem disk_of_held (hslot : slot ∈ history.held) : ∃ there, area.disk = some there ∧
    slot.firstSector + sectorsPerPage ≤ there.sectorCount := by
  have hlt := h.within slot hslot
  cases hd : area.disk with
  | none =>
      have hsectors := h.sectors
      rw [hd] at hsectors
      rw [h.slots, ofDisk_backed disk (Option.map_eq_none_iff.1 hsectors.symm)] at hlt
      exact absurd hlt (Nat.not_lt_zero _)
  | some there => exact ⟨there, rfl, h.roomy.sectors hd hlt⟩

theorem sectors_of_held (hslot : slot ∈ history.held) : ∃ there first, area.disk = some there ∧
    disk = some first ∧ there.sectorCount = first.sectorCount ∧
    ∀ i < sectorsPerPage, slot.firstSector + i < first.sectorCount := by
  obtain ⟨there, hd, hroom⟩ := h.disk_of_held hslot
  have hsectors := h.sectors
  rw [hd] at hsectors
  obtain ⟨first, hfirst, hcount⟩ := Option.map_eq_some_iff.1 hsectors.symm
  refine ⟨there, first, hd, hfirst, hcount.symm, fun i hi => ?_⟩
  omega

theorem disk_ne_none (hslot : slot ∈ history.held) : area.disk ≠ none := by
  obtain ⟨there, hd, -⟩ := h.disk_of_held hslot
  rw [hd]
  exact nofun

theorem used_le : area.used ≤ area.slots := by
  have hsub : history.held.image SwapSlot.index ⊆ Finset.range area.slots := by
    intro i hi
    obtain ⟨slot, hslot, rfl⟩ := Finset.mem_image.1 hi
    exact Finset.mem_range.2 (h.within slot hslot)
  calc area.used = history.held.card := h.used
    _ = (history.held.image SwapSlot.index).card :=
      (Finset.card_image_of_injective _ fun _ _ => SwapSlot.ext_index).symm
    _ ≤ (Finset.range area.slots).card := Finset.card_le_card hsub
    _ = area.slots := Finset.card_range _

theorem took (htook : area.allocSlot? = some (slot, area')) :
    Records disk ((.alloc, .slot (some slot)) :: history) area' := by
  obtain ⟨hfree, hholds, hlt, hdisk, hslots⟩ := allocSlot?_some htook
  have hnew : slot ∉ history.held := h.free_iff.1 hfree
  refine ⟨fun other => ?_, fun other hother => ?_, ?_, fun other => ?_, hslots.trans h.slots,
    hdisk ▸ h.sectors, ?_⟩
  · rw [hholds, SwapHistory.held, Finset.mem_insert, ← h.held other]
    by_cases ho : other = slot
    · simp only [ho, if_true, true_or]
    · simp only [ho, if_false, false_or]
  · rw [hslots]
    rcases Finset.mem_insert.1 hother with rfl | hother
    · exact hlt
    · exact h.within other hother
  · rw [allocSlot?_used htook, h.used, SwapHistory.held, Finset.card_insert_of_notMem hnew]
  · rw [pageIn, hdisk]
    exact h.page other
  · rw [Covered, hslots, allocSlot?_bitmap htook]
    exact h.covered

theorem freed (hfreed : area.freeSlot slot = .ok area') :
    Records disk ((.free slot, .done) :: history) area' := by
  obtain ⟨hheld, hholds, hdisk, hslots⟩ := freeSlot_ok hfreed
  have hslot : slot ∈ history.held := (h.held slot).1 hheld
  refine ⟨fun other => ?_, fun other hother => ?_, ?_, fun other => ?_, hslots.trans h.slots,
    hdisk ▸ h.sectors, h.covered.of_free hfreed⟩
  · rw [hholds, SwapHistory.held, Finset.mem_erase, ← h.held other]
    by_cases ho : other = slot
    · simp only [ho, if_true, Bool.false_eq_true, ne_eq, not_true, false_and]
    · simp only [ho, if_false, ne_eq, not_false_iff, true_and]
  · rw [hslots]
    exact h.within other (Finset.mem_of_mem_erase hother)
  · have hused := freeSlot_used hfreed
    have hcard := Finset.card_erase_add_one hslot
    rw [SwapHistory.held]
    exact Nat.succ_inj.1 (hused.trans (h.used.trans hcard.symm))
  · rw [pageIn, hdisk]
    exact h.page other

theorem wrote (hslot : slot ∈ history.held) (hwrote : area.writeSlot slot page = .ok area') :
    Records disk ((.write slot page, .done) :: history) area' := by
  obtain ⟨hself, hothers, hbitmap, hslots, -⟩ := writeSlot_ok (h.disk_ne_none hslot) hwrote
  obtain ⟨-, -, hused, -⟩ := writeSlot_rest hwrote
  have hholds (other : SwapSlot) : area'.holds other = area.holds other := by
    rw [holds, hbitmap, holds]
  refine ⟨fun other => (hholds other) ▸ h.held other, fun other hother => ?_, hused.trans h.used,
    fun other => ?_, hslots.trans h.slots, ?_, ?_⟩
  · rw [hslots]
    exact h.within other hother
  · rw [SwapHistory.lastWritten?]
    by_cases ho : slot = other
    · rw [if_pos ho, ← ho]
      exact hself
    · rw [if_neg ho, ← h.page other]
      exact hothers other (Ne.symm ho)
  · exact (writeSlot_sectors hwrote).trans h.sectors
  · rw [Covered, hslots, hbitmap]
    exact h.covered

theorem next (heeds : request.Heeds history.held) (replied : area.Replies request reply area') :
    Records disk ((request, reply) :: history) area' := by
  cases replied with
  | took taken => exact h.took taken
  | freed freed => exact h.freed freed
  | wrote wrote => exact h.wrote heeds wrote
  | full | read => exact ⟨h.held, h.within, h.used, h.page, h.slots, h.sectors, h.covered⟩

theorem readSlot_eq (hslot : slot ∈ history.held) (buffer : PageBytes) :
    area.readSlot slot buffer =
      .ok ((history.lastWritten? slot).getD ((ofDisk disk).pageIn slot)) := by
  obtain ⟨bytes, hread⟩ := readSlot_exists h.roomy (h.within slot hslot) buffer
  rw [hread, readSlot_ok (h.disk_ne_none hslot) hread, h.page slot]

theorem serve_exists (heeds : request.Heeds history.held) :
    ∃ reply area', area.serve request = .ok (reply, area') := by
  cases request with
  | alloc =>
      simp only [serve]
      split <;> exact ⟨_, _, rfl⟩
  | free slot =>
      have hcard : 0 < history.held.card := Finset.card_pos.2 ⟨slot, heeds⟩
      obtain ⟨area', hfreed⟩ := freeSlot_exists ((h.held slot).2 heeds) (h.used ▸ hcard)
      simp only [serve, hfreed]
      exact ⟨_, _, rfl⟩
  | write slot page =>
      obtain ⟨area', hwrote⟩ := writeSlot_exists h.roomy (h.within slot heeds) page
      simp only [serve, hwrote]
      exact ⟨_, _, rfl⟩
  | read slot buffer =>
      simp only [serve, h.readSlot_eq heeds buffer]
      exact ⟨_, _, rfl⟩

theorem least_of_took (htook : area.allocSlot? = some (slot, taken)) :
    IsLeast {i | i < area.slots ∧ (⟨i⟩ : SwapSlot) ∉ history.held} slot.index := by
  obtain ⟨hfree, -, hlt, -⟩ := allocSlot?_some htook
  refine ⟨⟨hlt, h.free_iff.1 hfree⟩, fun i hi => Nat.not_lt.1 fun before => hi.2 ?_⟩
  exact (h.held ⟨i⟩).1 (allocSlot?_least htook before)

theorem took_iff : (∃ taken, area.serve .alloc = .ok (.slot (some slot), taken)) ↔
    IsLeast {i | i < area.slots ∧ (⟨i⟩ : SwapSlot) ∉ history.held} slot.index := by
  constructor
  · rintro ⟨taken, replied⟩
    cases serve_ok replied with
    | took htook => exact h.least_of_took htook
  · intro hleast
    have ⟨hlt, hfree⟩ := hleast.1
    obtain ⟨⟨other, taken⟩, htook⟩ := Option.isSome_iff_exists.1
      ((allocSlot?_isSome h.covered).2 ⟨slot, hlt, h.free_iff.2 hfree⟩)
    obtain rfl : other = slot := SwapSlot.ext_index ((h.least_of_took htook).unique hleast)
    exact ⟨taken, by simp only [serve, htook]⟩

theorem full_iff : area.serve .alloc = .ok (.slot none, area) ↔
    ∀ i < area.slots, (⟨i⟩ : SwapSlot) ∈ history.held := by
  constructor
  · intro replied i hi
    cases serve_ok replied with
    | full full =>
        by_contra hfree
        have hsome := (allocSlot?_isSome h.covered).2 ⟨⟨i⟩, hi, h.free_iff.2 hfree⟩
        rw [full] at hsome
        cases hsome
  · intro hall
    have hnone : area.allocSlot? = none := by
      rw [← Option.not_isSome_iff_eq_none, allocSlot?_isSome h.covered]
      rintro ⟨slot, hlt, hfree⟩
      exact h.free_iff.1 hfree (hall slot.index hlt)
    simp only [serve, hnone]

end Records

theorem Served.records (served : Served disk history area) : Records disk history area := by
  induction served with
  | start => exact .start disk
  | next _ heeds replied ih => exact ih.next heeds (serve_ok replied)

/-- The swap area is a first-fit store of pages. The slot that it gives out is the first below its size that
is not held, and it gives none out only when all are held; a slot that is held is read as it was written last,
whatever happened to the other slots; and nothing that is asked about slots that are held fails or leaves the
disk. To free a slot that is not held is a panic that changes nothing. -/
theorem Served.first_fit (served : Served disk history area) :
    area.slots = disk.elim 0 (fun disk => disk.sectorCount / sectorsPerPage) ∧
    (∀ slot, (∃ taken, area.serve .alloc = .ok (.slot (some slot), taken)) ↔
      IsLeast {i | i < area.slots ∧ (⟨i⟩ : SwapSlot) ∉ history.held} slot.index) ∧
    (area.serve .alloc = .ok (.slot none, area) ↔
      ∀ i < area.slots, (⟨i⟩ : SwapSlot) ∈ history.held) ∧
    area.used = history.held.card ∧ area.used ≤ area.slots ∧
    (∀ slot ∈ history.held, ∀ buffer, area.serve (.read slot buffer) =
      .ok (.page ((history.lastWritten? slot).getD ((ofDisk disk).pageIn slot)), area)) ∧
    (∀ request : SwapRequest, request.Heeds history.held →
      ∃ reply area', area.serve request = .ok (reply, area')) ∧
    (∀ slot ∈ history.held, ∃ there first, area.disk = some there ∧ disk = some first ∧
      there.sectorCount = first.sectorCount ∧
      ∀ i < sectorsPerPage, slot.firstSector + i < first.sectorCount) ∧
    (∀ slot ∉ history.held, area.serve (.free slot) = .error (.doubleFree slot) ∧
      ∀ m : Machine, m.swap = area →
        DemandPaging.freeSlot slot m = .error (.doubleFree slot) m) := by
  have h := served.records
  refine ⟨?_, fun slot => h.took_iff, h.full_iff, h.used, h.used_le, fun slot hslot buffer => ?_,
    fun request heeds => h.serve_exists heeds, fun slot hslot => h.sectors_of_held hslot,
    fun slot hslot => ?_⟩
  · rw [h.slots]
    cases disk <;> rfl
  · simp only [serve, h.readSlot_eq hslot buffer]
  · have hpanic : area.freeSlot slot = .error (.doubleFree slot) := by
      rw [SwapArea.freeSlot, h.free_iff.2 hslot]
      rfl
    refine ⟨by simp only [serve, hpanic], fun m hm => ?_⟩
    change EStateM.bind (ofExcept (m.swap.freeSlot slot)) _ m = _
    rw [hm, hpanic]
    rfl

/-- An area of two words, all of it given out and two slots given back: the first of them is given out
next, and the last slot keeps what was written to it while its neighbour was written to and freed. -/
theorem Served.first_fit_in_second_word : ∃ history area,
    Served (some (.ofSize (66 * sectorsPerPage + 5))) history area ∧ area.slots = 66 ∧ area.used = 64 ∧
    (∃ taken, area.serve .alloc = .ok (.slot (some ⟨1⟩), taken)) ∧
    IsLeast {i | i < area.slots ∧ (⟨i⟩ : SwapSlot) ∉ history.held} 1 ∧
    (∀ buffer, area.serve (.read ⟨65⟩ buffer) = .ok (.page (.filled 7), area)) ∧
    area.serve (.free ⟨64⟩) = .error (.doubleFree ⟨64⟩) := by
  have played : ((ofDisk (some (.ofSize (66 * sectorsPerPage + 5)))).serveAll []
      (List.replicate 66 .alloc ++
        [.write ⟨65⟩ (.filled 7), .write ⟨64⟩ (.filled 8), .free ⟨1⟩, .free ⟨64⟩])).any (fun r =>
        decide (r.1.held.card = 64) && (decide (⟨65⟩ ∈ r.1.held) && (decide (⟨64⟩ ∉ r.1.held) &&
        (decide (r.1.lastWritten? ⟨65⟩ = some (.filled 7)) &&
        decide (r.2.allocSlot?.map Prod.fst = some ⟨1⟩))))) = true := by
    decide +kernel
  obtain ⟨⟨history, area⟩, hserved, hcheck⟩ := (Option.any_eq_true _ _).1 played
  simp only [Bool.and_eq_true, decide_eq_true_eq] at hcheck
  obtain ⟨hcard, hheld, hfree, hlast, hnext⟩ := hcheck
  have served := Served.start.serveAll hserved
  obtain ⟨hslots, htook, -, hused, -, hread, -, -, hpanic⟩ := served.first_fit
  obtain ⟨⟨slot, taken⟩, hgot, rfl⟩ := Option.map_eq_some_iff.1 hnext
  have htaken : ∃ taken, area.serve .alloc = .ok (.slot (some ⟨1⟩), taken) :=
    ⟨taken, by simp only [serve, hgot]⟩
  refine ⟨history, area, served, hslots.trans (by decide), hused.trans hcard, htaken,
    (htook ⟨1⟩).1 htaken, fun buffer => ?_, (hpanic ⟨64⟩ hfree).1⟩
  rw [hread ⟨65⟩ hheld buffer, hlast]
  rfl

end SwapArea

end DemandPaging
