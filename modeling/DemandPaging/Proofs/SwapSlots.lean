import DemandPaging.Swap
import Mathlib.Data.List.Basic

namespace DemandPaging

namespace Disk

def sectorsFrom (disk : Disk) : (first count : Nat) → List Sector
  | _, 0 => []
  | first, count + 1 => disk.sector first :: disk.sectorsFrom (first + 1) count

theorem readSectors_ok {disk : Disk} {first count : Nat} {sectors : List Sector}
    (h : disk.readSectors first count = .ok sectors) : sectors = disk.sectorsFrom first count := by
  induction count generalizing first sectors with
  | zero =>
      cases h
      rfl
  | succ count ih =>
      simp only [readSectors] at h
      split at h
      · exact nomatch h
      · next bytes hone =>
          split at h
          · exact nomatch h
          · next rest hrest =>
              cases h
              unfold readSector at hone
              split at hone
              · cases hone
                rw [ih hrest]
                rfl
              · exact nomatch hone

theorem sector_insert (disk : Disk) (n k : Nat) (bytes : Sector) :
    ({ disk with written := disk.written.insert n bytes } : Disk).sector k =
      if n = k then bytes else disk.sector k := by
  simp only [sector, Table.find?_insert]
  split <;> rfl

theorem writeSectors_ok {disk disk' : Disk} {first : Nat} {sectors : List Sector}
    (h : disk.writeSectors first sectors = .ok disk') :
    ∀ k, disk'.sector k =
      if first ≤ k then sectors[k - first]?.getD (disk.sector k) else disk.sector k := by
  induction sectors generalizing first disk with
  | nil =>
      cases h
      intro k
      simp only [List.getElem?_nil, Option.getD_none, ite_self]
  | cons bytes rest ih =>
      simp only [writeSectors] at h
      split at h
      · exact nomatch h
      · next written hone =>
          unfold writeSector at hone
          split at hone
          · cases hone
            intro k
            rw [ih h k, sector_insert]
            rcases Nat.lt_trichotomy k first with hk | rfl | hk
            · rw [if_neg (by omega), if_neg (by omega), if_neg (by omega)]
            · rw [if_neg (by omega), if_pos rfl, if_pos (Nat.le_refl k), Nat.sub_self]
              rfl
            · rw [if_pos (by omega), if_neg (by omega), if_pos (by omega),
                show k - first = k - (first + 1) + 1 by omega, List.getElem?_cons_succ]
          · exact nomatch hone

theorem sectorsFrom_eq {disk : Disk} {first : Nat} {sectors : List Sector}
    (h : ∀ i, i < sectors.length → disk.sector (first + i) = sectors[i]?.getD Sector.zero) :
    disk.sectorsFrom first sectors.length = sectors := by
  induction sectors generalizing first with
  | nil => rfl
  | cons bytes rest ih =>
      have hhead := h 0 (Nat.succ_pos _)
      simp only [List.length_cons, sectorsFrom]
      rw [ih fun i hi => ?_]
      · exact congrArg (· :: rest) hhead
      · have hi' := h (i + 1) (Nat.succ_lt_succ hi)
        rw [show first + 1 + i = first + (i + 1) by omega, hi', List.getElem?_cons_succ]

theorem sectorsFrom_congr {disk disk' : Disk} {first count : Nat}
    (h : ∀ k, first ≤ k → k < first + count → disk'.sector k = disk.sector k) :
    disk'.sectorsFrom first count = disk.sectorsFrom first count := by
  induction count generalizing first with
  | zero => rfl
  | succ count ih =>
      simp only [sectorsFrom]
      rw [h first (Nat.le_refl _) (by omega), ih fun k h₁ h₂ => h k (by omega) (by omega)]

theorem readSectors_exists {disk : Disk} {first count : Nat}
    (h : first + count ≤ disk.sectorCount) : ∃ sectors, disk.readSectors first count = .ok sectors := by
  induction count generalizing first with
  | zero => exact ⟨[], rfl⟩
  | succ count ih =>
      obtain ⟨rest, hrest⟩ := @ih (first + 1) (by omega)
      refine ⟨disk.sector first :: rest, ?_⟩
      simp only [readSectors, readSector, if_pos (show first < disk.sectorCount by omega), hrest]

theorem writeSectors_exists {disk : Disk} {first : Nat} {sectors : List Sector}
    (h : first + sectors.length ≤ disk.sectorCount) :
    ∃ disk', disk.writeSectors first sectors = .ok disk' := by
  induction sectors generalizing disk first with
  | nil => exact ⟨disk, rfl⟩
  | cons bytes rest ih =>
      rw [List.length_cons] at h
      simp only [writeSectors, writeSector, if_pos (show first < disk.sectorCount by omega)]
      exact ih (by dsimp only; omega)

theorem writeSectors_count {disk disk' : Disk} {first : Nat} {sectors : List Sector}
    (h : disk.writeSectors first sectors = .ok disk') : disk'.sectorCount = disk.sectorCount := by
  induction sectors generalizing disk first with
  | nil =>
      cases h
      rfl
  | cons bytes rest ih =>
      simp only [writeSectors, writeSector] at h
      split at h
      · exact nomatch h
      · next hone =>
          split at hone
          · cases hone
            exact (ih h).trans rfl
          · exact nomatch hone

end Disk

theorem SwapSlot.ext_index {slot other : SwapSlot} (h : slot.index = other.index) : slot = other := by
  cases slot
  cases other
  cases h
  rfl

namespace SwapArea

def pageIn (area : SwapArea) (slot : SwapSlot) : PageBytes :=
  match area.disk with
  | some disk => PageBytes.ofSectors (disk.sectorsFrom slot.firstSector sectorsPerPage)
  | none => PageBytes.zero

def Backed (area : SwapArea) : Prop := area.disk = none → area.slots = 0

theorem ofDisk_backed (disk : Option Disk) : (ofDisk disk).Backed := by
  intro h
  cases disk with
  | none => rfl
  | some disk => exact nomatch h

theorem holds_ofDisk (disk : Option Disk) (slot : SwapSlot) : (ofDisk disk).holds slot = false := by
  have hget (n w : Nat) : ((List.replicate n (0 : BitVec 64))[w]?).getD 0 = 0 := by
    rw [List.getElem?_replicate]
    split <;> rfl
  simp only [holds, ofDisk, hget]
  exact BitVec.getLsbD_zero

theorem readSlot_ok {area : SwapArea} {slot : SwapSlot} {old page : PageBytes}
    (hd : area.disk ≠ none) (h : area.readSlot slot old = .ok page) : page = area.pageIn slot := by
  unfold readSlot at h
  split at h
  · next hn => exact (hd hn).elim
  · next disk hs =>
      split at h
      · exact nomatch h
      · next sectors hread =>
          cases h
          simp only [pageIn, hs, Disk.readSectors_ok hread]

theorem writeSlot_ok {area area' : SwapArea} {slot : SwapSlot} {page : PageBytes}
    (hd : area.disk ≠ none) (h : area.writeSlot slot page = .ok area') :
    area'.pageIn slot = page ∧ (∀ other, other ≠ slot → area'.pageIn other = area.pageIn other) ∧
      area'.bitmap = area.bitmap ∧ area'.slots = area.slots ∧ area'.disk ≠ none := by
  unfold writeSlot at h
  split at h
  · next hn => exact (hd hn).elim
  · next disk hs =>
      split at h
      · exact nomatch h
      · next disk' hwrite =>
          cases h
          have hsec := Disk.writeSectors_ok hwrite
          have hlen : (PageBytes.toSectors page).length = sectorsPerPage :=
            @ByteTree.length_parts sectorBits 3 page
          refine ⟨?_, fun other ho => ?_, rfl, rfl, nofun⟩
          · simp only [pageIn]
            rw [← hlen, Disk.sectorsFrom_eq, PageBytes.ofSectors_toSectors]
            intro i hi
            rw [hsec, if_pos (by omega), Nat.add_sub_cancel_left, List.getElem?_eq_getElem hi]
            rfl
          · simp only [pageIn, hs]
            rw [Disk.sectorsFrom_congr fun k h₁ h₂ => ?_]
            have hne : other.index ≠ slot.index := fun he => ho (SwapSlot.ext_index he)
            rw [hsec]
            by_cases hk : slot.firstSector ≤ k
            · have hout : (PageBytes.toSectors page).length ≤ k - slot.firstSector := by
                simp only [SwapSlot.firstSector, sectorsPerPage] at *
                omega
              rw [if_pos hk, List.getElem?_eq_none hout, Option.getD_none]
            · rw [if_neg hk]

theorem firstClear?_some {words : List (BitVec 64)} {w b : Nat} (h : firstClear? words = some (w, b)) :
    b < 64 ∧ ∃ word, words[w]? = some word ∧ word.getLsbD b = false := by
  induction words generalizing w b with
  | nil => exact nomatch h
  | cons word rest ih =>
      simp only [firstClear?] at h
      split at h
      · split at h
        · next w' b' hrest =>
            cases h
            exact ih hrest
        · exact nomatch h
      · next hfull =>
          cases h
          have hne : ~~~word ≠ 0#64 := by
            intro h0
            apply hfull
            rw [← @BitVec.not_not 64 word, h0, BitVec.not_zero]
          have hlt : (~~~word).ctz.toNat < 64 := BitVec.ctz_lt_iff_ne_zero.2 hne
          have hbit := BitVec.getLsbD_true_ctz_of_ne_zero hne
          rw [BitVec.getLsbD_not, Bool.and_eq_true, Bool.not_eq_true'] at hbit
          exact ⟨hlt, word, rfl, hbit.2⟩

theorem holds_modify (area : SwapArea) (slot : SwapSlot) {f : BitVec 64 → BitVec 64} {b : Bool}
    (hword : slot.word < area.bitmap.length)
    (hf : ∀ word i, i < 64 → (f word).getLsbD i = if i = slot.bit then b else word.getLsbD i)
    (other : SwapSlot) :
    ({ area with bitmap := area.bitmap.modify slot.word f } : SwapArea).holds other =
      if other = slot then b else area.holds other := by
  have hbit : other.bit < 64 := Nat.mod_lt _ (by decide)
  simp only [holds, List.getElem?_modify]
  by_cases hw : slot.word = other.word
  · rw [hw] at hword
    simp only [hw, List.getElem?_eq_getElem hword, if_true, Option.map_eq_map, Option.map_some,
      Option.getD_some, hf _ _ hbit]
    by_cases ho : other.bit = slot.bit
    · have he : other = slot := SwapSlot.ext_index (by
        simp only [SwapSlot.word, SwapSlot.bit] at hw ho
        omega)
      rw [if_pos ho, if_pos he]
    · rw [if_neg ho, if_neg fun he => ho (congrArg SwapSlot.bit he)]
  · rw [if_neg fun he => hw (congrArg SwapSlot.word he).symm]
    simp only [hw, if_false, Option.map_eq_map, Option.map_id']

theorem allocSlot?_some {area taken : SwapArea} {slot : SwapSlot}
    (h : area.allocSlot? = some (slot, taken)) :
    area.holds slot = false ∧
      (∀ other, taken.holds other = if other = slot then true else area.holds other) ∧
      slot.index < area.slots ∧ taken.disk = area.disk ∧ taken.slots = area.slots := by
  simp only [allocSlot?] at h
  split at h
  · exact nomatch h
  · next w b hclear =>
      obtain ⟨hb, word, hword, hbit⟩ := firstClear?_some hclear
      split at h
      · exact nomatch h
      · next hlt =>
          cases h
          have hw : (⟨w * 64 + b⟩ : SwapSlot).word = w := by
            simp only [SwapSlot.word]
            omega
          have hb' : (⟨w * 64 + b⟩ : SwapSlot).bit = b := by
            simp only [SwapSlot.bit]
            omega
          obtain ⟨hlen, -⟩ := List.getElem?_eq_some_iff.1 hword
          refine ⟨?_, fun other => ?_, Nat.lt_of_not_le hlt, rfl, rfl⟩
          · simp only [holds, hw, hb', hword, Option.getD_some, hbit]
          · have hm := holds_modify area ⟨w * 64 + b⟩ (f := (· ||| BitVec.twoPow 64 b)) (b := true)
              (by rwa [hw]) (fun word i hi => ?_) other
            · rw [hw] at hm
              exact hm
            · rw [BitVec.getLsbD_or, BitVec.getLsbD_twoPow, hb']
              by_cases hi' : b = i
              · subst hi'
                simp [hi]
              · simp [hi', Ne.symm hi']

theorem freeSlot_ok {area area' : SwapArea} {slot : SwapSlot} (h : area.freeSlot slot = .ok area') :
    area.holds slot = true ∧
      (∀ other, area'.holds other = if other = slot then false else area.holds other) ∧
      area'.disk = area.disk ∧ area'.slots = area.slots := by
  simp only [freeSlot] at h
  split at h
  · next hheld =>
      split at h
      · exact nomatch h
      · cases h
        refine ⟨hheld, fun other => ?_, rfl, rfl⟩
        have hlen : slot.word < area.bitmap.length := by
          by_contra hn
          simp only [holds, List.getElem?_eq_none (Nat.le_of_not_lt hn)] at hheld
          exact nomatch hheld.symm.trans BitVec.getLsbD_zero
        refine holds_modify area slot hlen (fun word i hi => ?_) other
        rw [BitVec.getLsbD_and, BitVec.getLsbD_not, BitVec.getLsbD_twoPow]
        by_cases hi' : slot.bit = i
        · subst hi'
          simp [hi]
        · simp [hi, hi', Ne.symm hi']
  · exact nomatch h

def Roomy (area : SwapArea) : Prop :=
  ∀ disk, area.disk = some disk → area.slots * sectorsPerPage ≤ disk.sectorCount

theorem ofDisk_roomy (disk : Option Disk) : (ofDisk disk).Roomy := by
  intro d hd
  obtain rfl : disk = some d := hd
  exact Nat.div_mul_le_self _ _

theorem Roomy.sectors {area : SwapArea} {slot : SwapSlot} {disk : Disk} (h : area.Roomy)
    (hd : area.disk = some disk) (hlt : slot.index < area.slots) :
    slot.firstSector + sectorsPerPage ≤ disk.sectorCount := by
  have hroom := h disk hd
  simp only [SwapSlot.firstSector, sectorsPerPage] at *
  omega

theorem readSlot_exists {area : SwapArea} {slot : SwapSlot} (h : area.Roomy)
    (hlt : slot.index < area.slots) (page : PageBytes) : ∃ bytes, area.readSlot slot page = .ok bytes := by
  unfold readSlot
  split
  · exact ⟨page, rfl⟩
  · next disk hd =>
      obtain ⟨sectors, hread⟩ := Disk.readSectors_exists (h.sectors hd hlt)
      simp only [hread]
      exact ⟨_, rfl⟩

theorem writeSlot_exists {area : SwapArea} {slot : SwapSlot} (h : area.Roomy)
    (hlt : slot.index < area.slots) (page : PageBytes) : ∃ area', area.writeSlot slot page = .ok area' := by
  unfold writeSlot
  split
  · exact ⟨area, rfl⟩
  · next disk hd =>
      have hlen : (PageBytes.toSectors page).length = sectorsPerPage :=
        @ByteTree.length_parts sectorBits 3 page
      obtain ⟨disk', hwrite⟩ := @Disk.writeSectors_exists disk _ (PageBytes.toSectors page)
        (hlen ▸ h.sectors hd hlt)
      simp only [hwrite]
      exact ⟨_, rfl⟩

theorem writeSlot_rest {area area' : SwapArea} {slot : SwapSlot} {page : PageBytes}
    (h : area.writeSlot slot page = .ok area') : area'.bitmap = area.bitmap ∧
      area'.slots = area.slots ∧ area'.used = area.used ∧ (area.Roomy → area'.Roomy) := by
  unfold writeSlot at h
  split at h
  · cases h
    exact ⟨rfl, rfl, rfl, id⟩
  · next disk hd =>
      split at h
      · exact nomatch h
      · next disk' hwrite =>
          cases h
          refine ⟨rfl, rfl, rfl, fun hroomy d hd' => ?_⟩
          cases hd'
          rw [Disk.writeSectors_count hwrite]
          exact hroomy disk hd

theorem allocSlot?_used {area taken : SwapArea} {slot : SwapSlot}
    (h : area.allocSlot? = some (slot, taken)) : taken.used = area.used + 1 := by
  unfold allocSlot? at h
  split at h
  · exact nomatch h
  · dsimp only at h
    split at h
    · exact nomatch h
    · cases h
      rfl

theorem freeSlot_used {area area' : SwapArea} {slot : SwapSlot} (h : area.freeSlot slot = .ok area') :
    area'.used + 1 = area.used := by
  unfold freeSlot at h
  split at h
  · split at h
    · exact nomatch h
    · next hused =>
        cases h
        exact Nat.succ_pred_eq_of_ne_zero hused
  · exact nomatch h

theorem freeSlot_exists {area : SwapArea} {slot : SwapSlot} (held : area.holds slot = true)
    (used : 0 < area.used) : ∃ area', area.freeSlot slot = .ok area' := by
  unfold freeSlot
  rw [if_pos held, if_neg (Nat.ne_of_gt used)]
  exact ⟨_, rfl⟩

end SwapArea

end DemandPaging
