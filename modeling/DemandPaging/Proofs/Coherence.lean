import DemandPaging.Proofs.Charts
import DemandPaging.Proofs.ResolvedFaults

/-!
What the machines that there may be in the midst of requests have in common. Besides being sound and
accounting for all that they have, they can tell a swap slot that is not in use whenever there is one.
-/

namespace DemandPaging

open DemandPaging.Core

namespace SwapArea

theorem firstClear?_least {words : List (BitVec 64)} {word : BitVec 64} {w b : Nat}
    (found : words[w]? = some word) (clear : word.getLsbD b = false) (hb : b < 64) :
    ∃ w' b', firstClear? words = some (w', b') ∧ w' * 64 + b' ≤ w * 64 + b := by
  induction words generalizing w with
  | nil => cases found
  | cons head rest ih =>
      unfold firstClear?
      by_cases hfull : head = BitVec.allOnes 64
      · rw [if_pos hfull]
        cases w with
        | zero =>
            cases found
            rw [hfull, BitVec.getLsbD_allOnes, decide_eq_true hb] at clear
            cases clear
        | succ w =>
            obtain ⟨w', b', hrest, hle⟩ := ih found
            rw [hrest]
            exact ⟨w' + 1, b', rfl, by omega⟩
      · rw [if_neg hfull]
        refine ⟨0, _, rfl, ?_⟩
        cases w with
        | zero =>
            cases found
            have hnot : ¬ b < (~~~word).ctz.toNat := fun hlt => by
              have hset := BitVec.getLsbD_false_of_lt_ctz hlt
              rw [BitVec.getLsbD_not, clear, decide_eq_true hb] at hset
              cases hset
            omega
        | succ w =>
            have hlt : (~~~head).ctz.toNat < 64 := BitVec.ctz_lt_iff_ne_zero.2 fun h0 => hfull (by
              rw [← @BitVec.not_not 64 head, h0, BitVec.not_zero])
            omega

def Covered (area : SwapArea) : Prop := area.slots ≤ area.bitmap.length * 64

theorem ofDisk_covered (disk : Option Disk) : (ofDisk disk).Covered := by
  simp only [Covered, ofDisk, List.length_replicate]
  omega

theorem allocSlot?_isSome {area : SwapArea} (covered : area.Covered) :
    area.allocSlot?.isSome ↔ ∃ slot : SwapSlot, slot.index < area.slots ∧ area.holds slot = false := by
  constructor
  · intro h
    obtain ⟨⟨slot, taken⟩, htaken⟩ := Option.isSome_iff_exists.1 h
    obtain ⟨free, -, within, -⟩ := allocSlot?_some htaken
    exact ⟨slot, within, free⟩
  · rintro ⟨slot, within, free⟩
    have hb : slot.bit < 64 := Nat.mod_lt _ (by decide)
    have hword : slot.word < area.bitmap.length := by
      simp only [Covered] at covered
      simp only [SwapSlot.word]
      omega
    have hindex : slot.word * 64 + slot.bit = slot.index := by
      simp only [SwapSlot.word, SwapSlot.bit]
      omega
    rw [holds, List.getElem?_eq_getElem hword, Option.getD_some] at free
    obtain ⟨w, b, hclear, hle⟩ := firstClear?_least (List.getElem?_eq_getElem hword) free hb
    unfold allocSlot?
    rw [hclear]
    dsimp only
    rw [if_neg (by omega)]
    rfl

theorem allocSlot?_bitmap {area taken : SwapArea} {slot : SwapSlot}
    (h : area.allocSlot? = some (slot, taken)) : taken.bitmap.length = area.bitmap.length := by
  unfold allocSlot? at h
  split at h
  · exact nomatch h
  · dsimp only at h
    split at h
    · exact nomatch h
    · cases h
      exact List.length_modify _ _ _

theorem freeSlot_bitmap {area area' : SwapArea} {slot : SwapSlot}
    (h : area.freeSlot slot = .ok area') : area'.bitmap.length = area.bitmap.length := by
  unfold freeSlot at h
  split at h
  · split at h
    · exact nomatch h
    · cases h
      exact List.length_modify _ _ _
  · exact nomatch h

theorem Covered.of_alloc {area taken area' : SwapArea} {slot : SwapSlot} {bytes : PageBytes}
    (h : area.Covered) (free : area.allocSlot? = some (slot, taken))
    (stored : taken.writeSlot slot bytes = .ok area') : area'.Covered := by
  obtain ⟨-, -, -, -, hslots⟩ := allocSlot?_some free
  obtain ⟨hbitmap, hslots', -⟩ := writeSlot_rest stored
  rw [Covered, hslots', hslots, hbitmap, allocSlot?_bitmap free]
  exact h

theorem Covered.of_free {area area' : SwapArea} {slot : SwapSlot} (h : area.Covered)
    (freed : area.freeSlot slot = .ok area') : area'.Covered := by
  obtain ⟨-, -, -, hslots⟩ := freeSlot_ok freed
  rw [Covered, hslots, freeSlot_bitmap freed]
  exact h

end SwapArea

namespace Core

variable {c c' : Core} {ds : List Deed}

theorem disown_swap (c : Core) (id : FrameId) (frame : Frame) (ref : PageRef) :
    (c.disown id frame ref).swap = c.swap := by
  unfold disown
  split <;> rfl

theorem Saves.covered {bytes : PageBytes} {entry : PageRef} {kind kind' : PageKind}
    (h : c.Saves bytes entry kind kind' c') (hc : c.swap.Covered) : c'.swap.Covered := by
  cases h with
  | anon free stored => exact hc.of_alloc free stored
  | clean | dirty => exact hc

theorem Fills.covered {ref : PageRef} {bytes bytes' : PageBytes} {kind kind' : PageKind}
    (h : c.Fills ref bytes kind kind' bytes' c' ds) (hc : c.swap.Covered) : c'.swap.Covered := by
  cases h with
  | slot _ freed => exact hc.of_free freed
  | made made =>
      obtain ⟨programs, rfl, -⟩ := made.core_eq
      exact hc
  | _ => exact hc

theorem Disposes.covered {page : Page} {entry : PageRef} (h : c.Disposes page entry c')
    (hc : c.swap.Covered) : c'.swap.Covered := by
  cases h with
  | slot _ freed => exact hc.of_free freed
  | _ => exact hc

theorem Step.covered (h : Step c ds c') (hc : c.swap.Covered) : c'.swap.Covered := by
  cases h with
  | evict _ _ saved => exact saved.covered hc
  | fill _ _ _ filled => exact filled.covered hc
  | fail _ _ _ _ made =>
      obtain ⟨programs, rfl, -⟩ := made.core_eq
      exact hc
  | copy | lose =>
      change SwapArea.Covered (Core.diverge _ _ _ _ _).swap
      rw [diverge, disown_swap]
      exact hc
  | shareHalf _ _ _ _ _ _ mapped => rcases mapped with rfl | rfl <;> exact hc
  | dropAway _ _ disposed => exact disposed.covered hc
  | drop _ _ _ disposed =>
      rw [disown_swap]
      exact disposed.covered hc
  | _ => exact hc

end Core

/-- What the machines that there may be in the midst of requests have in common. -/
structure Machine.Coherent (m : Machine) : Prop where
  sound : m.core.Sound
  accounted : ∃ n, m.core.Accounted n
  covered : m.swap.Covered

theorem Machine.Coherent.steps {m m' : Machine} {ds : List Deed} (h : m.Coherent)
    (run : Steps m.core ds m'.core) : m'.Coherent :=
  have ⟨n, accounted⟩ := h.accounted
  ⟨run.sound h.sound, ⟨n, run.accounted h.sound accounted⟩, run.keep Step.covered h.covered⟩

theorem Machine.Coherent.same {m m' : Machine} (h : m.Coherent) (same : m'.core = m.core) :
    m'.Coherent :=
  h.steps (same ▸ .refl _ : Steps m.core [] m'.core)

theorem Machine.Passes.coherent {frames : Nat} {sectors : Option Nat} {files : List File}
    {allocator : Allocator} {m : Machine}
    (passes : (Machine.fresh frames sectors files allocator).Passes m) : m.Coherent := by
  have fresh := Machine.fresh_tidy frames sectors files allocator
  have covered := passes.keepCore Step.covered (fun _ _ _ h => h) fresh (SwapArea.ofDisk_covered _)
  obtain ⟨m₁, ds, run, steps⟩ := passes
  have tidy := run.tidy fresh
  exact ⟨steps.sound tidy.sound, ⟨_, steps.accounted tidy.sound tidy.accounted⟩, covered⟩

end DemandPaging
