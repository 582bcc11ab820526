import DemandPaging.Memory.Pool

/-!
The buddy allocator. It keeps blocks of a power of two of pages: level `k` has the first pages of the
free blocks of `2 ^ k` pages. A request splits the smallest block that there is; a page that comes back
is joined with its buddy as long as the buddy is free too.
-/

namespace DemandPaging.Buddy

def addBlock : List (List PhysPage) → (order : Nat) → PhysPage → List (List PhysPage)
  | [], 0, b => [[b]]
  | [], k + 1, b => [] :: addBlock [] k b
  | level :: rest, 0, b => (b :: level) :: rest
  | level :: rest, k + 1, b => level :: addBlock rest k b

def lowestBit (n : Nat) : Nat := n - (n &&& (n - 1))

/-- The size of the block that starts at `start` when the pages up to `stop` are handed over. -/
def blockSize (start stop : Nat) : Nat :=
  min (if start = 0 then 32 else lowestBit start) (1 <<< Nat.log2 (stop - start))

def addPages : (fuel start stop : Nat) → List (List PhysPage) → List (List PhysPage)
  | 0, _, _, levels => levels
  | fuel + 1, start, stop, levels =>
      if start < stop then
        let size := blockSize start stop
        addPages fuel (start + size) stop (addBlock levels (Nat.log2 size) start)
      else levels

/-- Takes a page from the lowest level that has a block; `size` is the size of blocks of the first
level. What is left of a split block stays on the levels below, one half on each. -/
def takeFrom : (size : Nat) → List (List PhysPage) → Option (PhysPage × List (List PhysPage))
  | _, [] => none
  | size, level :: rest =>
      match level.min? with
      | some b => some (b, level.erase b :: rest)
      | none =>
          match takeFrom (2 * size) rest with
          | some (b, rest') => some (b, [b + size] :: rest')
          | none => none

def buddy (size : Nat) (b : PhysPage) : PhysPage :=
  if b / size % 2 = 0 then b + size else b - size

def giveTo : (size : Nat) → PhysPage → List (List PhysPage) → List (List PhysPage)
  | _, b, [] => [[b]]
  | size, b, level :: rest =>
      if buddy size b ∈ level then
        level.erase (buddy size b) :: giveTo (2 * size) (min b (buddy size b)) rest
      else (b :: level) :: rest

def freeFrom : (size : Nat) → List (List PhysPage) → Nat
  | _, [] => 0
  | size, level :: rest => level.length * size + freeFrom (2 * size) rest

theorem takeFrom_isSome {size : Nat} (hs : 0 < size) {levels : List (List PhysPage)} :
    (takeFrom size levels).isSome ↔ 0 < freeFrom size levels := by
  induction levels generalizing size with
  | nil => simp [takeFrom, freeFrom]
  | cons level rest ih =>
      cases level with
      | nil =>
          have h2 : 0 < 2 * size := by omega
          simp only [takeFrom, List.min?_nil, freeFrom, List.length_nil, Nat.zero_mul, Nat.zero_add,
            ← ih h2]
          cases takeFrom (2 * size) rest <;> simp
      | cons b level =>
          have : 0 < (level.length + 1) * size := Nat.mul_pos (by omega) hs
          simp [takeFrom, List.min?_cons, freeFrom]
          omega

def inBlock (size b p : Nat) : Bool := b ≤ p && p < b + size

def countFrom (p : PhysPage) : (size : Nat) → List (List PhysPage) → Nat
  | _, [] => 0
  | size, level :: rest => level.countP (inBlock size · p) + countFrom p (2 * size) rest

def AlignedFrom : (size : Nat) → List (List PhysPage) → Prop
  | _, [] => True
  | size, level :: rest => (∀ b ∈ level, b % size = 0) ∧ AlignedFrom (2 * size) rest

theorem toNat_inBlock (size b p : Nat) :
    (inBlock size b p).toNat = if b ≤ p ∧ p < b + size then 1 else 0 := by
  rw [inBlock, ← Bool.decide_and]
  split
  · next h => rw [decide_eq_true h, Bool.toNat_true]
  · next h => rw [decide_eq_false h, Bool.toNat_false]

theorem inBlock_halves (size b p : Nat) :
    (inBlock (2 * size) b p).toNat = (inBlock size b p).toNat + (inBlock size (b + size) p).toNat := by
  simp only [toNat_inBlock]
  split <;> split <;> split <;> omega

theorem countP_erase_add {level : List PhysPage} {b : PhysPage} (hb : b ∈ level) (size p : Nat) :
    (level.erase b).countP (inBlock size · p) + (inBlock size b p).toNat =
      level.countP (inBlock size · p) := by
  rw [(List.perm_cons_erase hb).countP_eq, List.countP_cons]
  cases inBlock size b p <;> rfl

theorem mod_of_mod_two_mul {b size : Nat} (h : b % (2 * size) = 0) : b % size = 0 :=
  Nat.mod_eq_zero_of_dvd (Nat.dvd_trans ⟨2, Nat.mul_comm 2 size⟩ (Nat.dvd_of_mod_eq_zero h))

theorem takeFrom_count {size : Nat} {levels rest : List (List PhysPage)} {b : PhysPage}
    (h : takeFrom size levels = some (b, rest)) (ha : AlignedFrom size levels) :
    b % size = 0 ∧ AlignedFrom size rest ∧
      ∀ p, countFrom p size levels = countFrom p size rest + (inBlock size b p).toNat := by
  induction levels generalizing size b rest with
  | nil => cases h
  | cons level levels ih =>
      obtain ⟨hl, ha⟩ := ha
      simp only [takeFrom] at h
      split at h
      · next a hmin =>
          have hmem : a ∈ level := List.min?_mem hmin
          simp only [Option.some.injEq, Prod.mk.injEq] at h
          obtain ⟨rfl, rfl⟩ := h
          refine ⟨hl a hmem, ⟨fun x hx => hl x (List.mem_of_mem_erase hx), ha⟩, fun p => ?_⟩
          have he := countP_erase_add hmem size p
          simp only [countFrom]
          omega
      · next hmin =>
          have hnil : level = [] := List.min?_eq_none_iff.1 hmin
          split at h
          · next a rest' ht =>
              simp only [Option.some.injEq, Prod.mk.injEq] at h
              obtain ⟨rfl, rfl⟩ := h
              obtain ⟨hmod, ha', hcount⟩ := ih ht ha
              have hmod' := mod_of_mod_two_mul hmod
              refine ⟨hmod', ⟨fun x hx => ?_, ha'⟩, fun p => ?_⟩
              · rw [List.mem_singleton.1 hx, Nat.add_mod_right]
                exact hmod'
              · have hc := hcount p
                have hh := inBlock_halves size a p
                subst hnil
                simp only [countFrom, List.countP_nil, List.countP_singleton] at *
                cases hb : inBlock size (a + size) p <;> simp only [hb, Bool.toNat_true,
                  Bool.toNat_false, Bool.false_eq_true, if_true, if_false] at * <;> omega
          · cases h

theorem buddy_spec {size b : Nat} (hs : 0 < size) (hb : b % size = 0) :
    buddy size b % size = 0 ∧ min b (buddy size b) % (2 * size) = 0 ∧
      ∀ p, (inBlock (2 * size) (min b (buddy size b)) p).toNat =
        (inBlock size b p).toNat + (inBlock size (buddy size b) p).toNat := by
  obtain ⟨q, rfl⟩ : ∃ q, b = size * q := Nat.dvd_of_mod_eq_zero hb
  have hq : size * q / size = q := Nat.mul_div_cancel_left q hs
  by_cases heven : q % 2 = 0
  · have hbuddy : buddy size (size * q) = size * q + size := by simp only [buddy, hq, heven, if_pos]
    obtain ⟨r, rfl⟩ : ∃ r, q = 2 * r := ⟨q / 2, by omega⟩
    rw [hbuddy, Nat.min_eq_left (Nat.le_add_right _ _)]
    refine ⟨by rw [Nat.add_mod_right, Nat.mul_mod_right], ?_, fun p => inBlock_halves _ _ _⟩
    rw [← Nat.mul_assoc, Nat.mul_comm size 2, Nat.mul_mod_right]
  · have hbuddy : buddy size (size * q) = size * q - size := by
      simp only [buddy, hq, heven, if_neg, not_false_iff]
    obtain ⟨r, rfl⟩ : ∃ r, q = 2 * r + 1 := ⟨q / 2, by omega⟩
    have hsub : size * (2 * r + 1) - size = size * (2 * r) := by
      rw [Nat.mul_add, Nat.mul_one, Nat.add_sub_cancel]
    have hadd : size * (2 * r + 1) = size * (2 * r) + size := by rw [Nat.mul_add, Nat.mul_one]
    rw [hbuddy, hsub, Nat.min_eq_right (by omega)]
    refine ⟨Nat.mul_mod_right _ _, ?_, fun p => ?_⟩
    · rw [← Nat.mul_assoc, Nat.mul_comm size 2, Nat.mul_mod_right]
    · rw [inBlock_halves, hadd, Nat.add_comm]

theorem giveTo_count {size b : Nat} {levels : List (List PhysPage)} (hs : 0 < size)
    (hb : b % size = 0) (ha : AlignedFrom size levels) :
    AlignedFrom size (giveTo size b levels) ∧
      ∀ p, countFrom p size (giveTo size b levels) =
        countFrom p size levels + (inBlock size b p).toNat := by
  induction levels generalizing size b with
  | nil =>
      refine ⟨⟨fun x hx => by rwa [List.mem_singleton.1 hx], trivial⟩, fun p => ?_⟩
      simp only [giveTo, countFrom, List.countP_singleton]
      cases inBlock size b p <;> rfl
  | cons level levels ih =>
      obtain ⟨hl, ha⟩ := ha
      simp only [giveTo]
      split
      · next hmem =>
          obtain ⟨-, hmod, hjoin⟩ := buddy_spec hs hb
          obtain ⟨ha', hcount⟩ := ih (by omega : 0 < 2 * size) hmod ha
          refine ⟨⟨fun x hx => hl x (List.mem_of_mem_erase hx), ha'⟩, fun p => ?_⟩
          have he := countP_erase_add hmem size p
          have hc := hcount p
          have hj := hjoin p
          simp only [countFrom]
          omega
      · refine ⟨⟨fun x hx => ?_, ha⟩, fun p => ?_⟩
        · rcases List.mem_cons.1 hx with rfl | hx
          · exact hb
          · exact hl x hx
        · simp only [countFrom, List.countP_cons]
          cases inBlock size b p <;> simp only [Bool.toNat_true, Bool.toNat_false,
            Bool.false_eq_true, if_true, if_false] <;> omega

theorem inBlock_one (b p : Nat) : (inBlock 1 b p).toNat = if b = p then 1 else 0 := by
  simp only [toNat_inBlock]
  split <;> split <;> omega

theorem addBlock_count {size b : Nat} (levels : List (List PhysPage)) (k : Nat)
    (hb : b % (size <<< k) = 0) (ha : AlignedFrom size levels) :
    AlignedFrom size (addBlock levels k b) ∧
      ∀ p, countFrom p size (addBlock levels k b) =
        countFrom p size levels + (inBlock (size <<< k) b p).toNat := by
  induction k generalizing size levels with
  | zero =>
      rw [Nat.shiftLeft_zero] at hb ⊢
      cases levels with
      | nil =>
          refine ⟨⟨fun x hx => by rwa [List.mem_singleton.1 hx], trivial⟩, fun p => ?_⟩
          simp only [addBlock, countFrom, List.countP_singleton]
          cases inBlock size b p <;> rfl
      | cons level rest =>
          refine ⟨⟨fun x hx => ?_, ha.2⟩, fun p => ?_⟩
          · rcases List.mem_cons.1 hx with rfl | hx
            · exact hb
            · exact ha.1 x hx
          · simp only [addBlock, countFrom, List.countP_cons]
            cases inBlock size b p <;> simp only [Bool.toNat_true, Bool.toNat_false,
              Bool.false_eq_true, if_true, if_false] <;> omega
  | succ k ih =>
      rw [Nat.shiftLeft_succ_inside] at hb ⊢
      cases levels with
      | nil =>
          obtain ⟨ha', hcount⟩ := ih [] hb trivial
          refine ⟨⟨fun x hx => (List.not_mem_nil hx).elim, ha'⟩, fun p => ?_⟩
          have hc := hcount p
          simp only [addBlock, countFrom, List.countP_nil] at *
          omega
      | cons level rest =>
          obtain ⟨ha', hcount⟩ := ih rest hb ha.2
          refine ⟨⟨ha.1, ha'⟩, fun p => ?_⟩
          have hc := hcount p
          simp only [addBlock, countFrom] at *
          omega

theorem lowestBit_spec (n : Nat) (hn : 0 < n) :
    ∃ k, lowestBit n = 1 <<< k ∧ n % (1 <<< k) = 0 := by
  induction n using Nat.strongRecOn with
  | ind n ih =>
      obtain ⟨h, rfl | rfl⟩ : ∃ h, n = 2 * h ∨ n = 2 * h + 1 := ⟨n / 2, by omega⟩
      · obtain ⟨k, hk, hmod⟩ := ih h (by omega) (by omega)
        have hand : (2 * h) &&& (2 * h - 1) = 2 * (h &&& (h - 1)) := by
          have hdiv : ((2 * h) &&& (2 * h - 1)) / 2 = h &&& (h - 1) := by
            rw [Nat.and_div_two]
            congr 1 <;> omega
          have hlow := @Nat.and_mod_two_eq_one (2 * h) (2 * h - 1)
          omega
        have hle : h &&& (h - 1) ≤ h := Nat.and_le_left
        refine ⟨k + 1, ?_, ?_⟩
        · simp only [lowestBit, hand, Nat.shiftLeft_succ] at hk ⊢
          omega
        · rw [Nat.shiftLeft_succ, Nat.mul_mod_mul_left, hmod]
      · refine ⟨0, ?_, Nat.mod_one _⟩
        have hand : (2 * h + 1) &&& (2 * h + 1 - 1) = 2 * h := by
          have hdiv : ((2 * h + 1) &&& (2 * h)) / 2 = h := by
            rw [Nat.and_div_two]
            have h1 : (2 * h + 1) / 2 = h := by omega
            have h2 : (2 * h) / 2 = h := by omega
            rw [h1, h2, Nat.and_self]
          have hlow := @Nat.and_mod_two_eq_one (2 * h + 1) (2 * h)
          simp only [Nat.add_sub_cancel]
          omega
        simp only [lowestBit, hand, Nat.shiftLeft_zero]
        omega

theorem blockSize_spec {start stop : Nat} (h : start < stop) :
    ∃ k, blockSize start stop = 1 <<< k ∧ start % (1 <<< k) = 0 ∧ start + 1 <<< k ≤ stop := by
  obtain ⟨a, ha, hmod⟩ : ∃ a, (if start = 0 then 32 else lowestBit start) = 1 <<< a ∧
      start % (1 <<< a) = 0 := by
    split
    · next h0 => exact ⟨5, rfl, by rw [h0, Nat.zero_mod]⟩
    · next h0 => exact lowestBit_spec start (by omega)
  have hlog : 1 <<< Nat.log2 (stop - start) ≤ stop - start := by
    rw [Nat.one_shiftLeft]
    exact Nat.log2_self_le (by omega)
  refine ⟨min a (Nat.log2 (stop - start)), ?_, ?_, ?_⟩
  · simp only [blockSize, ha, Nat.one_shiftLeft]
    rcases Nat.le_total a (Nat.log2 (stop - start)) with hle | hle
    · rw [Nat.min_eq_left hle, Nat.min_eq_left (Nat.pow_le_pow_right (by decide) hle)]
    · rw [Nat.min_eq_right hle, Nat.min_eq_right (Nat.pow_le_pow_right (by decide) hle)]
  · refine Nat.mod_eq_zero_of_dvd (Nat.dvd_trans ?_ (Nat.dvd_of_mod_eq_zero hmod))
    rw [Nat.one_shiftLeft, Nat.one_shiftLeft]
    exact Nat.pow_dvd_pow 2 (Nat.min_le_left _ _)
  · have hle : 1 <<< min a (Nat.log2 (stop - start)) ≤ 1 <<< Nat.log2 (stop - start) := by
      rw [Nat.one_shiftLeft, Nat.one_shiftLeft]
      exact Nat.pow_le_pow_right (by decide) (Nat.min_le_right _ _)
    omega

theorem inBlock_split {start middle stop : Nat} (h₁ : start ≤ middle) (h₂ : middle ≤ stop) (p : Nat) :
    (inBlock (stop - start) start p).toNat =
      (inBlock (middle - start) start p).toNat + (inBlock (stop - middle) middle p).toNat := by
  simp only [toNat_inBlock]
  split <;> split <;> split <;> omega

theorem addPages_count (fuel start stop : Nat) (levels : List (List PhysPage))
    (hf : stop - start ≤ fuel) (ha : AlignedFrom 1 levels) :
    AlignedFrom 1 (addPages fuel start stop levels) ∧
      ∀ p, countFrom p 1 (addPages fuel start stop levels) =
        countFrom p 1 levels + (inBlock (stop - start) start p).toNat := by
  have hempty (hle : stop ≤ start) (p : Nat) : (inBlock (stop - start) start p).toNat = 0 := by
    simp only [toNat_inBlock]
    split <;> omega
  induction fuel generalizing start levels with
  | zero => exact ⟨ha, fun p => by rw [hempty (by omega)]; rfl⟩
  | succ fuel ih =>
      simp only [addPages]
      split
      · next hlt =>
          obtain ⟨k, hk, hmod, hle⟩ := blockSize_spec hlt
          have hlog : Nat.log2 (1 <<< k) = k := by rw [Nat.one_shiftLeft, Nat.log2_two_pow]
          have hpos : 0 < 1 <<< k := by rw [Nat.one_shiftLeft]; exact Nat.two_pow_pos k
          obtain ⟨ha', hadd⟩ := addBlock_count levels k hmod ha
          rw [hk, hlog]
          obtain ⟨ha'', hrest⟩ := ih (start + 1 <<< k) _ (by omega) ha'
            (fun hle p => by
              simp only [toNat_inBlock]
              split <;> omega)
          refine ⟨ha'', fun p => ?_⟩
          rw [hrest, hadd, inBlock_split (Nat.le_add_right start (1 <<< k)) hle,
            Nat.add_sub_cancel_left, Nat.add_assoc]
      · next hle => exact ⟨ha, fun p => by rw [hempty (by omega)]; rfl⟩

theorem length_erase_mul {level : List PhysPage} {b : PhysPage} (hb : b ∈ level) (size : Nat) :
    (level.erase b).length * size + size = level.length * size := by
  have shorter : (level.erase b).length + 1 = level.length := by
    rw [List.length_erase_of_mem hb]
    exact Nat.succ_pred_eq_of_pos (List.length_pos_of_mem hb)
  rw [← Nat.succ_mul, Nat.succ_eq_add_one, shorter]

theorem takeFrom_free {size : Nat} {levels rest : List (List PhysPage)} {b : PhysPage}
    (h : takeFrom size levels = some (b, rest)) :
    freeFrom size levels = freeFrom size rest + size := by
  induction levels generalizing size rest with
  | nil => cases h
  | cons level levels ih =>
      unfold takeFrom at h
      split at h
      · next a ha =>
          cases h
          have hlen := length_erase_mul (List.min?_mem ha) size
          simp only [freeFrom]
          omega
      · next hnone =>
          split at h
          · next a rest' ht =>
              cases h
              have hrest := ih ht
              rw [List.min?_eq_none_iff.1 hnone]
              simp only [freeFrom, List.length_nil, List.length_singleton]
              omega
          · cases h

theorem giveTo_free (size b : Nat) (levels : List (List PhysPage)) :
    freeFrom size (giveTo size b levels) = freeFrom size levels + size := by
  induction levels generalizing size b with
  | nil => simp only [giveTo, freeFrom, List.length_singleton]; omega
  | cons level levels ih =>
      simp only [giveTo]
      split
      · next hmem =>
          have hlen := length_erase_mul hmem size
          have hrest := ih (2 * size) (min b (buddy size b))
          simp only [freeFrom]
          omega
      · simp only [freeFrom, List.length_cons, Nat.succ_mul]
        omega

theorem addBlock_free (size b : Nat) (levels : List (List PhysPage)) (k : Nat) :
    freeFrom size (addBlock levels k b) = freeFrom size levels + size <<< k := by
  induction k generalizing size levels with
  | zero =>
      cases levels with
      | nil => simp only [addBlock, freeFrom, List.length_singleton, Nat.shiftLeft_zero]; omega
      | cons level levels =>
          simp only [addBlock, freeFrom, List.length_cons, Nat.succ_mul, Nat.shiftLeft_zero]
          omega
  | succ k ih =>
      have hshift : (2 * size) <<< k = size <<< (k + 1) := by
        rw [Nat.shiftLeft_succ_inside]
      cases levels with
      | nil =>
          simp only [addBlock, freeFrom, List.length_nil, ih, hshift]
          omega
      | cons level levels =>
          simp only [addBlock, freeFrom, ih, hshift]
          omega

theorem addPages_free (fuel start stop : Nat) (levels : List (List PhysPage))
    (hf : stop - start ≤ fuel) :
    freeFrom 1 (addPages fuel start stop levels) = freeFrom 1 levels + (stop - start) := by
  induction fuel generalizing start levels with
  | zero =>
      rw [addPages]
      omega
  | succ fuel ih =>
      simp only [addPages]
      split
      · next hlt =>
          obtain ⟨k, hk, -, hle⟩ := blockSize_spec hlt
          have hlog : Nat.log2 (1 <<< k) = k := by rw [Nat.one_shiftLeft, Nat.log2_two_pow]
          have hpos : 0 < 1 <<< k := by rw [Nat.one_shiftLeft]; exact Nat.two_pow_pos k
          rw [hk, hlog, ih _ _ (by omega), addBlock_free]
          omega
      · omega

theorem countFrom_le_freeFrom {size : Nat} (hs : 0 < size) (levels : List (List PhysPage))
    (p : PhysPage) : countFrom p size levels ≤ freeFrom size levels := by
  induction levels generalizing size with
  | nil => exact Nat.le_refl 0
  | cons level levels ih =>
      have rest := ih (by omega : 0 < 2 * size)
      have here : level.countP (inBlock size · p) ≤ level.length * size :=
        Nat.le_trans List.countP_le_length (Nat.le_mul_of_pos_right _ hs)
      simp only [countFrom, freeFrom]
      omega

end DemandPaging.Buddy

namespace DemandPaging

open Buddy

def Allocator.buddy : Allocator where
  ofSize n := addPages n 0 n []
  take? := takeFrom 1
  give levels page := giveTo 1 page levels
  free := freeFrom 1
  count levels p := countFrom p 1 levels
  Valid := AlignedFrom 1
  valid_ofSize n := (addPages_count n 0 n [] (Nat.le_of_eq (Nat.sub_zero n)) trivial).1
  valid_take aligned taken := (takeFrom_count taken aligned).2.1
  valid_give page aligned := (giveTo_count Nat.one_pos (Nat.mod_one page) aligned).1
  take?_isSome _ := takeFrom_isSome Nat.one_pos
  free_ofSize n := by
    rw [addPages_free n 0 n [] (Nat.le_of_eq (Nat.sub_zero n))]
    simp only [freeFrom, Nat.zero_add, Nat.sub_zero]
  free_take _ := takeFrom_free
  free_give {kept} page _ := giveTo_free 1 page kept
  count_ofSize n p := by
    rw [(addPages_count n 0 n [] (Nat.le_of_eq (Nat.sub_zero n)) trivial).2]
    simp only [countFrom, toNat_inBlock, Nat.zero_le, true_and, Nat.zero_add, Nat.sub_zero]
  count_take aligned taken p := by
    rw [← inBlock_one]
    exact (takeFrom_count taken aligned).2.2 p
  count_give page aligned p := by
    rw [← inBlock_one]
    exact (giveTo_count Nat.one_pos (Nat.mod_one page) aligned).2 p
  count_le_free _ p := countFrom_le_freeFrom Nat.one_pos _ p

end DemandPaging
