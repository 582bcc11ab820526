/-!
Blocks of bytes whose number is a power of two, kept as perfect binary trees: a byte is as many steps
away as the tree is high, and an aligned part of a block is a subtree of it. A block is the same as
another if all of its bytes are (`ext`), and joining the parts of a block gives it back
(`join_parts`).
-/

namespace DemandPaging

inductive ByteTree : Nat → Type where
  | leaf (byte : UInt8) : ByteTree 0
  | node {height : Nat} (left right : ByteTree height) : ByteTree (height + 1)
deriving DecidableEq

namespace ByteTree

/-- The byte at an index. Its bits are the turns on the way down, the highest first; higher bits than
the tree has levels do not count. -/
def get : {height : Nat} → ByteTree height → Nat → UInt8
  | 0, .leaf byte, _ => byte
  | height + 1, .node left right, i => if i.testBit height then right.get i else left.get i

def ofFn (f : Nat → UInt8) : (height turns : Nat) → ByteTree height
  | 0, turns => .leaf (f turns)
  | height + 1, turns => .node (ofFn f height (2 * turns)) (ofFn f height (2 * turns + 1))

def replicate (byte : UInt8) : (height : Nat) → ByteTree height
  | 0 => .leaf byte
  | height + 1 =>
      let half := replicate byte height
      .node half half

def parts {height : Nat} : (levels : Nat) → ByteTree (height + levels) → List (ByteTree height)
  | 0, t => [t]
  | levels + 1, .node left right => parts levels left ++ parts levels right

def join {height : Nat} : (levels : Nat) → List (ByteTree height) → ByteTree (height + levels)
  | 0, ts => ts.headD (replicate 0 height)
  | levels + 1, ts =>
      .node (join levels (ts.take (1 <<< levels))) (join levels (ts.drop (1 <<< levels)))

theorem one_shiftLeft_succ (n : Nat) : 1 <<< (n + 1) = 1 <<< n + 1 <<< n := by
  rw [Nat.shiftLeft_succ, Nat.two_mul]

theorem get_ofFn (f : Nat → UInt8) (height turns i : Nat) :
    (ofFn f height turns).get i = f (turns * 1 <<< height + i % 1 <<< height) := by
  induction height generalizing turns with
  | zero => simp only [ofFn, get, Nat.shiftLeft_zero, Nat.mod_one, Nat.mul_one, Nat.add_zero]
  | succ height ih =>
      have hmod : i % (1 <<< height + 1 <<< height)
          = i % 1 <<< height + 1 <<< height * (i / 1 <<< height % 2) := by
        rw [← Nat.mul_two, Nat.mod_mul]
      have hbit : i.testBit height = decide (i / 1 <<< height % 2 = 1) := by
        rw [Nat.testBit_eq_decide_div_mod_eq, Nat.one_shiftLeft]
      have hturns : 2 * turns * 1 <<< height = turns * (1 <<< height + 1 <<< height) := by
        rw [← Nat.mul_two, Nat.mul_comm 2 turns, Nat.mul_assoc, Nat.mul_comm 2]
      simp only [ofFn, get, hbit, one_shiftLeft_succ, hmod, decide_eq_true_eq]
      split
      · next h =>
          rw [ih, h, Nat.mul_one, Nat.add_mul, Nat.one_mul, hturns]
          congr 1
          omega
      · next h =>
          have h0 : i / 1 <<< height % 2 = 0 := by omega
          rw [ih, h0, Nat.mul_zero, hturns, Nat.add_zero]

theorem get_replicate (byte : UInt8) (height i : Nat) : (replicate byte height).get i = byte := by
  induction height generalizing i with
  | zero => rfl
  | succ height ih =>
      simp only [replicate, get]
      split
      · exact ih i
      · exact ih _

theorem get_mod {height : Nat} (t : ByteTree height) (i : Nat) :
    t.get (i % 1 <<< height) = t.get i := by
  induction t generalizing i with
  | leaf byte => rfl
  | @node height left right ihl ihr =>
      have hbit : (i % 1 <<< (height + 1)).testBit height = i.testBit height := by
        rw [Nat.one_shiftLeft, Nat.testBit_mod_two_pow, decide_eq_true (Nat.lt_succ_self height),
          Bool.true_and]
      have hmod : i % 1 <<< (height + 1) % 1 <<< height = i % 1 <<< height := by
        rw [one_shiftLeft_succ]
        exact Nat.mod_mod_of_dvd i ⟨2, (Nat.mul_two _).symm⟩
      simp only [get, hbit, ← ihl (i % 1 <<< (height + 1)), ← ihr (i % 1 <<< (height + 1)), hmod]
      simp only [ihl, ihr]

theorem ext {height : Nat} {s t : ByteTree height} (h : ∀ i < 1 <<< height, s.get i = t.get i) :
    s = t := by
  induction s with
  | leaf a =>
      cases t with
      | leaf b => exact congrArg leaf (h 0 (by decide))
  | @node height l r ihl ihr =>
      cases t with
      | node l' r' =>
          have hl : l = l' := ihl fun i hi => by
            have hi' := h i (by rw [one_shiftLeft_succ]; omega)
            have hbit : i.testBit height = false := by
              rw [Nat.one_shiftLeft] at hi
              exact Nat.testBit_lt_two_pow hi
            simpa only [get, hbit, Bool.false_eq_true, if_false] using hi'
          have hr : r = r' := ihr fun i hi => by
            have hi' := h (1 <<< height + i) (by rw [one_shiftLeft_succ]; omega)
            have hbit : (1 <<< height + i).testBit height = true := by
              rw [Nat.one_shiftLeft] at hi ⊢
              rw [Nat.testBit_two_pow_add_eq, Nat.testBit_lt_two_pow hi, Bool.not_false]
            have hlow : (1 <<< height + i) % 1 <<< height = i := by
              rw [Nat.add_mod_left, Nat.mod_eq_of_lt hi]
            simp only [get, hbit, if_true] at hi'
            rw [← get_mod r, ← get_mod r', hlow] at hi'
            exact hi'
          rw [hl, hr]

theorem length_parts {height levels : Nat} (t : ByteTree (height + levels)) :
    (parts levels t).length = 1 <<< levels := by
  induction levels with
  | zero => rfl
  | succ levels ih =>
      cases t with
      | node left right =>
          simp only [parts, List.length_append, ih, one_shiftLeft_succ]

theorem join_parts {height levels : Nat} (t : ByteTree (height + levels)) :
    join levels (parts levels t) = t := by
  induction levels with
  | zero => rfl
  | succ levels ih =>
      cases t with
      | node left right =>
          simp only [parts, join, List.take_left' (length_parts left),
            List.drop_left' (length_parts left), ih]

end ByteTree

end DemandPaging
