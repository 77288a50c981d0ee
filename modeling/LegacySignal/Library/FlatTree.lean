import Mathlib.Data.Nat.Bitwise
import Mathlib.Data.Nat.Factorization.Basic
import Mathlib.Tactic.Ring

/-!
# Binary trees numbered from left to right

The nodes of the infinite binary tree are numbered in order: the leaves have
the even numbers, and a node stands between the numbers of its left and of its
right subtree. A node of height `h` has `h` trailing ones in its number.

A node is given by its height and by its place among the nodes of that height.
Its subtree is an interval of numbers, two subtrees are nested or disjoint, and
the nodes above a number are found by going up from any one of them.
-/

namespace FlatTree

structure Node where
  height : ℕ
  place : ℕ
  deriving DecidableEq

namespace Node

variable {node other : Node} {position : ℕ}

/-- How many numbers, less one, there are on each side of the node in its subtree, plus one. -/
def half (node : Node) : ℕ := 2 ^ node.height

def first (node : Node) : ℕ := 2 ^ (node.height + 1) * node.place

def number (node : Node) : ℕ := node.first + node.half - 1

def Covers (node : Node) (position : ℕ) : Prop :=
  node.first ≤ position ∧ position + 1 < node.first + 2 * node.half

def left (node : Node) : Node := ⟨node.height - 1, 2 * node.place⟩

def right (node : Node) : Node := ⟨node.height - 1, 2 * node.place + 1⟩

def up (node : Node) : Node := ⟨node.height + 1, node.place / 2⟩

theorem half_pos (node : Node) : 0 < node.half := Nat.two_pow_pos _

theorem number_add_one (node : Node) : node.number + 1 = node.first + node.half := by
  have := node.half_pos
  unfold number
  omega

theorem covers_self (node : Node) : node.Covers node.number := by
  have := node.half_pos
  have := node.number_add_one
  unfold Covers
  omega

theorem eq_of_covers_leaf (leaf : node.height = 0) (covers : node.Covers position) :
    position = node.number := by
  have half : node.half = 1 := by simp [Node.half, leaf]
  have := node.number_add_one
  unfold Covers at covers
  omega

section children

theorem two_mul_half_left (inner : node.height ≠ 0) : 2 * node.left.half = node.half := by
  unfold half left
  rw [← pow_succ', Nat.sub_add_cancel (Nat.pos_of_ne_zero inner)]

theorem half_right : node.right.half = node.left.half := rfl

section

variable (inner : node.height ≠ 0)

include inner

theorem first_left : node.left.first = node.first := by
  unfold first left
  dsimp only
  rw [Nat.sub_add_cancel (Nat.pos_of_ne_zero inner), pow_succ]
  ring

theorem first_right : node.right.first = node.first + node.half := by
  unfold first right half
  dsimp only
  rw [Nat.sub_add_cancel (Nat.pos_of_ne_zero inner), pow_succ]
  ring

theorem height_left : node.left.height + 1 = node.height :=
  Nat.sub_add_cancel (Nat.pos_of_ne_zero inner)

theorem height_right : node.right.height + 1 = node.height :=
  Nat.sub_add_cancel (Nat.pos_of_ne_zero inner)

theorem covers_left :
    node.left.Covers position ↔ node.Covers position ∧ position < node.number := by
  have := two_mul_half_left inner
  have := first_left inner
  have := node.number_add_one
  have := node.left.half_pos
  unfold Covers
  omega

theorem covers_right :
    node.right.Covers position ↔ node.Covers position ∧ node.number < position := by
  have := two_mul_half_left inner
  have := @half_right node
  have := first_right inner
  have := node.number_add_one
  have := node.left.half_pos
  unfold Covers
  omega

end

end children

theorem half_up (node : Node) : node.up.half = 2 * node.half := by
  unfold half up
  exact pow_succ' ..

theorem first_up (node : Node) :
    node.up.first = node.first ∧ node.place % 2 = 0 ∨
      node.up.first + 2 * node.half = node.first ∧ node.place % 2 = 1 := by
  have parts := Nat.div_add_mod node.place 2
  have power : 2 ^ (node.height + 1 + 1) * (node.place / 2) =
      2 ^ (node.height + 1) * (2 * (node.place / 2)) := by
    rw [pow_succ]
    ring
  unfold first half up
  dsimp only
  rw [power]
  rcases Nat.mod_two_eq_zero_or_one node.place with even | odd
  · left
    rw [even] at parts
    exact ⟨by rw [show 2 * (node.place / 2) = node.place by omega], even⟩
  · right
    rw [odd] at parts
    refine ⟨?_, odd⟩
    rw [← pow_succ', show node.place = 2 * (node.place / 2) + 1 by omega, mul_add, mul_one]
    rw [show (2 * (node.place / 2) + 1) / 2 = node.place / 2 by omega]

theorem covers_up (covers : node.Covers position) : node.up.Covers position := by
  have := node.half_up
  have := node.first_up
  unfold Covers at covers ⊢
  omega

theorem eq_of_covers (same : node.height = other.height) (here : node.Covers position)
    (there : other.Covers position) : node = other := by
  cases node with
  | mk height place =>
    cases other with
    | mk otherHeight otherPlace =>
      cases same
      have positive : 0 < 2 ^ (height + 1) := Nat.two_pow_pos _
      have width : 2 ^ (height + 1) = 2 * 2 ^ height := pow_succ' ..
      have place_eq : position / 2 ^ (height + 1) = place := by
        apply Nat.div_eq_of_lt_le
        · rw [mul_comm]
          exact here.1
        · have := here.2
          simp only [first, half] at this
          rw [mul_comm, mul_add, mul_one]
          omega
      have otherPlace_eq : position / 2 ^ (height + 1) = otherPlace := by
        apply Nat.div_eq_of_lt_le
        · rw [mul_comm]
          exact there.1
        · have := there.2
          simp only [first, half] at this
          rw [mul_comm, mul_add, mul_one]
          omega
      rw [← place_eq, ← otherPlace_eq]

def above (node : Node) : ℕ → Node
  | 0 => node
  | levels + 1 => (above node levels).up

@[simp]
theorem height_above (node : Node) (levels : ℕ) :
    (node.above levels).height = node.height + levels := by
  induction levels with
  | zero => rfl
  | succ levels ih =>
    simp only [above, up, ih]
    omega

theorem covers_above (covers : node.Covers position) (levels : ℕ) :
    (node.above levels).Covers position := by
  induction levels with
  | zero => exact covers
  | succ levels ih => exact covers_up ih

theorem above_above (node : Node) (lower upper : ℕ) :
    (node.above lower).above upper = node.above (lower + upper) := by
  induction upper with
  | zero => rfl
  | succ upper ih =>
    change ((node.above lower).above upper).up = (node.above (lower + upper)).up
    rw [ih]

theorem above_up (node : Node) (levels : ℕ) : node.up.above levels = node.above (levels + 1) := by
  rw [Nat.add_comm, ← above_above]
  rfl

theorem eq_above_of_covers (higher : node.height ≤ other.height) (here : node.Covers position)
    (there : other.Covers position) : other = node.above (other.height - node.height) := by
  apply eq_of_covers _ there (covers_above here _)
  rw [height_above]
  omega

theorem covers_of_covers (higher : node.height ≤ other.height) {common : ℕ}
    (here : node.Covers common) (there : other.Covers common) (covers : node.Covers position) :
    other.Covers position := by
  rw [eq_above_of_covers higher here there]
  exact covers_above covers _

theorem number_eq_mul (node : Node) :
    node.number + 1 = 2 ^ node.height * (2 * node.place + 1) := by
  rw [number_add_one, first, half, pow_succ]
  ring

theorem number_ne_of_height_lt (lower : node.height < other.height) :
    node.number ≠ other.number := by
  intro same
  have divides : 2 ^ node.height * 2 ∣ node.number + 1 := by
    rw [same, number_eq_mul, ← pow_succ]
    exact Dvd.dvd.mul_right (Nat.pow_dvd_pow 2 lower) _
  rw [number_eq_mul, Nat.mul_dvd_mul_iff_left (Nat.two_pow_pos _)] at divides
  omega

theorem height_eq_of_number_eq (same : node.number = other.number) :
    node.height = other.height := by
  rcases Nat.lt_trichotomy node.height other.height with lower | equal | higher
  · exact absurd same (number_ne_of_height_lt lower)
  · exact equal
  · exact absurd same.symm (number_ne_of_height_lt higher)

theorem number_injective (same : node.number = other.number) : node = other :=
  eq_of_covers (height_eq_of_number_eq same) node.covers_self (same ▸ other.covers_self)

theorem exists_number_eq (position : ℕ) : ∃ node : Node, node.number = position := by
  rcases Nat.exists_eq_two_pow_mul_odd (Nat.succ_ne_zero position) with
    ⟨height, _, ⟨place, rfl⟩, eq⟩
  refine ⟨⟨height, place⟩, ?_⟩
  have := number_eq_mul ⟨height, place⟩
  simp only at this
  omega

theorem not_dvd_of_covers (covers : node.Covers position) :
    ¬2 ^ (node.height + 1) ∣ position + 1 := by
  rintro ⟨factor, eq⟩
  have width : 2 * node.half = 2 ^ (node.height + 1) := (pow_succ' ..).symm
  have lower : 2 ^ (node.height + 1) * node.place < 2 ^ (node.height + 1) * factor := by
    have := covers.1
    unfold first at this
    omega
  have upper : 2 ^ (node.height + 1) * factor < 2 ^ (node.height + 1) * (node.place + 1) := by
    have := covers.2
    unfold first at this
    rw [mul_add, mul_one]
    omega
  have := Nat.lt_of_mul_lt_mul_left lower
  have := Nat.lt_of_mul_lt_mul_left upper
  omega

theorem height_le_of_covers (covers : node.Covers other.number) : other.height ≤ node.height := by
  by_contra higher
  apply not_dvd_of_covers covers
  rw [number_eq_mul]
  exact Dvd.dvd.mul_right (Nat.pow_dvd_pow 2 (Nat.lt_of_not_le higher)) _

theorem testBit_number (node : Node) (bit : ℕ) :
    node.number.testBit bit =
      if bit < node.height then true else (2 * node.place).testBit (bit - node.height) := by
  have positive : 0 < 2 ^ node.height := Nat.two_pow_pos _
  have parts : node.number = 2 ^ node.height * (2 * node.place) + (2 ^ node.height - 1) := by
    have := node.number_eq_mul
    rw [mul_add, mul_one] at this
    omega
  rw [parts, Nat.testBit_two_pow_mul_add _ (by omega)]
  split
  · rename_i below
    rw [Nat.testBit_two_pow_sub_one, decide_eq_true below]
  · rfl

theorem testBit_two_mul (place bit : ℕ) :
    (2 * place).testBit bit = if bit = 0 then false else place.testBit (bit - 1) := by
  cases bit with
  | zero => simp
  | succ bit => simp [Nat.testBit_succ]

theorem number_xor_left (inner : node.height ≠ 0) :
    node.number ^^^ 2 ^ (node.height - 1) = node.left.number := by
  apply Nat.eq_of_testBit_eq
  intro bit
  rw [Nat.testBit_xor, testBit_number, testBit_number, Nat.testBit_two_pow]
  simp only [left, testBit_two_mul]
  grind

theorem testBit_two_mul_add_one (place bit : ℕ) :
    (2 * place + 1).testBit bit = if bit = 0 then true else place.testBit (bit - 1) := by
  cases bit with
  | zero => simp
  | succ bit =>
    have half : (2 * place + 1) / 2 = place := by omega
    simp [Nat.testBit_succ, half]

theorem number_xor_right (inner : node.height ≠ 0) :
    node.number ^^^ (2 ^ (node.height - 1) ^^^ 2 ^ node.height) = node.right.number := by
  apply Nat.eq_of_testBit_eq
  intro bit
  rw [Nat.testBit_xor, Nat.testBit_xor, testBit_number, testBit_number, Nat.testBit_two_pow,
    Nat.testBit_two_pow]
  simp only [right, testBit_two_mul, testBit_two_mul_add_one]
  grind

theorem number_or_up (node : Node) :
    (node.number ||| 2 ^ node.height) ^^^
        ((node.number >>> (node.height + 1) &&& 1) <<< (node.height + 1)) = node.up.number := by
  have bitAbove : (node.number >>> (node.height + 1) &&& 1) = (node.place.testBit 0).toNat := by
    rw [Nat.and_one_is_mod, Nat.shiftRight_eq_div_pow, ← Nat.toNat_testBit, testBit_number,
      if_neg (by omega), testBit_two_mul, if_neg (by omega)]
    congr 2
    omega
  rw [bitAbove]
  apply Nat.eq_of_testBit_eq
  intro bit
  rw [Nat.testBit_xor, Nat.testBit_or, testBit_number, testBit_number, Nat.testBit_two_pow,
    Nat.testBit_shiftLeft, Nat.testBit_bool_toNat]
  simp only [up, testBit_two_mul, Nat.testBit_div_two]
  grind

end Node

/-- The number of trailing ones of a number with so many bits. -/
def trailingOnes : ℕ → ℕ → ℕ
  | 0, _ => 0
  | bits + 1, number => if number % 2 = 1 then trailingOnes bits (number / 2) + 1 else 0

theorem trailingOnes_number {bits : ℕ} {node : Node} (fits : node.height ≤ bits) :
    trailingOnes bits node.number = node.height := by
  induction bits generalizing node with
  | zero => exact (Nat.le_zero.mp fits).symm
  | succ bits ih =>
    rcases node with ⟨_ | height, place⟩
    · have even : (⟨0, place⟩ : Node).number = 2 * place := by
        simp [Node.number, Node.first, Node.half]
      rw [even, trailingOnes, if_neg (by omega)]
    · have whole := Node.number_eq_mul ⟨height + 1, place⟩
      have halved := Node.number_eq_mul ⟨height, place⟩
      simp only [pow_succ', mul_assoc] at whole halved
      rw [trailingOnes, if_pos (by omega)]
      have same : (⟨height + 1, place⟩ : Node).number / 2 = (⟨height, place⟩ : Node).number := by
        omega
      rw [same, ih (Nat.le_of_succ_le_succ fits)]

end FlatTree
