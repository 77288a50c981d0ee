import LegacySignal.Library.FlatTree
import LegacySignal.Library.Halting

/-!
# The implicit binary search tree

`left_balanced.rs` and `implicit.rs` walk over the nodes of a binary tree by
operations on the bits of a `u64`. The positions of a log with `n` entries, from
the position `start` on, are searched as if they were the nodes of such a tree.

The steps panic at leaves and at the top of the 64-bit range. A walk takes at
most one round for every level, so 65 rounds are as good as no bound.
-/

namespace LegacySignal.KeyTransparency

open FlatTree Run List

variable {Failure : Type}

/-- `checked_ilog2`, or zero -/
def log2 (n : ℕ) : ℕ := Nat.log2 n

def isLeaf (x : ℕ) : Bool := x &&& 1 == 0

def level (x : ℕ) : ℕ := trailingOnes 64 x

def leftStep (x : ℕ) : Run Failure ℕ :=
  match level x with
  | 0 => panicked "leaf node has no children"
  | k + 1 => pure (x ^^^ (1 <<< k))

def rightStep (x : ℕ) : Run Failure ℕ :=
  match level x with
  | 0 => panicked "leaf node has no children"
  | k + 1 => pure (x ^^^ (3 <<< k) % 2 ^ 64)

def parentStep (x : ℕ) : Run Failure ℕ :=
  let k := level x
  if 64 ≤ k + 1 then panicked "attempt to shift right with overflow"
  else
    let b := x >>> (k + 1) &&& 1
    pure ((x ||| 1 <<< k) ^^^ (b <<< (k + 1)))

def rounds : ℕ := 65

def moveWithin (start n : ℕ) : ℕ → ℕ → Run Failure ℕ
  | 0, _ => .error .endless
  | rounds + 1, x =>
    if start ≤ x ∧ x < n then pure x
    else if x < start then do moveWithin start n rounds (← rightStep x)
    else do moveWithin start n rounds (← leftStep x)

def root (start n : ℕ) : Run Failure ℕ := moveWithin start n rounds (1 <<< log2 n - 1)

def left (x start n : ℕ) : Run Failure ℕ := do moveWithin start n rounds (← leftStep x)

def right (x start n : ℕ) : Run Failure ℕ := do moveWithin start n rounds (← rightStep x)

def climb (n : ℕ) : ℕ → ℕ → Run Failure ℕ
  | 0, _ => .error .endless
  | rounds + 1, p => if n ≤ p then do climb n rounds (← parentStep p) else pure p

def parent (x n : ℕ) : Run Failure ℕ := do climb n rounds (← parentStep x)

section path

variable {State : Type}

/-- A loop over the rest of a `direct_path`, of which only the positions after `entry` are
visited. The iterator is lazy: where the visit ends the loop, the walk ends too. -/
def walk (entry top n : ℕ) (visit : ℕ → State → Run Failure (ForInStep State)) :
    ℕ → ℕ → State → Run Failure State
  | 0, _, _ => .error .endless
  | rounds + 1, x, state =>
    if x = top then pure state
    else do
      let x ← parent x n
      if entry < x then
        match ← visit x state with
        | .done state => pure state
        | .yield state => walk entry top n visit rounds x state
      else walk entry top n visit rounds x state

/-- A loop over the `monitoring_path`: the parent nodes to be checked as part of monitoring a
single version of a key. -/
def forMonitoringPath (x start n : ℕ) (state : State)
    (visit : ℕ → State → Run Failure (ForInStep State)) : Run Failure State := do
  let top ← root start n
  walk x top n visit rounds x state

def monitoringPath (x start n : ℕ) : Run Failure (List ℕ) :=
  forMonitoringPath x start n [] fun position path => pure (.yield (path ++ [position]))

end path

def frontierAfter (start n : ℕ) : ℕ → ℕ → Run Failure (List ℕ)
  | 0, _ => .error .endless
  | rounds + 1, last =>
    if last = n - 1 then pure [last]
    else do
      let next ← right last start n
      pure (last :: (← frontierAfter start n rounds next))

def frontier (start n : ℕ) : Run Failure (List ℕ) := do
  frontierAfter start n rounds (← root start n)

def monitoringFrontier (frontier entries : List ℕ) : Run Failure (List ℕ) :=
  match frontier.reverse.findIdx? (· ∈ entries) with
  | none => panicked "monitoring paths must always terminate at some frontier node"
  | some index => pure (frontier.drop (frontier.length - index))

/-- All entries to be checked as part of monitoring a particular version of a key. -/
def fullMonitoringPath (entry start n : ℕ) : Run Failure (List ℕ) := do
  let path ← forMonitoringPath entry start n [] fun x path =>
    pure (.yield (if x ∈ path then path else path ++ [x]))
  let rest ← monitoringFrontier (← frontier start n) (entry :: path)
  pure (path ++ rest)

section steps

variable {node : Node}

theorem height_lt_of_number_lt {bits : ℕ} (fits : node.number + 1 < 2 ^ bits) :
    node.height < bits := by
  by_contra high
  have power : 2 ^ bits ≤ 2 ^ node.height := Nat.pow_le_pow_right (by decide) (by omega)
  have factor := Nat.le_mul_of_pos_right (2 ^ node.height) (show 0 < 2 * node.place + 1 by omega)
  have := node.number_eq_mul
  omega

theorem level_number (low : node.height ≤ 64) : level node.number = node.height :=
  trailingOnes_number low

theorem isLeaf_number (node : Node) : isLeaf node.number = decide (node.height = 0) := by
  have odd := node.testBit_number 0
  rw [Nat.testBit_zero, Node.testBit_two_mul] at odd
  unfold isLeaf
  rw [Nat.and_one_is_mod]
  by_cases leaf : node.height = 0
  · rw [if_neg (by omega), if_pos (by omega), decide_eq_false_iff_not] at odd
    simp [leaf, show node.number % 2 = 0 by omega]
  · rw [if_pos (by omega), decide_eq_true_iff] at odd
    simp [leaf, odd]

theorem leftStep_number (inner : node.height ≠ 0) (low : node.height ≤ 64) :
    (leftStep node.number : Run Failure ℕ) = .ok node.left.number := by
  rcases Nat.exists_eq_succ_of_ne_zero inner with ⟨k, eq⟩
  unfold leftStep
  rw [level_number low, eq]
  dsimp only
  rw [← Node.number_xor_left inner, Nat.one_shiftLeft, eq]
  rfl

theorem rightStep_number (inner : node.height ≠ 0) (low : node.height < 64) :
    (rightStep node.number : Run Failure ℕ) = .ok node.right.number := by
  rcases Nat.exists_eq_succ_of_ne_zero inner with ⟨k, eq⟩
  unfold rightStep
  rw [level_number low.le, eq]
  dsimp only
  have small : 3 <<< k < 2 ^ 64 := by
    have := Nat.pow_le_pow_right (show 0 < 2 by decide) (show k ≤ 62 by omega)
    rw [Nat.shiftLeft_eq]
    omega
  have both : 3 <<< k = 2 ^ (node.height - 1) ^^^ 2 ^ node.height := by
    apply Nat.eq_of_testBit_eq
    intro bit
    rw [show 3 = 2 ^ 2 - 1 by rfl, Nat.testBit_shiftLeft, Nat.testBit_two_pow_sub_one,
      Nat.testBit_xor, Nat.testBit_two_pow, Nat.testBit_two_pow, eq]
    grind
  rw [Nat.mod_eq_of_lt small, both, Node.number_xor_right inner]
  rfl

theorem leftStep_leaf (leaf : node.height = 0) :
    (leftStep node.number : Run Failure ℕ) = panicked "leaf node has no children" := by
  unfold leftStep
  rw [level_number (by omega), leaf]

theorem rightStep_leaf (leaf : node.height = 0) :
    (rightStep node.number : Run Failure ℕ) = panicked "leaf node has no children" := by
  unfold rightStep
  rw [level_number (by omega), leaf]

theorem parentStep_number (low : node.height + 1 < 64) :
    (parentStep node.number : Run Failure ℕ) = .ok node.up.number := by
  unfold parentStep
  rw [level_number (by omega)]
  dsimp only
  rw [if_neg (by omega), Nat.one_shiftLeft, Node.number_or_up]
  rfl

theorem parentStep_top (low : node.height ≤ 64) (high : 64 ≤ node.height + 1) :
    (parentStep node.number : Run Failure ℕ) =
      panicked "attempt to shift right with overflow" := by
  unfold parentStep
  rw [level_number low]
  dsimp only
  rw [if_pos high]

end steps

/-- The node of a subtree that stands above all its positions between `start` and `n`. -/
structure TopWithin (start n : ℕ) (node top : Node) : Prop where
  start_le : start ≤ top.number
  lt_end : top.number < n
  lower : top.height ≤ node.height
  nested : ∀ position, top.Covers position → node.Covers position
  covers : ∀ position, start ≤ position → position < n → node.Covers position →
    top.Covers position

variable {start n upper middle lower : ℕ}

theorem TopWithin.unique {node top other : Node} (first : TopWithin start n node top)
    (second : TopWithin start n node other) : top = other := by
  have upper : top.Covers other.number :=
    first.covers _ second.start_le second.lt_end (second.nested _ other.covers_self)
  have lower : other.Covers top.number :=
    second.covers _ first.start_le first.lt_end (first.nested _ top.covers_self)
  exact Node.eq_of_covers
    (Nat.le_antisymm (Node.height_le_of_covers lower) (Node.height_le_of_covers upper)) upper
    other.covers_self

/-- What stands above the top of a child, on its right, is the node or stands above the node. -/
theorem TopWithin.above {node child top upper : Node} (within : TopWithin start n child top)
    (height : child.height + 1 = node.height)
    (under : ∀ position, child.Covers position → node.Covers position)
    (covers : upper.Covers top.number) (after : top.number < upper.number)
    (inside : upper.number < n) :
    upper = node ∨ node.number < upper.number ∧ upper.Covers node.number := by
  have topUnder : child.Covers top.number := within.nested _ top.covers_self
  have higher : node.height ≤ upper.height := by
    -- A lower node would stand below the child, and so below its top.
    by_contra lower
    have childCovers : child.Covers upper.number :=
      Node.covers_of_covers (by omega) covers topUnder upper.covers_self
    have topCovers := within.covers _ (by have := within.start_le; omega) inside childCovers
    have same : upper = top := Node.eq_of_covers
      (Nat.le_antisymm (Node.height_le_of_covers topCovers) (Node.height_le_of_covers covers))
      covers top.covers_self
    rw [same] at after
    exact Nat.lt_irrefl _ after
  have upperCovers : ∀ position, node.Covers position → upper.Covers position := fun _ =>
    Node.covers_of_covers higher (under _ topUnder) covers
  by_cases same : upper = node
  · exact .inl same
  refine .inr ⟨?_, upperCovers _ node.covers_self⟩
  by_contra notAfter
  have apart : node.height < upper.height := by
    refine lt_of_le_of_ne higher fun equal => same ?_
    exact (Node.eq_of_covers equal node.covers_self (upperCovers _ node.covers_self)).symm
  have before : upper.number < node.number := by
    have := Node.number_ne_of_height_lt apart
    omega
  have inner : upper.height ≠ 0 := by omega
  have right := Node.height_right inner
  have nodeOnRight := (Node.covers_right inner).mpr ⟨upperCovers _ node.covers_self, before⟩
  have topOnRight := Node.covers_of_covers (by omega) node.covers_self nodeOnRight
    (under _ topUnder)
  have := ((Node.covers_right inner).mp topOnRight).2
  omega

section down

variable {rounds target : ℕ} {node : Node}

theorem moveWithin_spec (low : node.height < 64) (enough : node.height < rounds)
    (start_le : start ≤ target) (lt_end : target < n) (covers : node.Covers target) :
    ∃ top, TopWithin start n node top ∧ ∀ {Failure : Type},
      (moveWithin start n rounds node.number : Run Failure ℕ) = .ok top.number := by
  induction rounds generalizing node with
  | zero => exact absurd enough (Nat.not_lt_zero _)
  | succ rounds ih =>
    by_cases inside : start ≤ node.number ∧ node.number < n
    · refine ⟨node, ⟨inside.1, inside.2, le_rfl, fun _ => id, fun _ _ _ => id⟩, ?_⟩
      intro Failure
      rw [moveWithin, if_pos inside]
      rfl
    · have inner : node.height ≠ 0 := by
        intro leaf
        cases Node.eq_of_covers_leaf leaf covers
        exact inside ⟨start_le, lt_end⟩
      by_cases before : node.number < start
      · -- Everything in the range lies to the right.
        have height := Node.height_right inner
        rcases @ih node.right (by omega) (by omega)
          ((Node.covers_right inner).mpr ⟨covers, by omega⟩) with ⟨top, within, moved⟩
        refine ⟨top, ⟨within.start_le, within.lt_end, by have := within.lower; omega, ?_, ?_⟩, ?_⟩
        · intro position covered
          exact ((Node.covers_right inner).mp (within.nested position covered)).1
        · intro position after up_to covered
          exact within.covers position after up_to
            ((Node.covers_right inner).mpr ⟨covered, by omega⟩)
        · intro Failure
          rw [moveWithin, if_neg inside, if_pos before, rightStep_number inner low]
          exact moved
      · have height := Node.height_left inner
        rcases @ih node.left (by omega) (by omega)
          ((Node.covers_left inner).mpr ⟨covers, by omega⟩) with ⟨top, within, moved⟩
        refine ⟨top, ⟨within.start_le, within.lt_end, by have := within.lower; omega, ?_, ?_⟩, ?_⟩
        · intro position covered
          exact ((Node.covers_left inner).mp (within.nested position covered)).1
        · intro position after up_to covered
          exact within.covers position after up_to
            ((Node.covers_left inner).mpr ⟨covered, by omega⟩)
        · intro Failure
          rw [moveWithin, if_neg inside, if_neg before, leftStep_number inner (by omega)]
          exact moved

theorem moveWithin_not_returns (low : node.height < 64) (empty : n ≤ start) :
    ¬Returns (moveWithin start n rounds node.number : Run Failure ℕ) := by
  induction rounds generalizing node with
  | zero => exact id
  | succ rounds ih =>
    rw [moveWithin, if_neg (by omega)]
    by_cases leaf : node.height = 0
    · rw [rightStep_leaf leaf, leftStep_leaf leaf]
      split <;> exact id
    · rw [rightStep_number leaf low, leftStep_number leaf (by omega)]
      have left := Node.height_left leaf
      have right := Node.height_right leaf
      split
      · exact @ih node.right (by omega)
      · exact @ih node.left (by omega)

theorem log2_lt (fits : n < 2 ^ 64) : log2 n < 64 := by
  rcases Nat.eq_zero_or_pos n with zero | positive
  · rw [zero]
    decide
  · exact (Nat.log2_lt (by omega)).mpr fits

theorem lt_two_pow_log2 (n : ℕ) : n < 2 * 2 ^ log2 n := by
  rw [← pow_succ']
  exact Nat.lt_log2_self

theorem number_top (height : ℕ) : (⟨height, 0⟩ : Node).number = 2 ^ height - 1 := by
  simp [Node.number, Node.first, Node.half]

theorem covers_top {height position : ℕ} :
    (⟨height, 0⟩ : Node).Covers position ↔ position + 1 < 2 * 2 ^ height := by
  simp [Node.Covers, Node.first, Node.half]

theorem root_spec (start_lt : start < n) (fits : n < 2 ^ 64) :
    ∃ top, TopWithin start n ⟨log2 n, 0⟩ top ∧ ∀ {Failure : Type},
      (root start n : Run Failure ℕ) = .ok top.number := by
  have low := log2_lt fits
  have power := lt_two_pow_log2 n
  unfold root
  rw [Nat.one_shiftLeft, ← number_top]
  apply moveWithin_spec low (Nat.lt_succ_of_lt low) le_rfl start_lt
  rw [covers_top]
  omega

theorem root_not_returns (empty : n ≤ start) (fits : n < 2 ^ 64) :
    ¬Returns (root start n : Run Failure ℕ) := by
  unfold root
  rw [Nat.one_shiftLeft, ← number_top]
  exact moveWithin_not_returns (log2_lt fits) empty

theorem right_spec (low : node.height < 64) (inner : node.height ≠ 0)
    (start_le : start ≤ node.number) (before_end : node.number + 1 < n) :
    ∃ top, TopWithin start n node.right top ∧ ∀ {Failure : Type},
      (right node.number start n : Run Failure ℕ) = .ok top.number := by
  have height := Node.height_right inner
  have next : node.Covers (node.number + 1) := by
    have := node.number_add_one
    have := Node.two_mul_half_left inner
    have := node.left.half_pos
    unfold Node.Covers
    omega
  rcases @moveWithin_spec start n KeyTransparency.rounds (node.number + 1) node.right (by omega)
    (by unfold KeyTransparency.rounds; omega) (by omega) before_end
    ((Node.covers_right inner).mpr ⟨next, by omega⟩) with ⟨top, within, moved⟩
  refine ⟨top, within, ?_⟩
  intro Failure
  unfold right
  rw [rightStep_number inner low]
  exact moved

theorem left_spec (low : node.height < 64) (inner : node.height ≠ 0)
    (start_lt : start < node.number) (lt_end : node.number < n) :
    ∃ top, TopWithin start n node.left top ∧ ∀ {Failure : Type},
      (left node.number start n : Run Failure ℕ) = .ok top.number := by
  have height := Node.height_left inner
  have previous : node.Covers (node.number - 1) := by
    have := node.number_add_one
    have := Node.two_mul_half_left inner
    have := node.left.half_pos
    unfold Node.Covers
    omega
  rcases @moveWithin_spec start n KeyTransparency.rounds (node.number - 1) node.left (by omega)
    (by unfold KeyTransparency.rounds; omega) (by omega) (by omega)
    ((Node.covers_left inner).mpr ⟨previous, by omega⟩) with ⟨top, within, moved⟩
  refine ⟨top, within, ?_⟩
  intro Failure
  unfold left
  rw [leftStep_number inner (by omega)]
  exact moved

end down

section up

variable {rounds levels : ℕ} {node : Node}

theorem climb_spec (low : node.height + levels < 64) (enough : levels < rounds)
    (reached : (node.above levels).number < n) :
    ∃ found ≤ levels, (climb n rounds node.number : Run Failure ℕ) =
      .ok (node.above found).number ∧ (node.above found).number < n ∧
      ∀ between < found, n ≤ (node.above between).number := by
  induction rounds generalizing node levels with
  | zero => exact absurd enough (Nat.not_lt_zero _)
  | succ rounds ih =>
    rw [climb]
    by_cases outside : n ≤ node.number
    · cases levels with
      | zero => exact absurd reached (Nat.not_lt_of_le outside)
      | succ levels =>
        rw [if_pos outside, parentStep_number (by omega)]
        rw [← Node.above_up] at reached
        rcases @ih levels node.up (by simp only [Node.up]; omega) (by omega) reached with
          ⟨found, le, climbed, inside, skipped⟩
        rw [Node.above_up] at climbed inside
        refine ⟨found + 1, by omega, climbed, inside, ?_⟩
        intro between lt
        cases between with
        | zero => exact outside
        | succ between =>
          rw [← Node.above_up]
          exact skipped between (by omega)
    · rw [if_neg outside]
      exact ⟨0, Nat.zero_le _, rfl, Nat.lt_of_not_le outside, fun _ lt => by omega⟩

theorem climb_not_returns (low : node.height < 64)
    (outside : ∀ levels, node.height + levels < 64 → n ≤ (node.above levels).number) :
    ¬Returns (climb n rounds node.number : Run Failure ℕ) := by
  induction rounds generalizing node with
  | zero => exact id
  | succ rounds ih =>
    have here : n ≤ node.number := outside 0 low
    rw [climb, if_pos here]
    by_cases high : 64 ≤ node.height + 1
    · rw [parentStep_top low.le high]
      exact id
    · rw [parentStep_number (by omega)]
      apply @ih node.up (by simp only [Node.up]; omega)
      intro levels below
      rw [Node.above_up]
      apply outside
      simp only [Node.up] at below
      omega

theorem parent_spec (low : node.height + levels < 64) (above : 0 < levels)
    (reached : (node.above levels).number < n) :
    ∃ found ≤ levels, 0 < found ∧ (parent node.number n : Run Failure ℕ) =
      .ok (node.above found).number ∧ (node.above found).number < n ∧
      ∀ between < found, 0 < between → n ≤ (node.above between).number := by
  rcases Nat.exists_eq_succ_of_ne_zero (Nat.ne_of_gt above) with ⟨rest, rfl⟩
  unfold parent
  rw [parentStep_number (by omega)]
  rw [Nat.succ_eq_add_one, ← Node.above_up] at reached
  rcases @climb_spec Failure n KeyTransparency.rounds rest node.up (by simp only [Node.up]; omega)
    (by unfold KeyTransparency.rounds; omega) reached with ⟨found, le, climbed, inside, skipped⟩
  rw [Node.above_up] at climbed inside
  refine ⟨found + 1, by omega, Nat.succ_pos _, climbed, inside, ?_⟩
  intro between lt positive
  rcases Nat.exists_eq_succ_of_ne_zero (Nat.ne_of_gt positive) with ⟨previous, rfl⟩
  rw [Nat.succ_eq_add_one, ← Node.above_up]
  exact skipped previous (by omega)

theorem parent_not_returns (low : node.height ≤ 64)
    (outside : ∀ levels, 0 < levels → node.height + levels < 64 →
      n ≤ (node.above levels).number) :
    ¬Returns (parent node.number n : Run Failure ℕ) := by
  unfold parent
  by_cases high : 64 ≤ node.height + 1
  · rw [parentStep_top low high]
    exact id
  · rw [parentStep_number (by omega)]
    apply climb_not_returns (by simp only [Node.up]; omega)
    intro levels below
    rw [Node.above_up]
    apply outside _ (Nat.succ_pos _)
    simp only [Node.up] at below
    omega

def positionsAbove (node : Node) : ℕ → List ℕ
  | 0 => []
  | levels + 1 => node.up.number :: positionsAbove node.up levels

theorem mem_positionsAbove {position : ℕ} :
    position ∈ positionsAbove node levels ↔
      ∃ level, 0 < level ∧ level ≤ levels ∧ (node.above level).number = position := by
  induction levels generalizing node with
  | zero =>
    simp only [positionsAbove, not_mem_nil, false_iff]
    rintro ⟨level, positive, le, _⟩
    omega
  | succ levels ih =>
    rw [positionsAbove, mem_cons, ih]
    constructor
    · rintro (rfl | ⟨level, positive, le, rfl⟩)
      · exact ⟨1, Nat.one_pos, by omega, rfl⟩
      · exact ⟨level + 1, Nat.succ_pos _, by omega, by rw [Node.above_up]⟩
    · rintro ⟨_ | level, positive, le, rfl⟩
      · exact absurd positive (Nat.lt_irrefl 0)
      · rw [← Node.above_up]
        rcases Nat.eq_zero_or_pos level with zero | notFirst
        · left
          rw [zero]
          rfl
        · right
          exact ⟨level, notFirst, by omega, rfl⟩

theorem filter_positionsAbove {found rest entry : ℕ} (positive : 0 < found)
    (inside : (node.above found).number < n)
    (skipped : ∀ between < found, 0 < between → n ≤ (node.above between).number) :
    (positionsAbove node (found + rest)).filter (fun x => x < n && entry < x) =
      (((node.above found).number :: positionsAbove (node.above found) rest).filter
        fun x => x < n && entry < x) := by
  induction found generalizing node with
  | zero => exact absurd positive (Nat.lt_irrefl 0)
  | succ found ih =>
    rw [show found + 1 + rest = (found + rest) + 1 by omega, positionsAbove]
    rcases Nat.eq_zero_or_pos found with zero | notFirst
    · rw [zero, Nat.zero_add]
      rfl
    · rw [← Node.above_up] at inside ⊢
      have outside := skipped 1 (by omega) Nat.one_pos
      rw [filter_cons_of_neg]
      · apply ih notFirst inside
        intro between lt after
        rw [Node.above_up]
        exact skipped (between + 1) (by omega) (Nat.succ_pos _)
      · have outside : n ≤ node.up.number := outside
        simp only [Bool.and_eq_true, decide_eq_true_eq, not_and]
        omega

end up

/-- The node at the one position stands above the other. -/
def IsAbove (upper lower : ℕ) : Prop :=
  ∃ node : Node, node.number = upper ∧ node.Covers lower

theorem IsAbove.trans (first : IsAbove upper middle) (second : IsAbove middle lower) :
    IsAbove upper lower := by
  rcases first with ⟨top, rfl, covers⟩
  rcases second with ⟨node, rfl, below⟩
  exact ⟨top, rfl, Node.covers_of_covers (Node.height_le_of_covers covers) node.covers_self
    covers below⟩

theorem IsAbove.lt (above : IsAbove upper middle) (below : IsAbove middle lower)
    (apart : upper ≠ middle) (after : lower < upper) :
    middle < upper := by
  rcases above with ⟨top, rfl, covers⟩
  rcases below with ⟨node, rfl, nodeCovers⟩
  by_contra notAfter
  have lowerUnder := IsAbove.trans ⟨top, rfl, covers⟩ ⟨node, rfl, nodeCovers⟩
  rcases lowerUnder with ⟨other, otherEq, lowerCovers⟩
  cases Node.number_injective otherEq
  have notSame : node.height ≠ top.height := by
    intro same
    exact apart (congrArg Node.number
      (Node.eq_of_covers same nodeCovers lowerCovers)).symm
  have := Node.height_le_of_covers covers
  have inner : top.height ≠ 0 := by omega
  have right := Node.height_right inner
  have onRight := (Node.covers_right inner).mpr ⟨covers, by omega⟩
  have lowerOnRight := Node.covers_of_covers (by omega) node.covers_self onRight nodeCovers
  have := ((Node.covers_right inner).mp lowerOnRight).2
  omega

theorem IsAbove.of_lt (above : IsAbove upper lower) (below : IsAbove middle lower)
    (after : lower < middle) (lt : middle < upper) :
    IsAbove upper middle := by
  have aboves := And.intro above below
  rcases aboves with ⟨⟨top, rfl, covers⟩, ⟨node, rfl, nodeCovers⟩⟩
  rcases Nat.le_total node.height top.height with lower | higher
  · exact ⟨top, rfl, Node.covers_of_covers lower nodeCovers covers node.covers_self⟩
  · have nodeAbove : IsAbove node.number top.number :=
      ⟨node, rfl, Node.covers_of_covers higher covers nodeCovers top.covers_self⟩
    have := nodeAbove.lt above (by omega) after
    omega

theorem pairwise_positionsAbove (node : Node) (levels : ℕ) :
    (positionsAbove node levels).Pairwise fun lower upper =>
      lower ≠ upper ∧ IsAbove upper lower := by
  induction levels generalizing node with
  | zero => exact .nil
  | succ levels ih =>
    refine pairwise_cons.mpr ⟨?_, ih node.up⟩
    intro position member
    obtain ⟨level, positive, _, rfl⟩ := mem_positionsAbove.mp member
    refine ⟨Node.number_ne_of_height_lt ?_, _, rfl, Node.covers_above node.up.covers_self _⟩
    rw [Node.height_above]
    omega

section path

variable {State : Type} {entry rounds levels : ℕ} {node : Node}
  {visit : ℕ → State → Run Failure (ForInStep State)}

theorem walk_eq (low : node.height + levels < 64) (enough : levels < rounds)
    (inside : (node.above levels).number < n) (state : State) :
    walk entry (node.above levels).number n visit rounds node.number state =
      forIn ((positionsAbove node levels).filter fun x => x < n && entry < x) state visit := by
  induction rounds generalizing node levels state with
  | zero => exact absurd enough (Nat.not_lt_zero _)
  | succ rounds ih =>
    rw [walk]
    rcases Nat.eq_zero_or_pos levels with zero | positive
    · rw [zero]
      exact if_pos rfl
    · have apart : node.number ≠ (node.above levels).number := by
        apply Node.number_ne_of_height_lt
        rw [Node.height_above]
        omega
      rcases @parent_spec Failure n levels node low positive inside with
        ⟨found, le, after, parent, found_lt, skipped⟩
      rcases Nat.exists_eq_add_of_le le with ⟨rest, rfl⟩
      have next := fun state => @ih rest (node.above found)
        (by rw [Node.height_above]; omega) (by omega)
        (by rw [Node.above_above]; exact inside) state
      rw [Node.above_above] at next
      rw [if_neg apart, parent, filter_positionsAbove after found_lt skipped]
      change (if entry < (node.above found).number then _ else _) = _
      by_cases visited : entry < (node.above found).number
      · rw [if_pos visited, filter_cons_of_pos (by simp [found_lt, visited]),
          forIn_cons]
        apply Result.bind_congr
        intro step
        cases step with
        | done state => rfl
        | yield state => exact next state
      · rw [if_neg visited, filter_cons_of_neg (by simp [visited])]
        exact next state

theorem walk_not_returns {top : Node} (low : node.height ≤ 64)
    (outside : ¬top.Covers node.number)
    (goesOn : ∀ position, entry < position → position < n → ∀ state,
      ∃ next, visit position state = .ok (.yield next)) (state : State) :
    ¬Returns (walk entry top.number n visit rounds node.number state) := by
  induction rounds generalizing node state with
  | zero => exact id
  | succ rounds ih =>
    have apart : node.number ≠ top.number := by
      intro same
      exact outside (same ▸ top.covers_self)
    rw [walk, if_neg apart]
    by_cases exists_above : ∃ levels, 0 < levels ∧ node.height + levels < 64 ∧
        (node.above levels).number < n
    · rcases exists_above with ⟨levels, positive, below, inside⟩
      rcases @parent_spec Failure n levels node below positive inside with
        ⟨found, le, _, parent, found_lt, _⟩
      have lowFound : (node.above found).height ≤ 64 := by
        rw [Node.height_above]
        omega
      have outsideFound : ¬top.Covers (node.above found).number := by
        intro covers
        apply outside
        exact Node.covers_of_covers (Node.height_le_of_covers covers)
          (node.above found).covers_self covers (Node.covers_above node.covers_self _)
      rw [parent]
      change ¬Returns (if entry < (node.above found).number then _ else _)
      by_cases visited : entry < (node.above found).number
      · rcases goesOn _ visited found_lt state with ⟨next, yields⟩
        rw [if_pos visited, yields]
        exact ih lowFound outsideFound next
      · rw [if_neg visited]
        exact ih lowFound outsideFound state
    · rw [returns_bind]
      rintro ⟨returns, _⟩
      apply parent_not_returns low _ returns
      intro levels positive below
      by_contra inside
      exact exists_above ⟨levels, positive, below, Nat.lt_of_not_le inside⟩

end path

section monitoring

variable {x top : ℕ} {node : Node}

theorem covers_root {position : ℕ} (within : TopWithin start n ⟨log2 n, 0⟩ node)
    (start_le : start ≤ position) (lt_end : position < n) : node.Covers position := by
  apply within.covers position start_le lt_end
  rw [covers_top]
  have := lt_two_pow_log2 n
  omega

theorem height_root_lt (within : TopWithin start n ⟨log2 n, 0⟩ node) (fits : n < 2 ^ 64) :
    node.height < 64 := by
  have := log2_lt fits
  have := within.lower
  simp only at this
  omega

def UnderRoot (start n x : ℕ) : Prop :=
  ∃ top, (root start n : Run Empty ℕ) = .ok top ∧ IsAbove top x

theorem start_lt_of_root (found : (root start n : Run Empty ℕ) = .ok top) (fits : n < 2 ^ 64) :
    start < n := by
  by_contra empty
  exact root_not_returns (Nat.le_of_not_lt empty) fits (returns_of_eq_ok found)

theorem underRoot_of_lt (start_le : start ≤ x) (lt_end : x < n) (fits : n < 2 ^ 64) :
    UnderRoot start n x := by
  rcases root_spec (Nat.lt_of_le_of_lt start_le lt_end) fits with ⟨top, within, found⟩
  exact ⟨top.number, found, top, rfl, covers_root within start_le lt_end⟩

/-- The loop over the monitoring path is a loop over the positions after `x` that stand above
it and below the root. -/
theorem forMonitoringPath_eq (found : (root start n : Run Empty ℕ) = .ok top)
    (under : IsAbove top x) (fits : n < 2 ^ 64) :
    ∃ path : List ℕ, (∀ position, position ∈ path ↔
        x < position ∧ position < n ∧ IsAbove position x ∧ IsAbove top position) ∧
      path.Pairwise (· < ·) ∧
      ∀ {Failure State : Type} (state : State) (visit : ℕ → State → Run Failure (ForInStep State)),
        forMonitoringPath x start n state visit = forIn path state visit := by
  rcases root_spec (start_lt_of_root found fits) fits with ⟨root, within, isRoot⟩
  have same : root.number = top := Except.ok.inj (isRoot.symm.trans found)
  rcases under with ⟨other, otherEq, covers⟩
  cases Node.number_injective (otherEq.trans same.symm)
  rcases Node.exists_number_eq x with ⟨node, rfl⟩
  have lower := Node.height_le_of_covers covers
  have above := Node.eq_above_of_covers lower node.covers_self covers
  have low : node.height + (root.height - node.height) < 64 := by
    have := height_root_lt within fits
    omega
  refine ⟨(positionsAbove node (root.height - node.height)).filter
    fun position => position < n && node.number < position, ?_, ?_, ?_⟩
  · intro position
    rw [mem_filter, mem_positionsAbove]
    simp only [Bool.and_eq_true, decide_eq_true_eq]
    constructor
    · rintro ⟨⟨level, _, le, rfl⟩, inside, after⟩
      refine ⟨after, inside, ⟨_, rfl, Node.covers_above node.covers_self _⟩, root, same, ?_⟩
      have split : root = (node.above level).above (root.height - node.height - level) := by
        rw [Node.above_above]
        rw [show level + (root.height - node.height - level) = root.height - node.height by omega]
        exact above
      rw [split]
      exact Node.covers_above (node.above level).covers_self _
    · rintro ⟨after, inside, ⟨between, rfl, betweenCovers⟩, upper, upperEq, upperCovers⟩
      cases Node.number_injective (upperEq.trans same.symm)
      have betweenLower := Node.height_le_of_covers betweenCovers
      have betweenAbove := Node.eq_above_of_covers betweenLower node.covers_self betweenCovers
      have betweenHeight := Node.height_le_of_covers upperCovers
      refine ⟨⟨between.height - node.height, ?_, by omega, by rw [← betweenAbove]⟩, inside, after⟩
      by_contra zero
      rw [Nat.eq_zero_of_not_pos zero] at betweenAbove
      rw [betweenAbove] at after
      exact Nat.lt_irrefl _ after
  · apply ((pairwise_positionsAbove node _).filter _).imp_of_mem
    rintro lower upper isLower isUpper ⟨apart, above⟩
    obtain ⟨level, _, _, rfl⟩ := mem_positionsAbove.mp (mem_filter.mp isLower).1
    have after := (mem_filter.mp isUpper).2
    simp only [Bool.and_eq_true, decide_eq_true_eq] at after
    exact above.lt ⟨_, rfl, Node.covers_above node.covers_self _⟩ apart.symm after.2
  · intro Failure State state visit
    unfold forMonitoringPath
    rw [isRoot]
    have enough : root.height - node.height < rounds := by
      unfold rounds
      omega
    have walked := @walk_eq Failure n State node.number rounds _ node visit low enough
      (above ▸ within.lt_end) state
    rw [← above] at walked
    exact walked

theorem forMonitoringPath_spec (start_le : start ≤ x) (lt_end : x < n) (fits : n < 2 ^ 64) :
    ∃ path : List ℕ, (∀ position, position ∈ path ↔
        x < position ∧ position < n ∧ IsAbove position x) ∧
      path.Pairwise (· < ·) ∧
      ∀ {Failure State : Type} (state : State) (visit : ℕ → State → Run Failure (ForInStep State)),
        forMonitoringPath x start n state visit = forIn path state visit := by
  rcases root_spec (Nat.lt_of_le_of_lt start_le lt_end) fits with ⟨top, within, found⟩
  rcases forMonitoringPath_eq found ⟨top, rfl, covers_root within start_le lt_end⟩ fits with
    ⟨path, members, sorted, loop⟩
  refine ⟨path, ?_, sorted, loop⟩
  intro position
  rw [members]
  constructor
  · rintro ⟨after, inside, above, _⟩
    exact ⟨after, inside, above⟩
  · rintro ⟨after, inside, above⟩
    exact ⟨after, inside, above, top, rfl, covers_root within (by omega) inside⟩

theorem forIn_append (positions path : List ℕ) :
    (forIn positions path fun position path => pure (.yield (path ++ [position])) :
      Run Failure (List ℕ)) = .ok (path ++ positions) := by
  induction positions generalizing path with
  | nil =>
    rw [append_nil]
    rfl
  | cons position rest ih =>
    rw [append_cons, forIn_cons]
    exact ih (path ++ [position])

theorem monitoringPath_spec (start_le : start ≤ x) (lt_end : x < n) (fits : n < 2 ^ 64) :
    ∃ path : List ℕ, path.Pairwise (· < ·) ∧
      (∀ {Failure : Type}, (monitoringPath x start n : Run Failure _) = .ok path) ∧
      ∀ position, position ∈ path ↔ x < position ∧ position < n ∧ IsAbove position x := by
  obtain ⟨path, members, sorted, loop⟩ := forMonitoringPath_spec start_le lt_end fits
  refine ⟨path, sorted, ?_, members⟩
  intro Failure
  rw [monitoringPath, loop, forIn_append]
  rfl

theorem forMonitoringPath_not_returns {State : Type}
    {visit : ℕ → State → Run Failure (ForInStep State)} (fits : n < 2 ^ 64) (small : x < 2 ^ 64)
    (outside : ¬UnderRoot start n x)
    (goesOn : ∀ position, x < position → position < n → ∀ state,
      ∃ next, visit position state = .ok (.yield next)) (state : State) :
    ¬Returns (forMonitoringPath x start n state visit) := by
  unfold forMonitoringPath
  by_cases empty : n ≤ start
  · rw [returns_bind]
    rintro ⟨returns, _⟩
    exact root_not_returns empty fits returns
  · rcases root_spec (Nat.lt_of_not_le empty) fits with ⟨top, within, found⟩
    rcases Node.exists_number_eq x with ⟨node, rfl⟩
    have low : node.height ≤ 64 := by
      by_contra high
      have power : 2 ^ 65 ≤ 2 ^ node.height := Nat.pow_le_pow_right (by decide) (by omega)
      have := node.number_add_one
      unfold Node.half at this
      omega
    rw [found]
    apply walk_not_returns low _ goesOn
    intro covers
    exact outside ⟨top.number, found, top, rfl, covers⟩

end monitoring

/-- The nodes from the given one on to the last position, each on the right of the one before. -/
inductive Spine (start n : ℕ) : Node → List Node → Prop where
  | last {node : Node} (atEnd : node.number + 1 = n) : Spine start n node [node]
  | next {node top : Node} {rest : List Node} (inner : node.height ≠ 0)
      (before : node.number + 1 < n) (within : TopWithin start n node.right top)
      (spine : Spine start n top rest) : Spine start n node (node :: rest)

section frontier

variable {rounds : ℕ} {node : Node} {nodes : List Node} {position : ℕ} {found : Node}

theorem frontierAfter_spec (low : node.height < 64) (enough : node.height < rounds)
    (start_le : start ≤ node.number) (lt_end : node.number < n) (covers : node.Covers (n - 1)) :
    ∃ nodes, Spine start n node nodes ∧ ∀ {Failure : Type},
      (frontierAfter start n rounds node.number : Run Failure (List ℕ)) =
        .ok (nodes.map Node.number) := by
  induction rounds generalizing node with
  | zero => exact absurd enough (Nat.not_lt_zero _)
  | succ rounds ih =>
    by_cases atEnd : node.number = n - 1
    · refine ⟨[node], .last (by omega), ?_⟩
      intro Failure
      rw [frontierAfter, if_pos atEnd]
      rfl
    · have inner : node.height ≠ 0 := by
        intro leaf
        exact atEnd (Node.eq_of_covers_leaf leaf covers).symm
      rcases right_spec low inner start_le (show node.number + 1 < n by omega) with
        ⟨top, within, moved⟩
      have topCovers : top.Covers (n - 1) :=
        within.covers (n - 1) (by omega) (by omega)
          ((Node.covers_right inner).mpr ⟨covers, by omega⟩)
      have height := Node.height_right inner
      have lower := within.lower
      rcases ih (by omega) (by omega) within.start_le within.lt_end topCovers with
        ⟨rest, spine, found⟩
      refine ⟨node :: rest, .next inner (by omega) within spine, ?_⟩
      intro Failure
      rw [frontierAfter, if_neg atEnd, moved]
      change (frontierAfter start n rounds top.number >>= _) = _
      rw [found]
      rfl

theorem frontier_spec (start_lt : start < n) (fits : n < 2 ^ 64) :
    ∃ top nodes, TopWithin start n ⟨log2 n, 0⟩ top ∧ Spine start n top nodes ∧
      ∀ {Failure : Type}, (root start n : Run Failure ℕ) = .ok top.number ∧
        (frontier start n : Run Failure (List ℕ)) = .ok (nodes.map Node.number) := by
  rcases root_spec start_lt fits with ⟨top, within, found⟩
  have low := height_root_lt within fits
  rcases @frontierAfter_spec start n KeyTransparency.rounds top low (Nat.lt_succ_of_lt low)
    within.start_le within.lt_end (covers_root within (by omega) (by omega)) with
    ⟨nodes, spine, walked⟩
  refine ⟨top, nodes, within, spine, ?_⟩
  intro Failure
  refine ⟨found, ?_⟩
  unfold frontier
  rw [found]
  exact walked

section

variable (spine : Spine start n node nodes)

include spine

theorem Spine.exists_covers (start_le : start ≤ node.number) (lt_end : position < n)
    (covers : node.Covers position) :
    ∃ found ∈ nodes, position ≤ found.number ∧ found.Covers position := by
  induction spine with
  | last atEnd => exact ⟨_, mem_singleton_self _, by omega, covers⟩
  | @next node top rest inner before within spine ih =>
    by_cases first : position ≤ node.number
    · exact ⟨node, mem_cons_self, first, covers⟩
    · have topCovers : top.Covers position :=
        within.covers position (by omega) lt_end
          ((Node.covers_right inner).mpr ⟨covers, by omega⟩)
      rcases ih within.start_le topCovers with ⟨found, isFound, le, foundCovers⟩
      exact ⟨found, mem_cons_of_mem _ isFound, le, foundCovers⟩

theorem Spine.mem_range (start_le : start ≤ node.number) (isFound : found ∈ nodes) :
    start ≤ found.number ∧ found.number < n ∧ (found = node ∨ node.Covers found.number) := by
  induction spine with
  | last atEnd =>
    cases mem_singleton.mp isFound
    exact ⟨start_le, by omega, Or.inl rfl⟩
  | @next node top rest inner before within spine ih =>
    rcases mem_cons.mp isFound with rfl | isRest
    · exact ⟨start_le, by omega, Or.inl rfl⟩
    · rcases ih within.start_le isRest with ⟨after, inside, below⟩
      refine ⟨after, inside, Or.inr ?_⟩
      have topCovers : top.Covers found.number := by
        rcases below with rfl | covers
        · exact found.covers_self
        · exact covers
      exact ((Node.covers_right inner).mp (within.nested _ topCovers)).1

theorem Spine.pairwise (start_le : start ≤ node.number) :
    nodes.Pairwise fun upper lower => upper.number < lower.number ∧
      upper.Covers lower.number := by
  induction spine with
  | last atEnd => exact pairwise_singleton _ _
  | @next node top rest inner before within spine ih =>
    refine pairwise_cons.mpr ⟨?_, ih within.start_le⟩
    intro lower isLower
    have topCovers : top.Covers lower.number := by
      rcases (spine.mem_range within.start_le isLower).2.2 with rfl | covers
      · exact lower.covers_self
      · exact covers
    obtain ⟨covers, after⟩ := (Node.covers_right inner).mp (within.nested _ topCovers)
    exact ⟨after, covers⟩

theorem Spine.not_covers (start_le : start ≤ node.number) {upper lower : Node}
    (isUpper : upper ∈ nodes) (isLower : lower ∈ nodes) (before : upper.number < lower.number) :
    ¬lower.Covers upper.number := by
  intro covers
  have ordered := pairwise_iff_getElem.mp (spine.pairwise start_le)
  obtain ⟨first, firstBound, rfl⟩ := getElem_of_mem isUpper
  obtain ⟨second, secondBound, rfl⟩ := getElem_of_mem isLower
  rcases Nat.lt_trichotomy first second with earlier | rfl | later
  · obtain ⟨_, upperCovers⟩ := ordered first second firstBound secondBound earlier
    have same := Node.eq_of_covers (Nat.le_antisymm (Node.height_le_of_covers covers)
      (Node.height_le_of_covers upperCovers)) (Node.covers_self _) covers
    rw [same] at before
    exact Nat.lt_irrefl _ before
  · exact Nat.lt_irrefl _ before
  · have := (ordered second first secondBound firstBound later).1
    omega

theorem Spine.exists_last : ∃ last ∈ nodes, last.number + 1 = n := by
  induction spine with
  | last atEnd => exact ⟨_, mem_singleton_self _, atEnd⟩
  | next _ _ _ _ ih =>
    obtain ⟨last, isLast, atEnd⟩ := ih
    exact ⟨last, .tail _ isLast, atEnd⟩

theorem Spine.split (start_le : start ≤ node.number) (after : start ≤ position)
    (lt_end : position < n) (covers : node.Covers position) (isFound : found ∈ nodes)
    (notCovers : ¬found.Covers position) :
    found.number < position ∨
      ∃ earlier ∈ nodes, earlier.number < found.number ∧ position ≤ earlier.number := by
  induction spine with
  | last atEnd =>
    cases mem_singleton.mp isFound
    exact absurd covers notCovers
  | @next node top rest inner before within spine ih =>
    rcases mem_cons.mp isFound with rfl | isRest
    · exact absurd covers notCovers
    · have ordered := (Spine.next inner before within spine).pairwise start_le
      by_cases upTo : position ≤ node.number
      · exact .inr ⟨node, mem_cons_self,
          ((pairwise_cons.mp ordered).1 found isRest).1, upTo⟩
      · have topCovers := within.covers position after lt_end
          ((Node.covers_right inner).mpr ⟨covers, by omega⟩)
        rcases ih within.start_le topCovers isRest with later | ⟨earlier, isEarlier, range⟩
        · exact .inl later
        · exact .inr ⟨earlier, .tail _ isEarlier, range⟩

theorem Spine.not_above (none : ∀ upper : Node, node.number < upper.number → upper.number < n →
      ¬upper.Covers node.number) :
    ∀ found ∈ nodes, ∀ upper : Node, found.number < upper.number → upper.number < n →
      ¬upper.Covers found.number := by
  induction spine with
  | last atEnd =>
    intro found isFound
    cases mem_singleton.mp isFound
    exact none
  | @next node top rest inner before within spine ih =>
    intro found isFound
    rcases mem_cons.mp isFound with rfl | isRest
    · exact none
    · refine ih ?_ found isRest
      intro upper after inside covers
      have onRight := (Node.covers_right inner).mp (within.nested _ top.covers_self)
      rcases within.above (Node.height_right inner)
        (fun _ covered => ((Node.covers_right inner).mp covered).1) covers after inside with
        rfl | ⟨nodeBefore, nodeCovers⟩
      · omega
      · exact none upper nodeBefore inside nodeCovers

end

theorem not_above_root {top upper : Node} (within : TopWithin start n ⟨log2 n, 0⟩ top)
    (after : top.number < upper.number) (inside : upper.number < n) :
    ¬upper.Covers top.number := by
  intro covers
  have topCovers := covers_root within (by have := within.start_le; omega) inside
  have same : upper = top := Node.eq_of_covers
    (Nat.le_antisymm (Node.height_le_of_covers topCovers) (Node.height_le_of_covers covers))
    covers top.covers_self
  rw [same] at after
  exact Nat.lt_irrefl _ after

end frontier

/-- With a position, all later ones of the log that stand above it are there. -/
def UpClosed (n : ℕ) (positions : List ℕ) : Prop :=
  ∀ position ∈ positions, ∀ upper, position < upper → upper < n → IsAbove upper position →
    upper ∈ positions

theorem upClosed_spine {top : Node} {nodes : List Node} (within : TopWithin start n ⟨log2 n, 0⟩ top)
    (spine : Spine start n top nodes) :
    ∀ node ∈ nodes, ∀ upper, node.number < upper → upper < n → ¬IsAbove upper node.number := by
  rintro node isNode _ after inside ⟨upper, rfl, covers⟩
  exact spine.not_above (fun _ => not_above_root within) node isNode upper after inside covers

theorem UpClosed.push {positions : List ℕ} {node child top : Node} (closed : UpClosed n positions)
    (member : node.number ∈ positions) (height : child.height + 1 = node.height)
    (under : ∀ position, child.Covers position → node.Covers position)
    (within : TopWithin start n child top) : UpClosed n (positions ++ [top.number]) := by
  intro position isPosition upper after inside above
  apply mem_append_left
  rcases mem_append.mp isPosition with isOld | isNew
  · exact closed position isOld upper after inside above
  · cases mem_singleton.mp isNew
    obtain ⟨upper, rfl, covers⟩ := above
    rcases within.above height under covers after inside with rfl | ⟨before, nodeCovers⟩
    · exact member
    · exact closed _ member _ before inside ⟨upper, rfl, nodeCovers⟩

section fullPath

variable {entry : ℕ} {path : List ℕ}

theorem forIn_collect {positions path : List ℕ} (nodup : (path ++ positions).Nodup) :
    (forIn positions path fun x path =>
      pure (.yield (if x ∈ path then path else path ++ [x])) : Run Failure (List ℕ)) =
        .ok (path ++ positions) := by
  induction positions generalizing path with
  | nil =>
    rw [append_nil]
    rfl
  | cons position rest ih =>
    have fresh : position ∉ path := fun member =>
      (nodup_append.mp nodup).2.2 position member position mem_cons_self rfl
    rw [append_cons] at nodup ⊢
    rw [forIn_cons, if_neg fresh]
    exact ih nodup

theorem monitoringFrontier_eq_ok {frontier entries rest : List ℕ}
    (found : (monitoringFrontier frontier entries : Run Failure (List ℕ)) = .ok rest) :
    ∃ before last, frontier = before ++ last :: rest ∧ last ∈ entries ∧
      ∀ position ∈ rest, position ∉ entries := by
  unfold monitoringFrontier at found
  split at found
  · cases found
  · next index isIndex =>
      cases found
      obtain ⟨bound, isEntry, others⟩ := findIdx?_eq_some_iff_getElem.mp isIndex
      rw [length_reverse] at bound
      simp only [getElem_reverse, decide_eq_true_eq] at isEntry others
      refine ⟨frontier.take (frontier.length - 1 - index), _, ?_, isEntry, ?_⟩
      · rw [show frontier.length - index = frontier.length - 1 - index + 1 by omega,
          ← drop_eq_getElem_cons, take_append_drop]
      · intro position member isEntry
        obtain ⟨place, inside, rfl⟩ := getElem_of_mem member
        rw [length_drop] at inside
        refine others (index - 1 - place) (by omega) ?_
        rw [getElem_drop] at isEntry
        convert isEntry using 2
        omega

theorem monitoringFrontier_returns {frontier entries : List ℕ} :
    Returns (monitoringFrontier frontier entries : Run Failure (List ℕ)) ↔
      ∃ position ∈ frontier, position ∈ entries := by
  unfold monitoringFrontier
  cases found : frontier.reverse.findIdx? (· ∈ entries) with
  | none =>
    rw [findIdx?_eq_none_iff] at found
    refine ⟨False.elim, ?_⟩
    rintro ⟨position, isNode, isEntry⟩
    have := found position (mem_reverse.mpr isNode)
    simp [isEntry] at this
  | some index =>
    rw [findIdx?_eq_some_iff_getElem] at found
    rcases found with ⟨bound, isEntry, _⟩
    refine ⟨fun _ => ⟨_, mem_reverse.mp (getElem_mem bound), ?_⟩, fun _ => trivial⟩
    simpa using isEntry

/-- The full monitoring path is the monitoring path and then a part of the frontier. -/
theorem fullMonitoringPath_eq {top : ℕ} (found : (root start n : Run Empty ℕ) = .ok top)
    (under : IsAbove top entry) (fits : n < 2 ^ 64) :
    ∃ root nodes ancestors, TopWithin start n ⟨log2 n, 0⟩ root ∧ Spine start n root nodes ∧
      root.number = top ∧ ancestors.Pairwise (· < ·) ∧
      (∀ position, position ∈ ancestors ↔
        entry < position ∧ position < n ∧ IsAbove position entry ∧ IsAbove top position) ∧
      ∀ {Failure : Type}, (monitoringPath entry start n : Run Failure _) = .ok ancestors ∧
        (frontier start n : Run Failure _) = .ok (nodes.map Node.number) ∧
        (fullMonitoringPath entry start n : Run Failure (List ℕ)) =
          monitoringFrontier (nodes.map Node.number) (entry :: ancestors) >>= fun rest =>
            pure (ancestors ++ rest) := by
  rcases forMonitoringPath_eq found under fits with ⟨ancestors, members, sorted, loop⟩
  rcases frontier_spec (start_lt_of_root found fits) fits with ⟨root, nodes, within, spine, walked⟩
  refine ⟨root, nodes, ancestors, within, spine, Except.ok.inj (walked.1.symm.trans found), sorted,
    members, fun {Failure} => ⟨?_, walked.2, ?_⟩⟩
  · rw [monitoringPath, loop, forIn_append]
    rfl
  · unfold fullMonitoringPath
    rw [loop, @forIn_collect _ ancestors [] (sorted.imp Nat.ne_of_lt)]
    change (frontier start n >>= _) = _
    rw [walked.2]
    rfl

section

variable (fits : n < 2 ^ 64) (small : entry < 2 ^ 64)

include fits small

theorem fullMonitoringPath_returns :
    Returns (fullMonitoringPath entry start n : Run Failure (List ℕ)) ↔
      entry < n ∧ UnderRoot start n entry := by
  by_cases under : UnderRoot start n entry
  · rcases under with ⟨top, found, above⟩
    rcases fullMonitoringPath_eq found above fits with
      ⟨root, nodes, ancestors, within, spine, rfl, _, members, isPath⟩
    rw [isPath.2.2, returns_bind, monitoringFrontier_returns]
    constructor
    · rintro ⟨⟨position, isNode, isEntry⟩, _⟩
      refine ⟨?_, _, found, above⟩
      rcases mem_map.mp isNode with ⟨node, onSpine, rfl⟩
      have range := spine.mem_range within.start_le onSpine
      rcases mem_cons.mp isEntry with same | isEntry
      · omega
      · have := (members _).mp isEntry
        omega
    · rintro ⟨lt_end, _⟩
      refine ⟨?_, fun _ _ => trivial⟩
      rcases above with ⟨other, otherEq, covers⟩
      cases Node.number_injective otherEq
      rcases spine.exists_covers within.start_le lt_end covers with ⟨node, isNode, le, nodeCovers⟩
      have range := spine.mem_range within.start_le isNode
      refine ⟨node.number, mem_map_of_mem isNode, ?_⟩
      rcases Nat.eq_or_lt_of_le le with equal | after
      · rw [← equal]
        exact mem_cons_self
      · apply mem_cons_of_mem
        rw [members]
        refine ⟨after, range.2.1, ⟨node, rfl, nodeCovers⟩, root, rfl, ?_⟩
        rcases range.2.2 with rfl | below
        · exact node.covers_self
        · exact below
  · refine ⟨fun returns => ?_, fun both => absurd both.2 under⟩
    unfold fullMonitoringPath at returns
    rw [returns_bind] at returns
    exact (forMonitoringPath_not_returns fits small under (fun _ _ _ _ => ⟨_, rfl⟩) _
      returns.1).elim

variable (found : (fullMonitoringPath entry start n : Run Failure (List ℕ)) = .ok path)

include found

theorem fullMonitoringPath_spec :
    ∃ root nodes, TopWithin start n ⟨log2 n, 0⟩ root ∧ Spine start n root nodes ∧
      (∀ position, entry < position → position < n → IsAbove position entry →
        IsAbove root.number position → position ∈ path) ∧
      ∀ position ∈ path,
        (entry < position ∧ position < n ∧ IsAbove position entry ∧
          IsAbove root.number position) ∨ ∃ node ∈ nodes, node.number = position := by
  obtain ⟨_, top, isTop, above⟩ :=
    (fullMonitoringPath_returns fits small).mp (returns_of_eq_ok found)
  rcases fullMonitoringPath_eq isTop above fits with
    ⟨root, nodes, ancestors, within, spine, rfl, _, members, isPath⟩
  rw [isPath.2.2] at found
  obtain ⟨rest, isRest, same⟩ := Result.bind_eq_ok.mp found
  cases same
  obtain ⟨before, last, isFrontier, _, _⟩ := monitoringFrontier_eq_ok isRest
  refine ⟨root, nodes, within, spine, ?_, ?_⟩
  · intro position after inside isAbove below
    exact mem_append_left _ ((members position).mpr ⟨after, inside, isAbove, below⟩)
  · intro position member
    rcases mem_append.mp member with isAncestor | inRest
    · exact .inl ((members position).mp isAncestor)
    · refine .inr (mem_map.mp ?_)
      rw [isFrontier]
      exact mem_append_right _ (.tail _ inRest)

theorem fullMonitoringPath_lt : ∀ position ∈ path, position < n := by
  obtain ⟨root, nodes, within, spine, _, origin⟩ := fullMonitoringPath_spec fits small found
  intro position member
  rcases origin position member with ⟨_, inside, _⟩ | ⟨node, isNode, rfl⟩
  · exact inside
  · exact (spine.mem_range within.start_le isNode).2.1

theorem fullMonitoringPath_upClosed : UpClosed n path := by
  obtain ⟨root, nodes, within, spine, onPath, origin⟩ := fullMonitoringPath_spec fits small found
  intro position member upper after inside isAbove
  rcases origin position member with ⟨afterEntry, _, aboveEntry, below⟩ | ⟨node, isNode, rfl⟩
  · refine onPath upper (afterEntry.trans after) inside (isAbove.trans aboveEntry) ?_
    obtain ⟨other, otherEq, covers⟩ := below
    cases Node.number_injective otherEq
    obtain ⟨upper, rfl, upperCovers⟩ := isAbove
    refine ⟨root, rfl, ?_⟩
    rcases Nat.lt_or_ge root.height upper.height with higher | lower
    · -- The root stands on the left of a higher node, as the position does.
      have inner : upper.height ≠ 0 := by omega
      have left := Node.height_left inner
      have onLeft := Node.covers_of_covers (by omega) covers
        ((Node.covers_left inner).mpr ⟨upperCovers, after⟩) root.covers_self
      have before := ((Node.covers_left inner).mp onLeft).2
      exact covers_root within (by have := within.start_le; omega) inside
    · exact Node.covers_of_covers lower upperCovers covers upper.covers_self
  · exact absurd isAbove (upClosed_spine within spine node isNode upper after inside)

end

end fullPath

end LegacySignal.KeyTransparency
