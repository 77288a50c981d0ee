import LegacySignal.KeyTransparency.LogTree

/-!
# The copath of a batch of entries

In a log with `n` entries the node of height `j` at the place `q` stands for the
entries from `2 ^ j * q` on. Where it would have no right child, the node below
it takes its place. In each round `batch_copath` goes from nodes of one height to
those of the next, and what it adds to them it puts out: so the entries and the
nodes that it puts out make up the whole log, each entry once.
-/

namespace LegacySignal.KeyTransparency.LogTree

open FlatTree Run List

variable {Failure : Type} {n j q : ℕ} {node : Node} {entry value : ℕ}

def InTree (n : ℕ) (node : Node) : Prop := node.number + 1 < 2 * n

instance (n : ℕ) (node : Node) : Decidable (InTree n node) :=
  inferInstanceAs (Decidable (_ < _))

def Spans (node : Node) (entry : ℕ) : Prop := entry / 2 ^ node.height = node.place

instance (node : Node) (entry : ℕ) : Decidable (Spans node entry) :=
  inferInstanceAs (Decidable (_ = _))

theorem inTree_succ : InTree n ⟨j + 1, q⟩ ↔ 2 ^ j * (2 * q + 1) < n := by
  unfold InTree
  rw [Node.number_eq_mul, pow_succ']
  simp only [mul_assoc]
  omega

theorem inTree_zero : InTree n ⟨0, q⟩ ↔ q < n := by
  unfold InTree
  rw [Node.number_eq_mul]
  simp only [pow_zero, one_mul]
  omega

theorem height_lt (fits : n ≤ 2 ^ 63) (inTree : InTree n node) : node.height < 64 := by
  apply height_lt_of_number_lt
  unfold InTree at inTree
  omega

/-- The node of the tree that stands for the entries of the node of height `j` at place `q`. -/
def topNode (n : ℕ) : ℕ → ℕ → Node
  | 0, q => ⟨0, q⟩
  | j + 1, q => if InTree n ⟨j + 1, q⟩ then ⟨j + 1, q⟩ else topNode n j (2 * q)

theorem topNode_of_inTree (inTree : InTree n ⟨j, q⟩) : topNode n j q = ⟨j, q⟩ := by
  cases j with
  | zero => rfl
  | succ j => exact if_pos inTree

theorem topNode_succ_of_not_inTree (outside : ¬InTree n ⟨j + 1, q⟩) :
    topNode n (j + 1) q = topNode n j (2 * q) :=
  if_neg outside

theorem place_lt (inside : 2 ^ (j + 1) * q < n) : 2 ^ j * (2 * q) < n := by
  rwa [← mul_assoc, ← pow_succ]

theorem topNode_inTree (inside : 2 ^ j * q < n) : InTree n (topNode n j q) := by
  induction j generalizing q with
  | zero =>
    rw [pow_zero, one_mul] at inside
    exact inTree_zero.mpr inside
  | succ j ih =>
    by_cases inTree : InTree n ⟨j + 1, q⟩
    · rw [topNode_of_inTree inTree]
      exact inTree
    · rw [topNode_succ_of_not_inTree inTree]
      exact ih (place_lt inside)

theorem topNode_height_le : (topNode n j q).height ≤ j := by
  induction j generalizing q with
  | zero => exact le_rfl
  | succ j ih =>
    by_cases inTree : InTree n ⟨j + 1, q⟩
    · rw [topNode_of_inTree inTree]
    · rw [topNode_succ_of_not_inTree inTree]
      exact Nat.le_succ_of_le ih

theorem topNode_spans (lt : entry < n) :
    Spans (topNode n j q) entry ↔ entry / 2 ^ j = q := by
  induction j generalizing q with
  | zero => rfl
  | succ j ih =>
    by_cases inTree : InTree n ⟨j + 1, q⟩
    · rw [topNode_of_inTree inTree]
      rfl
    · rw [topNode_succ_of_not_inTree inTree, ih, pow_succ, ← Nat.div_div_eq_div_mul]
      rw [inTree_succ] at inTree
      have small : entry / 2 ^ j < 2 * q + 1 := by
        apply Nat.div_lt_of_lt_mul
        omega
      omega

theorem topWithin_topNode (inside : 2 ^ j * q < n) :
    TopWithin 0 (2 * n - 1) ⟨j, q⟩ (topNode n j q) := by
  induction j generalizing q with
  | zero =>
    have inTree := topNode_inTree inside
    unfold InTree at inTree
    exact ⟨Nat.zero_le _, by omega, le_rfl, fun _ => id, fun _ _ _ => id⟩
  | succ j ih =>
    by_cases inTree : InTree n ⟨j + 1, q⟩
    · rw [topNode_of_inTree inTree]
      unfold InTree at inTree
      exact ⟨Nat.zero_le _, by omega, le_rfl, fun _ => id, fun _ _ _ => id⟩
    · rw [topNode_succ_of_not_inTree inTree]
      have within := ih (place_lt inside)
      have inner : (⟨j + 1, q⟩ : Node).height ≠ 0 := Nat.succ_ne_zero j
      have isLeft : (⟨j + 1, q⟩ : Node).left = ⟨j, 2 * q⟩ := rfl
      rw [← isLeft] at within
      refine ⟨within.start_le, within.lt_end, Nat.le_succ_of_le within.lower, ?_, ?_⟩
      · intro position covers
        exact ((Node.covers_left inner).mp (within.nested position covers)).1
      · intro position start_le lt_end covers
        apply within.covers position start_le lt_end
        rw [Node.covers_left inner]
        unfold InTree at inTree
        exact ⟨covers, by omega⟩

theorem u64_eq (fits : value < 2 ^ 64) : (u64 value : Run Failure ℕ) = .ok value :=
  if_pos fits

theorem u64_eq_ok {value result : ℕ} :
    (u64 value : Run Failure ℕ) = .ok result ↔ value < 2 ^ 64 ∧ value = result := by
  unfold u64
  split
  · next fits =>
      constructor
      · rintro ⟨⟩
        exact ⟨fits, rfl⟩
      · rintro ⟨_, rfl⟩
        rfl
  · next large =>
      constructor
      · rintro ⟨⟩
      · rintro ⟨fits, _⟩
        exact absurd fits large

theorem u64_not_returns (large : 2 ^ 64 ≤ value) :
    ¬Returns (u64 value : Run Failure ℕ) := by
  unfold u64
  rw [if_neg (by omega)]
  exact id

theorem nodeWidth_eq (positive : 0 < n) (fits : n ≤ 2 ^ 63) :
    (nodeWidth n : Run Failure ℕ) = .ok (2 * n - 1) := by
  cases n with
  | zero => exact absurd positive (Nat.lt_irrefl 0)
  | succ n =>
    rw [nodeWidth, u64_eq (by omega)]
    rfl

theorem nodeWidth_not_returns (large : 2 ^ 63 < n) :
    ¬Returns (nodeWidth n : Run Failure ℕ) := by
  cases n with
  | zero => omega
  | succ n => exact u64_not_returns (by omega)

def top (n : ℕ) : Node := ⟨log2 (2 * n - 1), 0⟩

theorem root_eq (positive : 0 < n) (fits : n ≤ 2 ^ 63) :
    (root n : Run Failure ℕ) = .ok (top n).number := by
  unfold root top
  rw [nodeWidth_eq positive fits, number_top, ← Nat.one_shiftLeft]
  rfl

theorem root_not_returns (large : 2 ^ 63 < n) : ¬Returns (root n : Run Failure ℕ) := by
  unfold root
  rw [returns_bind]
  exact fun returns => nodeWidth_not_returns large returns.1

theorem two_pow_top_lt (positive : 0 < n) : 2 ^ (top n).height < 2 * n := by
  have : 2 ^ log2 (2 * n - 1) ≤ 2 * n - 1 := Nat.log2_self_le (by omega)
  simp only [top]
  omega

theorem le_two_pow_top (n : ℕ) : n ≤ 2 ^ (top n).height := by
  have := lt_two_pow_log2 (2 * n - 1)
  simp only [top]
  omega

theorem top_inTree (positive : 0 < n) : InTree n (top n) := by
  unfold InTree
  rw [Node.number_eq_mul]
  simpa [top] using two_pow_top_lt positive

theorem topNode_eq_top (positive : 0 < n) (high : n ≤ 2 ^ j) : topNode n j 0 = top n := by
  have lower := two_pow_top_lt positive
  have upper := le_two_pow_top n
  induction j with
  | zero =>
    have one : n = 1 := by
      rw [pow_zero] at high
      omega
    subst one
    rfl
  | succ j ih =>
    by_cases inTree : InTree n ⟨j + 1, 0⟩
    · rw [topNode_of_inTree inTree]
      rw [inTree_succ, mul_zero, zero_add, mul_one] at inTree
      have below : j < (top n).height := by
        apply (Nat.pow_lt_pow_iff_right (a := 2) (by decide)).mp
        omega
      have above : (top n).height < j + 2 := by
        apply (Nat.pow_lt_pow_iff_right (a := 2) (by decide)).mp
        rw [pow_succ]
        omega
      have same : (top n).height = j + 1 := by omega
      unfold top at same ⊢
      rw [← same]
    · rw [topNode_succ_of_not_inTree inTree]
      rw [inTree_succ, mul_zero, zero_add, mul_one] at inTree
      exact ih (by omega)

theorem descend_eq (width rounds x : ℕ) :
    (descend width rounds x : Run Failure ℕ) = moveWithin 0 width rounds x := by
  induction rounds generalizing x with
  | zero => rfl
  | succ rounds ih =>
    rw [descend, moveWithin]
    by_cases outside : width ≤ x
    · rw [if_pos outside, if_neg (by omega), if_neg (by omega)]
      apply Result.bind_congr
      intro next
      exact ih next
    · rw [if_neg outside, if_pos ⟨Nat.zero_le _, by omega⟩]

theorem left_eq (low : node.height ≤ 64) (inner : node.height ≠ 0) :
    (left node.number : Run Failure ℕ) = .ok node.left.number :=
  leftStep_number inner low

theorem right_eq (fits : n ≤ 2 ^ 63) (inTree : InTree n ⟨j + 1, q⟩) :
    (right (⟨j + 1, q⟩ : Node).number n : Run Failure ℕ) =
      .ok (topNode n j (2 * q + 1)).number := by
  have low := height_lt fits inTree
  have inner : (⟨j + 1, q⟩ : Node).height ≠ 0 := Nat.succ_ne_zero j
  have inside := inTree_succ.mp inTree
  have within := topWithin_topNode inside
  have isRight : (⟨j + 1, q⟩ : Node).right = ⟨j, 2 * q + 1⟩ := rfl
  simp only at low
  rcases @moveWithin_spec 0 (2 * n - 1) rounds _ ⟨j, 2 * q + 1⟩ (Nat.lt_of_succ_lt low)
    (by unfold rounds; dsimp only; omega) within.start_le within.lt_end
    (within.nested _ (topNode n j (2 * q + 1)).covers_self) with ⟨found, foundWithin, moved⟩
  unfold right
  rw [rightStep_number inner low, nodeWidth_eq (by omega) fits, isRight]
  change descend (2 * n - 1) rounds _ = _
  rw [descend_eq, moved, foundWithin.unique within]

theorem parent_eq (fits : n ≤ 2 ^ 63) (inside : 2 ^ j * q < n)
    (inTree : InTree n ⟨j + 1, q / 2⟩) :
    (parent (topNode n j q).number n : Run Failure ℕ) = .ok (⟨j + 1, q / 2⟩ : Node).number := by
  have within := topWithin_topNode inside
  have low := height_lt fits inTree
  have lower : (topNode n j q).height ≤ j := topNode_height_le
  have isUp : (⟨j, q⟩ : Node).up = ⟨j + 1, q / 2⟩ := rfl
  have upCovers : (⟨j + 1, q / 2⟩ : Node).Covers (topNode n j q).number := by
    rw [← isUp]
    exact Node.covers_up (within.nested _ (topNode n j q).covers_self)
  have above := Node.eq_above_of_covers
    (show (topNode n j q).height ≤ (⟨j + 1, q / 2⟩ : Node).height by dsimp only; omega)
    (topNode n j q).covers_self upCovers
  dsimp only at above low
  have notRoot : (topNode n j q).number ≠ (top n).number := by
    apply Node.number_ne_of_height_lt
    have : 2 ^ j < 2 ^ (top n).height := by
      have := le_two_pow_top n
      have := inTree_succ.mp inTree
      have : 2 ^ j ≤ 2 ^ j * (2 * (q / 2) + 1) := Nat.le_mul_of_pos_right _ (by omega)
      omega
    have := (Nat.pow_lt_pow_iff_right (a := 2) (by decide)).mp this
    omega
  have reached : ((topNode n j q).above (j + 1 - (topNode n j q).height)).number < 2 * n - 1 := by
    rw [← above]
    unfold InTree at inTree
    omega
  rcases @KeyTransparency.parent_spec Failure (2 * n - 1) _ (topNode n j q) (by omega) (by omega)
    reached with ⟨found, le, positive, climbed, lt, _⟩
  have same : found = j + 1 - (topNode n j q).height := by
    by_contra different
    -- A node of the tree in between would stand below the topmost one.
    have betweenCovers : (⟨j, q⟩ : Node).Covers ((topNode n j q).above found).number := by
      have whole := Node.eq_above_of_covers (show (topNode n j q).height ≤ (⟨j, q⟩ : Node).height
        from lower) (topNode n j q).covers_self (within.nested _ (topNode n j q).covers_self)
      dsimp only at whole
      rw [whole, show j - (topNode n j q).height = found + (j - (topNode n j q).height - found) by
        omega, ← Node.above_above]
      exact Node.covers_above (Node.covers_self _) _
    have heights := Node.height_le_of_covers (within.covers _ (Nat.zero_le _) lt betweenCovers)
    rw [Node.height_above] at heights
    omega
  unfold parent
  rw [root_eq (by omega) fits]
  change (if (topNode n j q).number = (top n).number then _ else _) = _
  rw [if_neg notRoot, nodeWidth_eq (by omega) fits]
  rw [same, ← above] at climbed
  exact climbed

def otherPlace (q : ℕ) : ℕ := if q % 2 = 0 then q + 1 else q - 1

theorem sibling_eq (fits : n ≤ 2 ^ 63) (inside : 2 ^ j * q < n)
    (inTree : InTree n ⟨j + 1, q / 2⟩) :
    (sibling (topNode n j q).number n : Run Failure ℕ) =
      .ok (topNode n j (otherPlace q)).number := by
  have within := topWithin_topNode inside
  have low := height_lt fits inTree
  have inner : (⟨j + 1, q / 2⟩ : Node).height ≠ 0 := Nat.succ_ne_zero j
  have nested := within.nested _ (topNode n j q).covers_self
  unfold sibling otherPlace
  rw [parent_eq fits inside inTree]
  change (if (topNode n j q).number < (⟨j + 1, q / 2⟩ : Node).number then _ else _) = _
  by_cases even : q % 2 = 0
  · have isLeft : (⟨j + 1, q / 2⟩ : Node).left = ⟨j, q⟩ := by
      simp only [Node.left, Nat.add_sub_cancel, Node.mk.injEq, true_and]
      omega
    rw [← isLeft, Node.covers_left inner] at nested
    rw [if_pos nested.2, if_pos even, right_eq fits inTree,
      show 2 * (q / 2) + 1 = q + 1 by omega]
  · have isRight : (⟨j + 1, q / 2⟩ : Node).right = ⟨j, q⟩ := by
      simp only [Node.right, Nat.add_sub_cancel, Node.mk.injEq, true_and]
      omega
    rw [← isRight, Node.covers_right inner] at nested
    rw [if_neg (Nat.not_lt_of_gt nested.2), if_neg even, left_eq low.le inner]
    have isLeft : (⟨j + 1, q / 2⟩ : Node).left = ⟨j, q - 1⟩ := by
      simp only [Node.left, Nat.add_sub_cancel, Node.mk.injEq, true_and]
      omega
    have leftInTree : InTree n ⟨j, q - 1⟩ := by
      have before : (⟨j, q - 1⟩ : Node).number < (⟨j + 1, q / 2⟩ : Node).number := by
        have before := (Node.covers_left inner).mp (Node.covers_self _)
        rw [isLeft] at before
        exact before.2
      unfold InTree at inTree ⊢
      omega
    rw [isLeft, topNode_of_inTree leftInTree]

theorem otherPlace_lt (inside : 2 ^ j * q < n) (inTree : InTree n ⟨j + 1, q / 2⟩) :
    2 ^ j * otherPlace q < n := by
  rw [inTree_succ] at inTree
  unfold otherPlace
  split
  · rwa [show q + 1 = 2 * (q / 2) + 1 by omega]
  · exact Nat.lt_of_le_of_lt (Nat.mul_le_mul_left _ (Nat.sub_le q 1)) inside

theorem topNode_injective {other : ℕ} (inside : 2 ^ j * q < n)
    (same : (topNode n j q).number = (topNode n j other).number) : q = other := by
  have here : Spans (topNode n j q) (2 ^ j * q) := by
    rw [topNode_spans inside]
    exact Nat.mul_div_cancel_left q (Nat.two_pow_pos j)
  rw [Node.number_injective same, topNode_spans inside,
    Nat.mul_div_cancel_left q (Nat.two_pow_pos j)] at here
  exact here

theorem exists_below_parent (inside : 2 ^ j * q < n) (notTop : topNode n j q ≠ top n) :
    ∃ height place, j ≤ height ∧ 2 ^ height * place < n ∧
      topNode n height place = topNode n j q ∧ InTree n ⟨height + 1, place / 2⟩ ∧
      (¬InTree n ⟨j + 1, q / 2⟩ → j < height) := by
  obtain ⟨distance, bound⟩ : ∃ distance, n ≤ 2 ^ (j + distance) :=
    ⟨n, Nat.le_trans (Nat.le_of_lt Nat.lt_two_pow_self)
      (Nat.pow_le_pow_right (by decide) (by omega))⟩
  -- The height rises until the parent is reached, at the latest at the root.
  induction distance generalizing j q with
  | zero =>
    have first : q = 0 := by
      by_contra later
      have := Nat.le_mul_of_pos_right (2 ^ j) (Nat.pos_of_ne_zero later)
      rw [Nat.add_zero] at bound
      omega
    rw [first] at notTop
    exact absurd (topNode_eq_top (by omega) bound) notTop
  | succ distance ih =>
    by_cases inTree : InTree n ⟨j + 1, q / 2⟩
    · exact ⟨j, q, le_rfl, inside, rfl, inTree, fun outside => absurd inTree outside⟩
    · have even : 2 * (q / 2) = q := by
        by_contra odd
        apply inTree
        rw [inTree_succ, show 2 * (q / 2) + 1 = q by omega]
        exact inside
      have same : topNode n (j + 1) (q / 2) = topNode n j q := by
        rw [topNode_succ_of_not_inTree inTree, even]
      have insideUp : 2 ^ (j + 1) * (q / 2) < n := by
        rwa [pow_succ, mul_assoc, even]
      rcases ih insideUp (same ▸ notTop) (by rwa [show j + 1 + distance = j + (distance + 1) by
        omega]) with ⟨height, place, le, lt, eq, parent, _⟩
      exact ⟨height, place, by omega, lt, eq.trans same, parent, fun _ => by omega⟩

def ids (n j : ℕ) (places : List ℕ) : List ℕ := places.map fun q => (topNode n j q).number

/-- How many of the places of height `j` stand for the entry. -/
def spanning (j : ℕ) (places : List ℕ) (entry : ℕ) : ℕ := places.count (entry / 2 ^ j)

theorem spanning_append (places others : List ℕ) (entry : ℕ) :
    spanning j (places ++ others) entry = spanning j places entry + spanning j others entry :=
  count_append

theorem spanning_cons (places : List ℕ) (entry : ℕ) :
    spanning j (q :: places) entry = spanning j [q] entry + spanning j places entry :=
  spanning_append [q] places entry

theorem spanning_parent (entry : ℕ) :
    spanning (j + 1) [q / 2] entry = spanning j [q] entry + spanning j [otherPlace q] entry := by
  simp only [spanning, count_singleton, beq_iff_eq, otherPlace]
  rw [pow_succ, ← Nat.div_div_eq_div_mul]
  split_ifs <;> omega

/-- The place is beside one of the places of height `j`, under a common parent. -/
def Fetched (n j : ℕ) (places : List ℕ) (place : ℕ) : Prop :=
  ∃ q ∈ places, place = otherPlace q ∧ InTree n ⟨j + 1, q / 2⟩

theorem Fetched.mono {places others : List ℕ} {place : ℕ} (fetched : Fetched n j places place)
    (subset : places ⊆ others) : Fetched n j others place := by
  obtain ⟨q, isPlace, eq, inTree⟩ := fetched
  exact ⟨q, subset isPlace, eq, inTree⟩

section level

variable {places done out : List ℕ}

theorem level_inTree (fits : n ≤ 2 ^ 63) {node : Node} (inTree : InTree n node) :
    level node.number = node.height :=
  level_number (height_lt fits inTree).le

theorem copathLevel_singleton (x first : ℕ) (rest out : List ℕ) {p : ℕ}
    (isParent : (parent x n : Run Failure ℕ) = .ok p) :
    (copathLevel n [x] (first :: rest) out : Run Failure (List ℕ × List ℕ)) =
      if level first < level p then pure (first :: rest ++ [x], out)
      else sibling x n >>= fun other => pure (first :: rest ++ [p], out ++ [other]) := by
  rw [copathLevel, isParent]
  by_cases later : level first < level p
  · simp [later, Bind.bind, Except.bind, Pure.pure, Except.pure]
  · simp [later, Bind.bind, Except.bind, Pure.pure, Except.pure]

theorem copathLevel_last (fits : n ≤ 2 ^ 63) (inside : 2 ^ j * q < n)
    (doneInTree : ∀ place ∈ done, InTree n ⟨j + 1, place⟩) (notEmpty : done ≠ []) :
    ∃ added, (copathLevel n (ids n j [q]) (ids n (j + 1) done) out :
        Run Failure (List ℕ × List ℕ)) =
      .ok (ids n (j + 1) (done ++ [q / 2]), out ++ ids n j added) ∧
      (∀ place ∈ added, Fetched n j [q] place) ∧
      ∀ entry < n, spanning (j + 1) [q / 2] entry =
        spanning j [q] entry + spanning j added entry := by
  rcases done with _ | ⟨first, rest⟩
  · exact absurd rfl notEmpty
  have firstInTree := doneInTree first mem_cons_self
  have firstLevel : level (topNode n (j + 1) first).number = j + 1 := by
    rw [topNode_of_inTree firstInTree, level_inTree fits firstInTree]
  by_cases inTree : InTree n ⟨j + 1, q / 2⟩
  · refine ⟨[otherPlace q], ?_, ?_, fun entry _ => spanning_parent entry⟩
    · have parent := @parent_eq Failure n j q fits inside inTree
      change copathLevel n [(topNode n j q).number]
        ((topNode n (j + 1) first).number :: ids n (j + 1) rest) out = _
      rw [copathLevel_singleton _ _ _ _ parent, firstLevel, level_inTree fits inTree,
        if_neg (Nat.lt_irrefl _), sibling_eq fits inside inTree]
      change Except.ok _ = Except.ok _
      simp only [ids, map_cons, map_nil, map_append, topNode_of_inTree inTree]
    · intro place isOther
      cases mem_singleton.mp isOther
      exact ⟨q, mem_cons_self, rfl, inTree⟩
  · have notTop : topNode n j q ≠ top n := by
      intro isTop
      have small := inTree_succ.mp firstInTree
      have height : (top n).height ≤ j := isTop ▸ topNode_height_le
      have power := Nat.pow_le_pow_right (show 0 < 2 by decide) height
      have := le_two_pow_top n
      have := Nat.le_mul_of_pos_right (2 ^ j) (show 0 < 2 * first + 1 by omega)
      omega
    rcases exists_below_parent inside notTop with ⟨height, place, _, lt, same, above, higher⟩
    have parent := @parent_eq Failure n height place fits lt above
    rw [same] at parent
    have even : 2 * (q / 2) = q := by
      by_contra odd
      apply inTree
      rw [inTree_succ, show 2 * (q / 2) + 1 = q by omega]
      exact inside
    refine ⟨[], ?_, by simp, ?_⟩
    · change copathLevel n [(topNode n j q).number]
        ((topNode n (j + 1) first).number :: ids n (j + 1) rest) out = _
      rw [copathLevel_singleton _ _ _ _ parent, firstLevel, level_inTree fits above,
        if_pos (Nat.succ_lt_succ (higher inTree))]
      change Except.ok _ = Except.ok _
      simp only [ids, map_cons, map_nil, map_append, append_nil,
        topNode_succ_of_not_inTree inTree, even]
    · intro entry lt_end
      rw [inTree_succ, even] at inTree
      have small : entry / 2 ^ j < q + 1 := Nat.div_lt_of_lt_mul (by omega)
      simp only [spanning, count_singleton, count_nil, beq_iff_eq]
      rw [pow_succ, ← Nat.div_div_eq_div_mul]
      split_ifs <;> omega

theorem copathLevel_cons (x y : ℕ) (nodes nextLevel out : List ℕ) {p r : ℕ}
    (isParent : (parent x n : Run Failure ℕ) = .ok p)
    (isRight : (right p n : Run Failure ℕ) = .ok r) :
    (copathLevel n (x :: y :: nodes) nextLevel out : Run Failure (List ℕ × List ℕ)) =
      if r = y then copathLevel n nodes (nextLevel ++ [p]) out
      else sibling x n >>= fun other =>
        copathLevel n (y :: nodes) (nextLevel ++ [p]) (out ++ [other]) := by
  rw [copathLevel, isParent]
  change (right p n >>= _) = _
  rw [isRight]
  rfl

theorem copathLevel_spec (fits : n ≤ 2 ^ 63) (sorted : places.Pairwise (· < ·))
    (inside : ∀ place ∈ places, 2 ^ j * place < n)
    (doneInTree : ∀ place ∈ done, InTree n ⟨j + 1, place⟩)
    (notSingle : done ≠ [] ∨ places.length ≠ 1) :
    ∃ next added, (copathLevel n (ids n j places) (ids n (j + 1) done) out :
        Run Failure (List ℕ × List ℕ)) =
      .ok (ids n (j + 1) (done ++ next), out ++ ids n j added) ∧
      next.Pairwise (· < ·) ∧ (∀ place ∈ next, ∃ below ∈ places, place = below / 2) ∧
      (∀ place ∈ added, Fetched n j places place) ∧
      ∀ entry < n, spanning (j + 1) next entry =
        spanning j places entry + spanning j added entry := by
  induction size : places.length using Nat.strong_induction_on generalizing places done out with
  | _ size ih =>
    rcases places with _ | ⟨q, _ | ⟨second, rest⟩⟩
    · refine ⟨[], [], ?_, .nil, by simp, by simp, fun _ _ => rfl⟩
      simp [ids, copathLevel, Pure.pure, Except.pure]
    · have notEmpty : done ≠ [] := notSingle.resolve_right (fun different => different rfl)
      rcases @copathLevel_last Failure n j q done out fits (inside q mem_cons_self) doneInTree
        notEmpty with ⟨added, ran, fetched, spans⟩
      refine ⟨[q / 2], added, ran, pairwise_singleton _ _, ?_, fetched, spans⟩
      intro place isNext
      exact ⟨q, mem_cons_self, mem_singleton.mp isNext⟩
    · have qInside := inside q mem_cons_self
      have secondInside := inside second (mem_cons_of_mem _ mem_cons_self)
      have before : q < second := rel_of_pairwise_cons sorted mem_cons_self
      have inTree : InTree n ⟨j + 1, q / 2⟩ := by
        rw [inTree_succ]
        exact Nat.lt_of_le_of_lt (Nat.mul_le_mul_left _ (by omega)) secondInside
      have parent := @parent_eq Failure n j q fits qInside inTree
      have right := @right_eq Failure n j (q / 2) fits inTree
      have doneNow : ∀ place ∈ done ++ [q / 2], InTree n ⟨j + 1, place⟩ := by
        intro place isDone
        rcases mem_append.mp isDone with isDone | isNew
        · exact doneInTree place isDone
        · cases mem_singleton.mp isNew
          exact inTree
      have idsNow : ids n (j + 1) done ++ [(⟨j + 1, q / 2⟩ : Node).number] =
          ids n (j + 1) (done ++ [q / 2]) := by
        simp [ids, topNode_of_inTree inTree]
      have notEmpty : done ++ [q / 2] ≠ [] := by simp
      change ∃ next added, copathLevel n ((topNode n j q).number :: (topNode n j second).number ::
        ids n j rest) _ _ = _ ∧ _
      rw [copathLevel_cons _ _ _ _ _ parent right, idsNow]
      by_cases paired : second = 2 * (q / 2) + 1
      · -- The sibling is already here.
        have even : q % 2 = 0 := by omega
        have restSorted := (sorted.tail).tail
        rcases @ih rest.length (by simp only [length_cons] at size; omega) rest
          (done ++ [q / 2]) out restSorted
          (fun place isPlace => inside place (mem_cons_of_mem _ (mem_cons_of_mem _
            isPlace))) doneNow (Or.inl notEmpty) rfl with
          ⟨next, added, ran, nextSorted, below, fetched, spans⟩
        have later : rest ⊆ q :: second :: rest :=
          fun _ isPlace => mem_cons_of_mem _ (mem_cons_of_mem _ isPlace)
        refine ⟨q / 2 :: next, added, ?_, ?_, ?_, fun place isAdded =>
          (fetched place isAdded).mono later, ?_⟩
        · rw [if_pos (by rw [paired]), ran, append_assoc]
          rfl
        · refine pairwise_cons.mpr ⟨?_, nextSorted⟩
          intro place isNext
          rcases below place isNext with ⟨lower, isLower, rfl⟩
          have : second < lower := rel_of_pairwise_cons sorted.tail isLower
          omega
        · intro place isNext
          rcases mem_cons.mp isNext with rfl | isNext
          · exact ⟨q, mem_cons_self, rfl⟩
          · rcases below place isNext with ⟨lower, isLower, eq⟩
            exact ⟨lower, mem_cons_of_mem _ (mem_cons_of_mem _ isLower), eq⟩
        · intro entry lt_end
          have both := @spanning_parent j q entry
          have other : otherPlace q = second := by
            rw [otherPlace, if_pos even]
            omega
          have rest_eq := spans entry lt_end
          rw [other] at both
          rw [spanning_cons next, spanning_cons (second :: rest), spanning_cons rest]
          omega
      · -- The sibling has to be fetched.
        have apart : (topNode n j (2 * (q / 2) + 1)).number ≠ (topNode n j second).number := by
          intro same
          exact paired (topNode_injective secondInside same.symm)
        rcases @ih (second :: rest).length (by simp only [length_cons] at size ⊢; omega)
          (second :: rest) (done ++ [q / 2]) (out ++ ids n j [otherPlace q]) sorted.tail
          (fun place isPlace => inside place (mem_cons_of_mem _ isPlace)) doneNow
          (Or.inl notEmpty) rfl with ⟨next, added, ran, nextSorted, below, fetched, spans⟩
        refine ⟨q / 2 :: next, otherPlace q :: added, ?_, ?_, ?_, ?_, ?_⟩
        · rw [if_neg apart, sibling_eq fits qInside inTree]
          change copathLevel n (ids n j (second :: rest)) _ (out ++ ids n j [otherPlace q]) = _
          rw [ran, append_assoc, append_assoc]
          rfl
        · refine pairwise_cons.mpr ⟨?_, nextSorted⟩
          intro place isNext
          rcases below place isNext with ⟨lower, isLower, rfl⟩
          have : second ≤ lower := by
            rcases mem_cons.mp isLower with rfl | isRest
            · exact le_rfl
            · exact Nat.le_of_lt (rel_of_pairwise_cons sorted.tail isRest)
          omega
        · intro place isNext
          rcases mem_cons.mp isNext with rfl | isNext
          · exact ⟨q, mem_cons_self, rfl⟩
          · rcases below place isNext with ⟨lower, isLower, eq⟩
            exact ⟨lower, mem_cons_of_mem _ isLower, eq⟩
        · intro place isAdded
          rcases mem_cons.mp isAdded with rfl | isAdded
          · exact ⟨q, mem_cons_self, rfl, inTree⟩
          · exact (fetched place isAdded).mono (subset_cons_self _ _)
        · intro entry lt_end
          have both := @spanning_parent j q entry
          have rest_eq := spans entry lt_end
          rw [spanning_cons next, spanning_cons (second :: rest), spanning_cons added]
          omega

end level

/-- How many of the nodes stand for the entry. -/
def spanned (nodes : List Node) (entry : ℕ) : ℕ := nodes.countP fun node => Spans node entry

theorem spanned_append (nodes others : List Node) (entry : ℕ) :
    spanned (nodes ++ others) entry = spanned nodes entry + spanned others entry :=
  countP_append

theorem spanned_topNodes (lt : entry < n) (places : List ℕ) :
    spanned (places.map (topNode n j)) entry = spanning j places entry := by
  induction places with
  | nil => rfl
  | cons q rest ih =>
    have head : spanned [topNode n j q] entry = spanning j [q] entry := by
      have spans := @topNode_spans n j q entry lt
      by_cases same : entry / 2 ^ j = q
      · simp [spanned, spanning, spans.mpr same, same]
      · have apart : ¬Spans (topNode n j q) entry := fun holds => same (spans.mp holds)
        simp [spanned, spanning, apart, Ne.symm same]
    rw [map_cons, spanning_cons, ← ih, ← head]
    exact spanned_append [topNode n j q] (rest.map (topNode n j)) entry

theorem map_number_topNodes (places : List ℕ) :
    (places.map (topNode n j)).map Node.number = ids n j places := by
  simp [ids]

theorem top_spans (lt : entry < n) : Spans (top n) entry := by
  have := le_two_pow_top n
  exact Nat.div_eq_of_lt (by simp only [top] at this ⊢; omega)

/-- What the loop starts a round with. -/
structure IsLevel (n j : ℕ) (places : List ℕ) : Prop where
  notEmpty : places ≠ []
  sorted : places.Pairwise (· < ·)
  inside : ∀ place ∈ places, 2 ^ j * place < n

variable {places leaves : List ℕ}

theorem IsLevel.positive (isLevel : IsLevel n j places) : 0 < n := by
  rcases exists_mem_of_ne_nil places isLevel.notEmpty with ⟨place, isPlace⟩
  have := isLevel.inside place isPlace
  omega

theorem IsLevel.eq_top (isLevel : IsLevel n j places) (high : n ≤ 2 ^ j) :
    ids n j places = [(top n).number] := by
  have zero : ∀ place ∈ places, place = 0 := by
    intro place isPlace
    by_contra later
    have := Nat.le_mul_of_pos_right (2 ^ j) (Nat.pos_of_ne_zero later)
    have := isLevel.inside place isPlace
    omega
  rcases places with _ | ⟨first, _ | ⟨second, rest⟩⟩
  · exact absurd rfl isLevel.notEmpty
  · rw [zero first mem_cons_self, ids, map_singleton,
      topNode_eq_top isLevel.positive high]
  · have := rel_of_pairwise_cons isLevel.sorted mem_cons_self
    have := zero second (mem_cons_of_mem _ mem_cons_self)
    omega

def StandFor (n j : ℕ) (leaves places : List ℕ) : Prop :=
  ∀ place ∈ places, ∃ leaf ∈ leaves, leaf < n ∧ leaf / 2 ^ j = place

def IsSibling (n : ℕ) (leaves : List ℕ) (node : Node) : Prop :=
  ∃ height place, node = topNode n height (otherPlace place) ∧
    InTree n ⟨height + 1, place / 2⟩ ∧ ∃ leaf ∈ leaves, leaf < n ∧ leaf / 2 ^ height = place

theorem IsSibling.inTree (isSibling : IsSibling n leaves node) :
    InTree n node := by
  obtain ⟨height, place, rfl, above, leaf, _, inside, rfl⟩ := isSibling
  exact topNode_inTree (otherPlace_lt (Nat.lt_of_le_of_lt (Nat.mul_div_le leaf _) inside) above)

theorem copathLevel_alone {x p other : ℕ} {out : List ℕ}
    (isParent : (parent x n : Run Failure ℕ) = .ok p)
    (isSibling : (sibling x n : Run Failure ℕ) = .ok other) :
    (copathLevel n [x] [] out : Run Failure (List ℕ × List ℕ)) = .ok ([p], out ++ [other]) := by
  rw [copathLevel, isParent, isSibling]
  rfl

theorem copathLevel_isLevel (fits : n ≤ 2 ^ 63) (isLevel : IsLevel n j places)
    (standFor : StandFor n j leaves places) (notTop : ids n j places ≠ [(top n).number])
    (out : List ℕ) :
    ∃ height next added, j < height ∧ IsLevel n height next ∧ StandFor n height leaves next ∧
      (copathLevel n (ids n j places) [] out : Run Failure (List ℕ × List ℕ)) =
        .ok (ids n height next, out ++ added.map Node.number) ∧
      (∀ node ∈ added, IsSibling n leaves node) ∧
      ∀ entry < n, spanning height next entry = spanning j places entry + spanned added entry := by
  by_cases single : places.length = 1
  · rcases length_eq_one_iff.mp single with ⟨q, rfl⟩
    have inside := isLevel.inside q mem_cons_self
    have apart : topNode n j q ≠ top n := by
      intro isTop
      apply notTop
      rw [ids, map_singleton, isTop]
    rcases exists_below_parent inside apart with ⟨height, place, le, lt, same, above, _⟩
    have parent := @parent_eq Failure n height place fits lt above
    have sibling := @sibling_eq Failure n height place fits lt above
    obtain ⟨leaf, isLeaf, leafInside, atPlace⟩ := standFor q mem_cons_self
    have leafPlace : leaf / 2 ^ height = place := by
      rw [← topNode_spans leafInside, same, topNode_spans leafInside]
      exact atPlace
    refine ⟨height + 1, [place / 2], [topNode n height (otherPlace place)], by omega, ?_, ?_, ?_,
      ?_, ?_⟩
    · refine ⟨by simp, pairwise_singleton _ _, ?_⟩
      intro other isOther
      cases mem_singleton.mp isOther
      rw [inTree_succ] at above
      rw [pow_succ, mul_assoc]
      exact Nat.lt_of_le_of_lt (Nat.mul_le_mul_left _ (by omega)) above
    · intro other isOther
      cases mem_singleton.mp isOther
      refine ⟨leaf, isLeaf, leafInside, ?_⟩
      rw [pow_succ, ← Nat.div_div_eq_div_mul, leafPlace]
    · change copathLevel n [(topNode n j q).number] [] out = _
      rw [← same, copathLevel_alone parent sibling]
      simp [ids, topNode_of_inTree above]
    · intro node isAdded
      cases mem_singleton.mp isAdded
      exact ⟨height, place, rfl, above, leaf, isLeaf, leafInside, leafPlace⟩
    · intro entry lt_end
      have here := @spanned_topNodes n j entry lt_end [q]
      have there := @spanned_topNodes n height entry lt_end [place]
      have other := @spanned_topNodes n height entry lt_end [otherPlace place]
      have both := @spanning_parent height place entry
      simp only [map_cons, map_nil] at here there other
      rw [same] at there
      omega
  · rcases @copathLevel_spec Failure n j places [] out fits isLevel.sorted isLevel.inside (by simp)
      (Or.inr single) with ⟨next, added, ran, sorted, below, fetched, spans⟩
    refine ⟨j + 1, next, added.map (topNode n j), Nat.lt_succ_self j, ⟨?_, sorted, ?_⟩, ?_, ?_, ?_,
      ?_⟩
    · rcases exists_mem_of_ne_nil places isLevel.notEmpty with ⟨q, isPlace⟩
      have eq := spans (2 ^ j * q) (isLevel.inside q isPlace)
      have positive : 0 < spanning j places (2 ^ j * q) := by
        unfold spanning
        rw [Nat.mul_div_cancel_left q (Nat.two_pow_pos j)]
        exact count_pos_iff.mpr isPlace
      intro empty
      rw [empty] at eq
      simp only [spanning, count_nil] at eq positive
      omega
    · intro place isNext
      rcases below place isNext with ⟨lower, isLower, rfl⟩
      rw [pow_succ, mul_assoc]
      exact Nat.lt_of_le_of_lt (Nat.mul_le_mul_left _ (by omega)) (isLevel.inside lower isLower)
    · intro place isNext
      rcases below place isNext with ⟨lower, isLower, rfl⟩
      obtain ⟨leaf, isLeaf, leafInside, atPlace⟩ := standFor lower isLower
      refine ⟨leaf, isLeaf, leafInside, ?_⟩
      rw [pow_succ, ← Nat.div_div_eq_div_mul, atPlace]
    · rw [map_number_topNodes]
      exact ran
    · intro node isAdded
      rcases mem_map.mp isAdded with ⟨place, isPlace, rfl⟩
      obtain ⟨q, isQ, rfl, above⟩ := fetched place isPlace
      exact ⟨j, q, rfl, above, standFor q isQ⟩
    · intro entry lt_end
      rw [spanned_topNodes lt_end]
      exact spans entry lt_end

theorem copathLoop_spec {rounds : ℕ} (fits : n ≤ 2 ^ 63) (isLevel : IsLevel n j places)
    (standFor : StandFor n j leaves places) (enough : 64 ≤ j + rounds) (positive : 0 < rounds)
    (out : List ℕ) :
    ∃ added, (copathLoop n (top n).number rounds (ids n j places) out : Run Failure (List ℕ)) =
        .ok (out ++ added.map Node.number) ∧ (∀ node ∈ added, IsSibling n leaves node) ∧
      ∀ entry < n, spanning j places entry + spanned added entry = 1 := by
  induction rounds generalizing j places out with
  | zero => exact absurd positive (Nat.lt_irrefl 0)
  | succ rounds ih =>
    rw [copathLoop]
    by_cases isTop : ids n j places = [(top n).number]
    · refine ⟨[], ?_, by simp, ?_⟩
      · rw [if_pos isTop]
        simp [Pure.pure, Except.pure]
      · intro entry lt_end
        rw [← spanned_topNodes lt_end]
        have nodes : places.map (topNode n j) = [top n] := by
          rw [← map_number_topNodes] at isTop
          rcases map_eq_singleton_iff.mp isTop with ⟨node, eq, same⟩
          rw [eq, Node.number_injective same]
        rw [nodes]
        simp [spanned, top_spans lt_end]
    · rw [if_neg isTop]
      rcases @copathLevel_isLevel Failure n j places leaves fits isLevel standFor isTop out with
        ⟨height, next, added, higher, nextLevel, nextFor, ran, siblings, spans⟩
      have low : j < 63 := by
        by_contra high
        apply isTop
        apply isLevel.eq_top
        exact Nat.le_trans fits (Nat.pow_le_pow_right (by decide) (by omega))
      rcases ih nextLevel nextFor (by omega) (by omega) (out ++ added.map Node.number) with
        ⟨rest, loop, restSiblings, whole⟩
      refine ⟨added ++ rest, ?_, ?_, ?_⟩
      · rw [ran]
        change copathLoop n (top n).number rounds (ids n height next) _ = _
        rw [loop, map_append, append_assoc]
      · intro node isAdded
        rcases mem_append.mp isAdded with isAdded | isRest
        · exact siblings node isAdded
        · exact restSiblings node isRest
      · intro entry lt_end
        have := spans entry lt_end
        have := whole entry lt_end
        rw [spanned_append]
        omega

theorem number_leaf (q : ℕ) : (⟨0, q⟩ : Node).number = 2 * q := by
  simp [Node.number, Node.first, Node.half]

/-- The copath of sorted entries: siblings of nodes above the entries, that make up the whole log
with the entries. -/
theorem batchCopath_spec (fits : n ≤ 2 ^ 63) (notEmpty : leaves ≠ [])
    (sorted : leaves.Pairwise (· < ·)) (inside : ∀ leaf ∈ leaves, leaf < n) :
    ∃ copath : List Node, (batchCopath leaves n : Run Failure (List ℕ)) =
        .ok (copath.map Node.number) ∧ (∀ node ∈ copath, IsSibling n leaves node) ∧
      (copath.Pairwise fun node other => node.number ≤ other.number) ∧
      ∀ entry < n, leaves.count entry + spanned copath entry = 1 := by
  have isLevel : IsLevel n 0 leaves :=
    ⟨notEmpty, sorted, fun leaf isLeaf => by rw [pow_zero, one_mul]; exact inside leaf isLeaf⟩
  have idsEq : ids n 0 leaves = leaves.map (2 * ·) := by
    apply map_congr_left
    intro leaf _
    exact number_leaf leaf
  have doubled : (leaves.mapM fun x => u64 (2 * x) : Run Failure (List ℕ)) =
      .ok (ids n 0 leaves) := by
    rw [idsEq]
    apply Result.mapM_eq_ok
    intro leaf isLeaf
    have := inside leaf isLeaf
    exact u64_eq (by omega)
  have idsSorted : (ids n 0 leaves).Pairwise (· ≤ ·) := by
    rw [idsEq, pairwise_map]
    exact sorted.imp fun lt => by omega
  have standFor : StandFor n 0 leaves leaves :=
    fun leaf isLeaf => ⟨leaf, isLeaf, inside leaf isLeaf, by rw [pow_zero, Nat.div_one]⟩
  rcases @copathLoop_spec Failure n 0 leaves leaves rounds fits isLevel standFor (by decide)
    (by decide) [] with ⟨added, loop, siblings, whole⟩
  refine ⟨added.insertionSort (fun node other => node.number ≤ other.number), ?_, ?_, ?_, ?_⟩
  · unfold batchCopath
    rw [doubled]
    change (root n >>= _) = _
    rw [root_eq isLevel.positive fits]
    change (copathLoop n (top n).number rounds ((ids n 0 leaves).insertionSort (· ≤ ·)) [] >>=
      _) = _
    rw [idsSorted.insertionSort_eq, loop]
    change Except.ok _ = Except.ok _
    have mapped := map_insertionSort (fun node other : Node => node.number ≤ other.number)
      (· ≤ ·) Node.number added fun _ _ _ _ => Iff.rfl
    rw [nil_append, mapped]
  · intro node isNode
    exact siblings node ((perm_insertionSort _ added).mem_iff.mp isNode)
  · have total : Std.Total fun node other : Node => node.number ≤ other.number :=
      ⟨fun node other => Nat.le_total node.number other.number⟩
    have trans : IsTrans Node fun node other : Node => node.number ≤ other.number :=
      ⟨fun _ _ _ => Nat.le_trans⟩
    exact pairwise_insertionSort _ added
  · intro entry lt_end
    have := whole entry lt_end
    unfold spanned at this ⊢
    rw [(perm_insertionSort _ added).countP_eq]
    simpa [spanning] using this

theorem mapM_u64 (function : ℕ → ℕ) (values : List ℕ) :
    (∃ results, (values.mapM fun x => u64 (function x) : Run Failure (List ℕ)) = .ok results) ∨
      ¬Returns (values.mapM fun x => u64 (function x) : Run Failure (List ℕ)) := by
  by_cases fit : ∀ value ∈ values, function value < 2 ^ 64
  · left
    exact ⟨_, Result.mapM_eq_ok fun value isValue => u64_eq (fit value isValue)⟩
  · right
    induction values with
    | nil => exact absurd (by simp) fit
    | cons value rest ih =>
      rw [mapM_cons, returns_bind]
      rintro ⟨returns, continues⟩
      by_cases small : function value < 2 ^ 64
      · have next := continues _ (u64_eq small)
        rw [returns_bind] at next
        apply ih _ next.1
        intro all
        apply fit
        intro other isOther
        rcases mem_cons.mp isOther with rfl | isRest
        · exact small
        · exact all other isRest
      · exact u64_not_returns (Nat.le_of_not_lt small) returns

theorem batchCopath_not_returns (leaves : List ℕ) (large : 2 ^ 63 < n) :
    ¬Returns (batchCopath leaves n : Run Failure (List ℕ)) := by
  unfold batchCopath
  rw [returns_bind]
  rintro ⟨returns, continues⟩
  rcases @mapM_u64 Failure (2 * ·) leaves with ⟨doubled, eq⟩ | halts
  · have next := continues doubled eq
    rw [returns_bind] at next
    exact root_not_returns large next.1
  · exact halts returns

end LegacySignal.KeyTransparency.LogTree

namespace LegacySignal.KeyTransparency

open Run

variable {C : Crypto} {n : ℕ} {entries : List ℕ} {values proof : List C.Hash}

theorem chain_root_returns (chain : Chain C) : Returns chain.root := by
  unfold Chain.root
  cases chain with
  | nil => trivial
  | cons first rest =>
    dsimp only
    split <;> trivial

theorem isChain_lt_last {last : ℕ} (sorted : entries.IsChain (· < ·))
    (isLast : entries.getLast? = some last) (inside : last < n) :
    entries.Pairwise (· < ·) ∧ ∀ entry ∈ entries, entry < n := by
  have pairwise := List.isChain_iff_pairwise.mp sorted
  refine ⟨pairwise, ?_⟩
  rcases List.getLast?_eq_some_iff.mp isLast with ⟨init, rfl⟩
  intro entry isEntry
  rcases List.mem_append.mp isEntry with isInit | isLast
  · have := (List.pairwise_append.mp pairwise).2.2 entry isInit last (List.mem_singleton_self last)
    omega
  · cases List.mem_singleton.mp isLast
    exact inside

theorem evaluateBatchProof_returns (fits : n ≤ 2 ^ 63) :
    Returns (evaluateBatchProof entries n values proof) := by
  unfold evaluateBatchProof
  refine returns_ensure_bind.mpr fun _ => ?_
  refine returns_ensure_bind.mpr fun sorted => ?_
  refine returns_okOr_bind.mpr fun last isLast => ?_
  refine returns_ensure_bind.mpr fun inside => ?_
  have range := isChain_lt_last sorted isLast inside
  have notEmpty : entries ≠ [] := by
    rintro rfl
    cases isLast
  rcases @LogTree.batchCopath_spec LogError n entries fits notEmpty range.1 range.2 with
    ⟨copath, found, _⟩
  rw [found, returns_bind]
  refine ⟨trivial, fun _ _ => ?_⟩
  exact returns_ensure_bind.mpr fun _ => chain_root_returns _

theorem evaluateBatchProof_not_returns (large : 2 ^ 63 < n)
    (sameLength : entries.length = values.length) (sorted : entries.Pairwise (· < ·))
    (notEmpty : entries ≠ []) (inside : ∀ entry ∈ entries, entry < n) :
    ¬Returns (evaluateBatchProof entries n values proof) := by
  have isChain : entries.IsChain (· < ·) := List.isChain_iff_pairwise.mpr sorted
  have isLast : entries.getLast? = some (entries.getLast notEmpty) :=
    List.getLast?_eq_some_getLast _
  intro returns
  unfold evaluateBatchProof at returns
  have returns := returns_ensure_bind.mp returns sameLength
  have returns := returns_ensure_bind.mp returns isChain
  have returns := returns_okOr_bind.mp returns _ isLast
  have returns := returns_ensure_bind.mp returns (inside _ (List.getLast_mem notEmpty))
  exact LogTree.batchCopath_not_returns entries large (returns_bind.mp returns).1

end LegacySignal.KeyTransparency
