import LegacySignal.KeyTransparency.Copath

/-!
# Subtrees as intervals of leaves

The log tree is left-balanced: the leaves of a subtree are split after the
greatest power of two below their number. Here a subtree is the interval of its
leaves, and the nodes with which `log.rs` computes are the roots of these
subtrees.
-/

namespace LegacySignal.KeyTransparency

open FlatTree Run

/-- Where the leaves from `a` up to `b` are split. -/
def split (a b : ℕ) : ℕ := a + 2 ^ log2 (b - a - 1)

theorem split_eq {a b i : ℕ} (lower : a + 2 ^ i < b) (upper : b ≤ a + 2 * 2 ^ i) :
    split a b = a + 2 ^ i := by
  have positive := Nat.two_pow_pos i
  unfold split log2
  congr 2
  rw [Nat.log2_eq_iff (by omega)]
  constructor
  · omega
  · rw [pow_succ]
    omega

theorem split_zero {n i : ℕ} (lower : 2 ^ i < n) (upper : n ≤ 2 * 2 ^ i) : split 0 n = 2 ^ i := by
  rw [split_eq (by rwa [Nat.zero_add]) (by rwa [Nat.zero_add]), Nat.zero_add]

variable {a b : ℕ}

theorem split_range (several : a + 1 < b) : a < split a b ∧ split a b < b := by
  have positive := Nat.two_pow_pos (log2 (b - a - 1))
  have power : 2 ^ log2 (b - a - 1) ≤ b - a - 1 := Nat.log2_self_le (by omega)
  unfold split
  omega

theorem split_add (a b k : ℕ) : split (a + k) (b + k) = split a b + k := by
  unfold split
  rw [Nat.add_sub_add_right]
  omega

/-- The subtrees of the tree with `n` leaves. -/
inductive Subtree (n : ℕ) : ℕ → ℕ → Prop where
  | whole : Subtree n 0 n
  | left {a b : ℕ} (several : a + 1 < b) (subtree : Subtree n a b) : Subtree n a (split a b)
  | right {a b : ℕ} (several : a + 1 < b) (subtree : Subtree n a b) : Subtree n (split a b) b

/-- The id of the root of a subtree. A leaf has an even id, and the root of several leaves stands
just before the first leaf on its right. -/
def rootId (a b : ℕ) : ℕ := if a + 1 < b then 2 * split a b - 1 else 2 * a

theorem rootId_add (k : ℕ) (notEmpty : a < b) :
    rootId (a + k) (b + k) = rootId a b + 2 * k := by
  unfold rootId
  by_cases several : a + 1 < b
  · have := split_range several
    rw [if_pos several, if_pos (by omega), split_add]
    omega
  · rw [if_neg several, if_neg (by omega)]
    omega

def rootIds (parts : List (ℕ × ℕ)) : List ℕ := parts.map fun part => rootId part.1 part.2

theorem rootIds_append (parts others : List (ℕ × ℕ)) :
    rootIds (parts ++ others) = rootIds parts ++ rootIds others :=
  List.map_append

theorem rootIds_shift {parts : List (ℕ × ℕ)} (k : ℕ)
    (notEmpty : ∀ part ∈ parts, part.1 < part.2) :
    rootIds (parts.map fun part => (part.1 + k, part.2 + k)) =
      (rootIds parts).map (· + 2 * k) := by
  unfold rootIds
  rw [List.map_map, List.map_map]
  apply List.map_congr_left
  intro part isPart
  exact rootId_add k (notEmpty part isPart)

namespace Subtree

variable {n : ℕ}

theorem range (subtree : Subtree n a b) (positive : 0 < n) : a < b ∧ b ≤ n := by
  induction subtree with
  | whole => exact ⟨positive, le_rfl⟩
  | left several _ ih =>
    have := split_range several
    omega
  | right several _ ih =>
    have := split_range several
    omega

theorem of_left (several : 1 < n) (subtree : Subtree (split 0 n) a b) : Subtree n a b := by
  induction subtree with
  | whole => exact .left several .whole
  | left several _ ih => exact .left several ih
  | right several _ ih => exact .right several ih

theorem of_right (several : 1 < n) {k : ℕ} (isSplit : split 0 n = k)
    (subtree : Subtree (n - k) a b) : Subtree n (a + k) (b + k) := by
  have inside := split_range (show 0 + 1 < n by omega)
  induction subtree with
  | whole =>
    have half := Subtree.right several (.whole (n := n))
    rw [isSplit] at half inside
    rwa [Nat.zero_add, Nat.sub_add_cancel inside.2.le]
  | left several _ ih =>
    rw [← split_add]
    exact .left (by omega) ih
  | right several _ ih =>
    rw [← split_add]
    exact .right (by omega) ih

end Subtree

namespace LogTree

variable {n j q : ℕ} {node other : Node}

def start (node : Node) : ℕ := 2 ^ node.height * node.place

def stop (n : ℕ) (node : Node) : ℕ := min (2 ^ node.height * (node.place + 1)) n

theorem start_topNode : start (topNode n j q) = 2 ^ j * q := by
  induction j generalizing q with
  | zero => rfl
  | succ j ih =>
    by_cases inTree : InTree n ⟨j + 1, q⟩
    · rw [topNode_of_inTree inTree]
      rfl
    · rw [topNode_succ_of_not_inTree inTree, ih, pow_succ, mul_assoc]

theorem stop_topNode : stop n (topNode n j q) = min (2 ^ j * (q + 1)) n := by
  induction j generalizing q with
  | zero => rfl
  | succ j ih =>
    by_cases inTree : InTree n ⟨j + 1, q⟩
    · rw [topNode_of_inTree inTree]
      rfl
    · rw [topNode_succ_of_not_inTree inTree, ih]
      rw [inTree_succ] at inTree
      have whole : 2 ^ (j + 1) * (q + 1) = 2 ^ j * (2 * q + 1) + 2 ^ j := by ring
      have upper : n ≤ 2 ^ (j + 1) * (q + 1) := by
        rw [whole]
        exact (Nat.le_of_not_lt inTree).trans (Nat.le_add_right _ _)
      rw [Nat.min_eq_right (Nat.le_of_not_lt inTree), Nat.min_eq_right upper]

theorem spans_iff {entry : ℕ} (inside : entry < n) :
    Spans node entry ↔ start node ≤ entry ∧ entry < stop n node := by
  unfold Spans start stop
  rw [Nat.div_eq_iff (Nat.two_pow_pos _), mul_comm, mul_add, mul_one]
  have := Nat.two_pow_pos node.height
  omega

theorem start_lt_stop (inTree : InTree n node) : start node < stop n node := by
  have number := node.number_eq_mul
  have whole : 2 ^ node.height * (2 * node.place + 1) =
      2 * (2 ^ node.height * node.place) + 2 ^ node.height := by ring
  have positive := Nat.two_pow_pos node.height
  unfold InTree at inTree
  unfold start stop
  rw [mul_add, mul_one]
  omega

theorem start_spans (inTree : InTree n node) : start node < n ∧ Spans node (start node) := by
  have notEmpty := start_lt_stop inTree
  have inside : start node < n := lt_of_lt_of_le notEmpty (Nat.min_le_right _ _)
  exact ⟨inside, (spans_iff inside).mpr ⟨le_rfl, notEmpty⟩⟩

theorem split_node (inTree : InTree n ⟨j + 1, q⟩) :
    start ⟨j + 1, q⟩ + 1 < stop n ⟨j + 1, q⟩ ∧
      split (start ⟨j + 1, q⟩) (stop n ⟨j + 1, q⟩) = 2 ^ j * (2 * q + 1) := by
  rw [inTree_succ] at inTree
  have positive := Nat.two_pow_pos j
  have first : 2 ^ j * (2 * q + 1) = 2 ^ (j + 1) * q + 2 ^ j := by ring
  have second : 2 ^ (j + 1) * (q + 1) = 2 ^ (j + 1) * q + 2 * 2 ^ j := by ring
  unfold start stop
  dsimp only
  constructor
  · omega
  · rw [first]
    exact split_eq (by omega) (by omega)

theorem rootId_node (inTree : InTree n node) : rootId (start node) (stop n node) = node.number := by
  have number := node.number_eq_mul
  obtain ⟨height, place⟩ := node
  cases height with
  | zero =>
    unfold rootId start stop
    simp only [pow_zero, one_mul] at number ⊢
    rw [if_neg (by omega)]
    omega
  | succ height =>
    obtain ⟨several, isSplit⟩ := split_node inTree
    unfold rootId
    rw [if_pos several, isSplit]
    have : 2 ^ (height + 1) * (2 * place + 1) = 2 * (2 ^ height * (2 * place + 1)) := by ring
    dsimp only at number
    omega

theorem start_top : start (top n) = 0 := Nat.mul_zero _

theorem stop_top : stop n (top n) = n := by
  have := le_two_pow_top n
  unfold stop
  change min (2 ^ (top n).height * (0 + 1)) n = n
  omega

theorem split_children (inTree : InTree n ⟨j + 1, q⟩) :
    start (topNode n j (2 * q)) = start ⟨j + 1, q⟩ ∧
      stop n (topNode n j (2 * q)) = split (start ⟨j + 1, q⟩) (stop n ⟨j + 1, q⟩) ∧
      start (topNode n j (2 * q + 1)) = split (start ⟨j + 1, q⟩) (stop n ⟨j + 1, q⟩) ∧
      stop n (topNode n j (2 * q + 1)) = stop n ⟨j + 1, q⟩ := by
  obtain ⟨_, isSplit⟩ := split_node inTree
  rw [inTree_succ] at inTree
  rw [isSplit, start_topNode, start_topNode, stop_topNode, stop_topNode]
  refine ⟨?_, Nat.min_eq_left inTree.le, rfl, ?_⟩
  · unfold start
    ring
  · unfold stop
    have : 2 ^ j * (2 * q + 1 + 1) = 2 ^ (j + 1) * (q + 1) := by ring
    rw [this]

theorem subtree_node (inTree : InTree n node) : Subtree n (start node) (stop n node) := by
  have positive : 0 < n := by
    unfold InTree at inTree
    omega
  -- The distance to the root grows smaller from a node to its parent.
  induction distance : (top n).height - node.height using Nat.strong_induction_on
    generalizing node with
  | _ distance ih =>
    have isTopNode := topNode_of_inTree inTree
    by_cases isTop : node = top n
    · rw [isTop, start_top, stop_top]
      exact .whole
    have inside : 2 ^ node.height * node.place < n := (start_spans inTree).1
    obtain ⟨height, place, le, _, same, above, _⟩ :=
      exists_below_parent inside (by rwa [isTopNode])
    rw [isTopNode] at same
    have low : height + 1 ≤ (top n).height := by
      by_contra high
      have power := Nat.pow_le_pow_right (show 0 < 2 by decide)
        (show (top n).height ≤ height by omega)
      have large := le_two_pow_top n
      rw [inTree_succ] at above
      have := Nat.le_mul_of_pos_right (2 ^ height) (show 0 < 2 * (place / 2) + 1 by omega)
      omega
    have parent := ih ((top n).height - (height + 1)) (by omega) above rfl
    obtain ⟨several, _⟩ := split_node above
    obtain ⟨startLeft, stopLeft, startRight, stopRight⟩ := split_children above
    rcases Nat.mod_two_eq_zero_or_one place with even | odd
    · rw [show 2 * (place / 2) = place by omega, same] at startLeft stopLeft
      rw [startLeft, stopLeft]
      exact .left several parent
    · rw [show 2 * (place / 2) + 1 = place by omega, same] at startRight stopRight
      rw [startRight, stopRight]
      exact .right several parent

theorem exists_node (positive : 0 < n) (subtree : Subtree n a b) :
    ∃ node, InTree n node ∧ start node = a ∧ stop n node = b := by
  induction subtree with
  | whole => exact ⟨top n, top_inTree positive, start_top, stop_top⟩
  | left several _ ih =>
    obtain ⟨⟨height, place⟩, inTree, rfl, rfl⟩ := ih
    cases height with
    | zero =>
      unfold start stop at several
      simp only [pow_zero, one_mul] at several
      omega
    | succ height =>
      obtain ⟨isStart, isStop, _, _⟩ := split_children inTree
      refine ⟨_, topNode_inTree ?_, isStart, isStop⟩
      exact place_lt (start_spans inTree).1
  | right several _ ih =>
    obtain ⟨⟨height, place⟩, inTree, rfl, rfl⟩ := ih
    cases height with
    | zero =>
      unfold start stop at several
      simp only [pow_zero, one_mul] at several
      omega
    | succ height =>
      obtain ⟨_, _, isStart, isStop⟩ := split_children inTree
      exact ⟨_, topNode_inTree (inTree_succ.mp inTree), isStart, isStop⟩

theorem rootId_lt (positive : 0 < n) (subtree : Subtree n a b) :
    rootId a b + 1 < 2 * n := by
  obtain ⟨node, inTree, rfl, rfl⟩ := exists_node positive subtree
  rw [rootId_node inTree]
  exact inTree

theorem spans_of_spans {entry common : ℕ} (le : node.height ≤ other.height)
    (here : Spans node common) (there : Spans other common) (spans : Spans node entry) :
    Spans other entry := by
  have power : 2 ^ other.height = 2 ^ node.height * 2 ^ (other.height - node.height) := by
    rw [← pow_add]
    congr 1
    omega
  unfold Spans at *
  rw [power, ← Nat.div_div_eq_div_mul] at there ⊢
  rw [spans, ← here]
  exact there

theorem nested {common : ℕ} (inTree : InTree n node) (le : node.height ≤ other.height)
    (here : Spans node common) (there : Spans other common) :
    start other ≤ start node ∧ stop n node ≤ stop n other := by
  obtain ⟨inside, spansStart⟩ := start_spans inTree
  have notEmpty := start_lt_stop inTree
  have stopLe : stop n node ≤ n := Nat.min_le_right _ _
  have lastInside : stop n node - 1 < n := by omega
  have spansLast : Spans node (stop n node - 1) :=
    (spans_iff lastInside).mpr ⟨by omega, by omega⟩
  have first := (spans_iff inside).mp (spans_of_spans le here there spansStart)
  have last := (spans_iff lastInside).mp (spans_of_spans le here there spansLast)
  omega

end LogTree

/-- The parts follow on each other from `a` up to `b`. -/
inductive Consecutive : ℕ → ℕ → List (ℕ × ℕ) → Prop where
  | nil (a : ℕ) : Consecutive a a []
  | cons {a b c : ℕ} {parts : List (ℕ × ℕ)} (notEmpty : a < b) (rest : Consecutive b c parts) :
      Consecutive a c ((a, b) :: parts)

namespace Consecutive

variable {c : ℕ} {parts others : List (ℕ × ℕ)}

theorem le (consecutive : Consecutive a b parts) : a ≤ b := by
  induction consecutive with
  | nil => exact le_rfl
  | cons notEmpty _ ih => omega

theorem append (first : Consecutive a b parts) (second : Consecutive b c others) :
    Consecutive a c (parts ++ others) := by
  induction first with
  | nil => exact second
  | cons notEmpty _ ih => exact .cons notEmpty (ih second)

theorem shift (consecutive : Consecutive a b parts) (k : ℕ) :
    Consecutive (a + k) (b + k) (parts.map fun part => (part.1 + k, part.2 + k)) := by
  induction consecutive with
  | nil => exact .nil _
  | cons notEmpty _ ih => exact .cons (by omega) ih

theorem lt_of_mem (consecutive : Consecutive a b parts) {part : ℕ × ℕ} (isPart : part ∈ parts) :
    part.1 < part.2 := by
  induction consecutive with
  | nil => cases isPart
  | cons notEmpty _ ih =>
    rcases List.mem_cons.mp isPart with rfl | isPart
    · exact notEmpty
    · exact ih isPart

theorem exists_mem (consecutive : Consecutive a b parts) {leaf : ℕ} (le : a ≤ leaf)
    (lt : leaf < b) : ∃ part ∈ parts, part.1 ≤ leaf ∧ leaf < part.2 := by
  induction consecutive with
  | nil => omega
  | @cons a b c parts notEmpty rest ih =>
    by_cases here : leaf < b
    · exact ⟨(a, b), List.mem_cons_self, le, here⟩
    · obtain ⟨part, isPart, within⟩ := ih (by omega) lt
      exact ⟨part, .tail _ isPart, within⟩

end Consecutive

/-- The full subtrees that the leaves from `a` up to `b` consist of. -/
inductive FullParts : ℕ → ℕ → List (ℕ × ℕ) → Prop where
  | full (a i : ℕ) : FullParts a (a + 2 ^ i) [(a, a + 2 ^ i)]
  | part {a b : ℕ} {parts : List (ℕ × ℕ)} (several : a + 1 < b) (notFull : ∀ i, b ≠ a + 2 ^ i)
      (rest : FullParts (split a b) b parts) : FullParts a b ((a, split a b) :: parts)

namespace FullParts

variable {parts others : List (ℕ × ℕ)}

theorem notEmpty (fullParts : FullParts a b parts) : parts ≠ [] := by
  cases fullParts <;> simp

theorem unique (first : FullParts a b parts) (second : FullParts a b others) : parts = others := by
  induction first generalizing others with
  | full a i =>
    generalize isEnd : a + 2 ^ i = b at second
    cases second with
    | full => rfl
    | part _ notFull _ => exact absurd isEnd.symm (notFull i)
  | part several notFull _ ih =>
    cases second with
    | full a i => exact absurd rfl (notFull i)
    | part _ _ rest => rw [ih rest]

theorem consecutive (fullParts : FullParts a b parts) : Consecutive a b parts := by
  induction fullParts with
  | full a i => exact .cons (Nat.lt_add_of_pos_right (Nat.two_pow_pos i)) (.nil _)
  | part several _ _ ih => exact .cons (split_range several).1 ih

theorem shift (fullParts : FullParts a b parts) (k : ℕ) :
    FullParts (a + k) (b + k) (parts.map fun part => (part.1 + k, part.2 + k)) := by
  induction fullParts with
  | full a i =>
    have moved : a + 2 ^ i + k = a + k + 2 ^ i := by omega
    rw [List.map_singleton, moved]
    exact .full _ _
  | @part a b parts several notFull rest ih =>
    rw [← split_add] at ih
    rw [List.map_cons, ← split_add]
    refine .part (by omega) (fun i same => notFull i (by omega)) ih

theorem subtree {n : ℕ} (fullParts : FullParts a n parts) (subtree : Subtree n a n) :
    ∀ part ∈ parts, Subtree n part.1 part.2 := by
  generalize isEnd : n = b at fullParts
  induction fullParts with
  | full a i =>
    subst isEnd
    intro part isPart
    cases List.mem_singleton.mp isPart
    exact subtree
  | part several _ _ ih =>
    subst isEnd
    intro part isPart
    rcases List.mem_cons.mp isPart with rfl | isPart
    · exact .left several subtree
    · exact ih (.right several subtree) rfl part isPart

theorem eq_singleton (fullParts : FullParts a b parts) (single : parts.length = 1) :
    parts = [(a, b)] := by
  cases fullParts with
  | full => rfl
  | part _ _ rest =>
    have := rest.notEmpty
    simp only [List.length_cons, Nat.add_eq_right, List.length_eq_zero_iff] at single
    exact absurd single this

end FullParts

end LegacySignal.KeyTransparency
