import LegacySignal.KeyTransparency.Subtrees

/-!
# The nodes of a consistency proof

A consistency proof between a log of `m` entries and one of `n` entries has a
node for each full subtree of the first log, unless there is only one, and then
the nodes of the rest of the second log. So the index that runs over the full
subtrees of the first log stays in bounds and finds each of them.
-/

namespace LegacySignal.KeyTransparency.LogTree

open FlatTree Run

variable {Failure : Type} {m n j q : ℕ}

/-- A subtree is full if all the entries below its root are in the log. -/
theorem isFullSubtree_eq (fits : n ≤ 2 ^ 63) {node : Node} (inTree : InTree n node) :
    (isFullSubtree node.number n : Run Failure Bool) =
      .ok (decide (2 ^ node.height * (node.place + 1) ≤ n)) := by
  have low := height_lt fits inTree
  have whole : node.number + 2 ^ node.height + 1 = 2 * (2 ^ node.height * (node.place + 1)) := by
    have := node.number_eq_mul
    have split : 2 ^ node.height * (2 * node.place + 1) + 2 ^ node.height =
        2 * (2 ^ node.height * (node.place + 1)) := by ring
    omega
  have aligned : 2 ^ node.height * (node.place + 1) ≤ 2 ^ 63 := by
    have factor : 2 ^ 63 = 2 ^ node.height * 2 ^ (63 - node.height) := by
      rw [← pow_add]
      congr 1
      omega
    have start : 2 ^ node.height * node.place < 2 ^ node.height * 2 ^ (63 - node.height) := by
      rw [← factor]
      have := node.number_eq_mul
      have split : 2 ^ node.height * (2 * node.place + 1) =
        2 * (2 ^ node.height * node.place) + 2 ^ node.height := by ring
      have := Nat.two_pow_pos node.height
      unfold InTree at inTree
      omega
    rw [factor]
    exact Nat.mul_le_mul_left _ (Nat.lt_of_mul_lt_mul_left start)
  cases n with
  | zero =>
    unfold InTree at inTree
    omega
  | succ n =>
    unfold isFullSubtree
    dsimp only
    rw [u64_eq (by omega), level_inTree fits inTree, Nat.one_shiftLeft]
    change (u64 (node.number + 2 ^ node.height) >>= _) = _
    rw [u64_eq (by omega)]
    change Except.ok _ = Except.ok _
    congr 1
    apply decide_eq_decide.mpr
    omega

/-- The walk down the right edge lists the full subtrees of the log, from left to right. -/
theorem fullSubtrees_spec (fits : n ≤ 2 ^ 63) {rounds : ℕ} (enough : j < rounds)
    (inside : 2 ^ j * q < n) (edge : n ≤ 2 ^ j * (q + 1)) :
    ∃ parts, (fullSubtrees n rounds (topNode n j q).number : Run Failure (List ℕ)) =
        .ok (rootIds parts) ∧ FullParts (2 ^ j * q) n parts := by
  induction j generalizing q rounds with
  | zero =>
    rcases Nat.exists_eq_succ_of_ne_zero (Nat.ne_of_gt enough) with ⟨rest, rfl⟩
    have inTree := topNode_inTree inside
    have isRoot := rootId_node inTree
    rw [start_topNode, stop_topNode, Nat.min_eq_right edge] at isRoot
    rw [pow_zero, one_mul] at inside edge isRoot ⊢
    have isEnd : n = q + 2 ^ 0 := by
      rw [pow_zero]
      omega
    refine ⟨[(q, n)], ?_, ?_⟩
    · rw [fullSubtrees, isFullSubtree_eq fits inTree]
      have full : 2 ^ (topNode n 0 q).height * ((topNode n 0 q).place + 1) ≤ n := by
        simp only [topNode, pow_zero, one_mul]
        omega
      rw [decide_eq_true full, ← isRoot]
      rfl
    · rw [isEnd]
      exact .full q 0
  | succ j ih =>
    by_cases inTree : InTree n ⟨j + 1, q⟩
    · rw [topNode_of_inTree inTree]
      rcases Nat.exists_eq_succ_of_ne_zero (Nat.ne_of_gt (Nat.lt_of_le_of_lt (Nat.zero_le _)
        enough)) with ⟨rest, rfl⟩
      have low := height_lt fits inTree
      have middle := inTree_succ.mp inTree
      have isRoot := rootId_node inTree
      obtain ⟨several, isSplit⟩ := split_node inTree
      have isStop : stop n ⟨j + 1, q⟩ = n := Nat.min_eq_right edge
      rw [isStop] at isRoot several isSplit
      change rootId (2 ^ (j + 1) * q) n = _ at isRoot
      change 2 ^ (j + 1) * q + 1 < n at several
      change split (2 ^ (j + 1) * q) n = _ at isSplit
      by_cases full : 2 ^ (j + 1) * (q + 1) ≤ n
      · have isEnd : n = 2 ^ (j + 1) * q + 2 ^ (j + 1) := by
          rw [mul_add, mul_one] at full edge
          omega
        refine ⟨[(2 ^ (j + 1) * q, n)], ?_, ?_⟩
        · rw [fullSubtrees, isFullSubtree_eq fits inTree, decide_eq_true full, ← isRoot]
          rfl
        · rw [isEnd]
          exact .full _ _
      · have nextEdge : n ≤ 2 ^ j * (2 * q + 1 + 1) := by
          rwa [show 2 ^ j * (2 * q + 1 + 1) = 2 ^ (j + 1) * (q + 1) by ring]
        obtain ⟨parts, ran, isParts⟩ := ih (show j < rest by omega) middle nextEdge
        have leftRoot : rootId (2 ^ (j + 1) * q) (split (2 ^ (j + 1) * q) n) =
            (⟨j + 1, q⟩ : Node).left.number := by
          obtain ⟨leftStart, leftStop, _, _⟩ := split_children inTree
          have leftInside : 2 ^ j * (2 * q) < n := place_lt inside
          have isLeft : topNode n j (2 * q) = (⟨j + 1, q⟩ : Node).left := by
            apply topNode_of_inTree
            unfold InTree
            have := (Node.covers_left (Nat.succ_ne_zero j)).mp
              (⟨j + 1, q⟩ : Node).left.covers_self
            have less := this.2
            unfold InTree at inTree
            exact lt_trans (Nat.succ_lt_succ less) inTree
          have leftRoot := rootId_node (topNode_inTree leftInside)
          rw [leftStart, leftStop, isStop, isLeft] at leftRoot
          exact leftRoot
        refine ⟨(2 ^ (j + 1) * q, split (2 ^ (j + 1) * q) n) :: parts, ?_, ?_⟩
        · rw [fullSubtrees, isFullSubtree_eq fits inTree, decide_eq_false full]
          change (right (⟨j + 1, q⟩ : Node).number n >>= fun next =>
            left (⟨j + 1, q⟩ : Node).number >>= fun first => _) = _
          rw [right_eq fits inTree]
          change (left (⟨j + 1, q⟩ : Node).number >>= fun first => _) = _
          rw [left_eq low.le (Nat.succ_ne_zero j)]
          change (fullSubtrees n rest (topNode n j (2 * q + 1)).number >>= _) = _
          rw [ran, ← leftRoot]
          rfl
        · rw [← isSplit] at isParts
          refine .part several ?_ isParts
          -- The number of leaves lies between two powers of two.
          intro i isEnd
          have above : 2 ^ j < 2 ^ i := by
            have : 2 ^ j * (2 * q + 1) = 2 ^ (j + 1) * q + 2 ^ j := by ring
            omega
          have below : 2 ^ i < 2 ^ (j + 1) := by
            rw [mul_add, mul_one] at full
            omega
          rw [Nat.pow_lt_pow_iff_right (by decide)] at above below
          omega
    · rw [topNode_succ_of_not_inTree inTree]
      rw [inTree_succ] at inTree
      have same : 2 ^ (j + 1) * q = 2 ^ j * (2 * q) := by
        rw [pow_succ]
        ring
      rw [same]
      exact ih (Nat.lt_of_succ_lt enough) (place_lt inside) (Nat.le_of_not_lt inTree)

theorem exists_split (several : 2 ≤ n) :
    ∃ i, (if 1 <<< log2 n = n then 1 <<< log2 n / 2 else 1 <<< log2 n) = 2 ^ i ∧
      2 ^ i < n ∧ n ≤ 2 * 2 ^ i := by
  have lower : 2 ^ log2 n ≤ n := Nat.log2_self_le (by omega)
  have upper := lt_two_pow_log2 n
  rw [Nat.one_shiftLeft]
  by_cases power : 2 ^ log2 n = n
  · have positive : log2 n ≠ 0 := by
      intro zero
      rw [zero] at power
      omega
    rcases Nat.exists_eq_succ_of_ne_zero positive with ⟨i, eq⟩
    rw [eq, Nat.succ_eq_add_one, pow_succ] at power ⊢
    refine ⟨i, ?_, by omega, by omega⟩
    rw [if_pos power]
    omega
  · exact ⟨log2 n, if_neg power, by omega, by omega⟩

theorem top_eq {i : ℕ} (lower : 2 ^ i < n) (upper : n ≤ 2 * 2 ^ i) : top n = ⟨i + 1, 0⟩ := by
  have low := two_pow_top_lt (show 0 < n by omega)
  have high := le_two_pow_top n
  have above : i < (top n).height := by
    apply (Nat.pow_lt_pow_iff_right (a := 2) (by decide)).mp
    omega
  have below : (top n).height < i + 2 := by
    apply (Nat.pow_lt_pow_iff_right (a := 2) (by decide)).mp
    rw [pow_succ, pow_succ]
    omega
  have same : (top n).height = i + 1 := by omega
  unfold top at same ⊢
  rw [← same]

/-- The subtrees whose roots are in a proof, with the full subtrees of the first tree at first,
unless there is only one and it is known. -/
def proofIds (b : Bool) (parts rest : List (ℕ × ℕ)) : List ℕ :=
  (if b = true ∧ parts.length = 1 then [] else rootIds parts) ++ rootIds rest

/-- A proof lists the full subtrees of the first log, then subtrees that cover the rest of the
second. -/
theorem subProof_spec {rounds : ℕ} (fits : n ≤ 2 ^ 63) (enough : n < rounds) (positive : 0 < m)
    (le : m ≤ n) (single : m = n → ∃ i, m = 2 ^ i) (b : Bool) :
    ∃ parts rest, FullParts 0 m parts ∧ Consecutive m n rest ∧
      (∀ part ∈ parts ++ rest, Subtree n part.1 part.2) ∧
      (subProof rounds m n b : Run Failure (List ℕ)) = .ok (proofIds b parts rest) := by
  induction rounds generalizing m n b with
  | zero => exact absurd enough (Nat.not_lt_zero _)
  | succ rounds ih =>
    rw [subProof]
    by_cases same : m = n
    · obtain ⟨i, power⟩ := single same
      subst same
      have fullParts : FullParts 0 m [(0, m)] := by
        have full := FullParts.full 0 i
        rwa [Nat.zero_add, ← power] at full
      have isRoot : rootId 0 m = (top m).number := by
        have isRoot := rootId_node (top_inTree positive)
        rwa [start_top, stop_top] at isRoot
      refine ⟨[(0, m)], [], fullParts, .nil m, ?_, ?_⟩
      · intro part isPart
        cases List.mem_singleton.mp isPart
        exact .whole
      · rw [if_pos rfl]
        cases b with
        | true => rfl
        | false =>
          rw [root_eq positive (by omega), ← isRoot]
          rfl
    · rcases exists_split (show 2 ≤ n by omega) with ⟨i, isSplit, lower, upper⟩
      have isTop := top_eq lower upper
      have topInTree := top_inTree (show 0 < n by omega)
      have low := height_lt fits topInTree
      rw [isTop] at topInTree low
      have halves := split_zero lower upper
      have several : 0 + 1 < n := by omega
      rw [if_neg same]
      dsimp only
      rw [isSplit]
      by_cases first : m ≤ 2 ^ i
      · obtain ⟨parts, rest, fullParts, consecutive, subtrees, ran⟩ :=
          ih (show 2 ^ i ≤ 2 ^ 63 by omega) (by omega) positive first (fun eq => ⟨i, eq⟩) b
        have isRight : rootId (2 ^ i) n = (topNode n i 1).number := by
          have isRoot := rootId_node (@topNode_inTree n i 1 (by omega))
          rwa [start_topNode, stop_topNode, mul_one, Nat.min_eq_right (by omega)] at isRoot
        refine ⟨parts, rest ++ [(2 ^ i, n)], fullParts,
          consecutive.append (.cons lower (.nil n)), ?_, ?_⟩
        · intro part isPart
          rw [← List.append_assoc] at isPart
          rcases List.mem_append.mp isPart with isPart | isLast
          · exact Subtree.of_left (by omega) (halves ▸ subtrees part isPart)
          · cases List.mem_singleton.mp isLast
            exact halves ▸ Subtree.right several .whole
        · rw [if_pos first, ran]
          change (root n >>= fun top => right top n >>= _) = _
          rw [root_eq (by omega) fits, isTop]
          change (right (⟨i + 1, 0⟩ : Node).number n >>= _) = _
          rw [right_eq fits topInTree]
          change Except.ok _ = Except.ok _
          rw [proofIds, proofIds, rootIds_append, ← List.append_assoc, ← isRight]
          rfl
      · have smaller : 0 < n - 2 ^ i := by omega
        obtain ⟨parts, rest, fullParts, consecutive, subtrees, ran⟩ :=
          ih (show n - 2 ^ i ≤ 2 ^ 63 by omega) (by have := Nat.two_pow_pos i; omega)
            (show 0 < m - 2 ^ i by omega) (by omega) (by omega) false
        have isLeft : rootId 0 (2 ^ i) = (⟨i + 1, 0⟩ : Node).left.number := by
          have inTree : InTree n ⟨i, 0⟩ := by
            unfold InTree
            rw [Node.number_eq_mul]
            dsimp only
            omega
          have isRoot := rootId_node inTree
          change rootId (2 ^ i * 0) (min (2 ^ i * (0 + 1)) n) = _ at isRoot
          rwa [Nat.mul_zero, Nat.zero_add, mul_one, Nat.min_eq_left lower.le] at isRoot
        have shifted : ((proofIds false parts rest).mapM fun x => u64 (x + 2 * 2 ^ i) :
            Run Failure (List ℕ)) = .ok ((proofIds false parts rest).map (· + 2 * 2 ^ i)) := by
          apply Result.mapM_eq_ok
          intro x isNode
          have isRoot : x ∈ rootIds (parts ++ rest) := by
            rw [rootIds_append]
            exact isNode
          obtain ⟨part, isPart, rfl⟩ := List.mem_map.mp isRoot
          have := rootId_lt smaller (subtrees part isPart)
          exact u64_eq (by omega)
        have movedParts := fullParts.shift (2 ^ i)
        have movedRest := consecutive.shift (2 ^ i)
        rw [Nat.zero_add, Nat.sub_add_cancel (by omega)] at movedParts
        rw [Nat.sub_add_cancel (by omega), Nat.sub_add_cancel (by omega)] at movedRest
        have partHalves : split 0 m = 2 ^ i := split_zero (by omega) (by omega)
        have whole : FullParts 0 m ((0, 2 ^ i) :: parts.map fun part =>
            (part.1 + 2 ^ i, part.2 + 2 ^ i)) := by
          rw [← partHalves] at movedParts ⊢
          refine .part (by have := Nat.two_pow_pos i; omega) ?_ movedParts
          intro k isEnd
          have above : 2 ^ i < 2 ^ k := by omega
          have below : 2 ^ k < 2 ^ (i + 1) := by
            rw [pow_succ]
            omega
          rw [Nat.pow_lt_pow_iff_right (by decide)] at above below
          omega
        refine ⟨_, _, whole, movedRest, ?_, ?_⟩
        · intro part isPart
          rw [List.cons_append, ← List.map_append] at isPart
          rcases List.mem_cons.mp isPart with rfl | isPart
          · exact halves ▸ Subtree.left several .whole
          · obtain ⟨below, isBelow, rfl⟩ := List.mem_map.mp isPart
            exact Subtree.of_right (by omega) halves (subtrees below isBelow)
        · rw [if_neg first, root_eq (by omega) fits, isTop]
          change (left (⟨i + 1, 0⟩ : Node).number >>= _) = _
          rw [left_eq low.le (Nat.succ_ne_zero i)]
          change (subProof rounds (m - 2 ^ i) (n - 2 ^ i) false >>= _) = _
          rw [ran]
          change ((proofIds false parts rest).mapM (fun x => u64 (x + 2 * 2 ^ i)) >>= _) = _
          rw [shifted]
          change Except.ok _ = Except.ok _
          have moreThanOne : ¬(b = true ∧ ((0, 2 ^ i) :: parts.map fun part =>
              (part.1 + 2 ^ i, part.2 + 2 ^ i)).length = 1) := by
            intro both
            have notEmpty := fullParts.notEmpty
            simp only [List.length_cons, List.length_map, Nat.add_eq_right,
              List.length_eq_zero_iff] at both
            exact notEmpty both.2
          rw [proofIds, proofIds, if_neg moreThanOne, if_neg (by simp), ← isLeft, List.map_append,
            ← rootIds_shift _ fun part isPart => fullParts.consecutive.lt_of_mem isPart,
            ← rootIds_shift _ fun part isPart => consecutive.lt_of_mem isPart]
          rfl

/-- The number of nodes of such a log does not fit 64 bits. -/
theorem consistencyProof_not_returns (large : 2 ^ 63 < n) (small : n < 2 ^ 64) (positive : 0 < m)
    (lt : m < n) : ¬Returns (consistencyProof m n : Run Failure (List ℕ)) := by
  unfold consistencyProof
  rcases exists_split (show 2 ≤ n by omega) with ⟨i, isSplit, lower, upper⟩
  have low : i < 64 := by
    apply (Nat.pow_lt_pow_iff_right (a := 2) (by decide)).mp
    omega
  have power := Nat.pow_le_pow_right (show 0 < 2 by decide) (show i ≤ 63 by omega)
  rw [subProof, if_neg (Nat.ne_of_lt lt)]
  dsimp only
  rw [isSplit]
  by_cases first : m ≤ 2 ^ i
  · obtain ⟨parts, rest, _, _, _, ran⟩ := @subProof_spec Failure m (2 ^ i) n power lower positive
      first (fun eq => ⟨i, eq⟩) true
    rw [if_pos first, ran]
    change ¬Returns (root n >>= fun top => right top n >>= _)
    rw [returns_bind]
    exact fun returns => root_not_returns large returns.1
  · rw [if_neg first, returns_bind]
    exact fun returns => root_not_returns large returns.1

theorem topNode_top_eq (positive : 0 < n) : topNode n (top n).height 0 = top n :=
  topNode_eq_top positive (le_two_pow_top n)

/-- The full subtrees that the verifier looks for are those the proof starts with. -/
theorem consistencyProof_parts (fits : n ≤ 2 ^ 63) (positive : 0 < m) (lt : m < n) :
    ∃ parts rest, (consistencyProof m n : Run Failure (List ℕ)) =
        .ok (proofIds true parts rest) ∧
      (fullSubtrees m rounds (top m).number : Run Failure (List ℕ)) = .ok (rootIds parts) ∧
      FullParts 0 m parts ∧ Consecutive m n rest ∧
      ∀ part ∈ parts ++ rest, Subtree n part.1 part.2 := by
  obtain ⟨parts, rest, fullParts, consecutive, subtrees, ran⟩ :=
    @subProof_spec Failure m n (n + 1) fits (Nat.lt_succ_self n) positive lt.le
      (fun same => absurd same (Nat.ne_of_lt lt)) true
  have mFits : m ≤ 2 ^ 63 := by omega
  have topLow := height_lt mFits (top_inTree positive)
  obtain ⟨path, walked, isPath⟩ := @fullSubtrees_spec Failure m (top m).height 0 mFits rounds
    (Nat.lt_succ_of_lt topLow) (by simpa using positive) (by simpa using le_two_pow_top m)
  rw [topNode_top_eq positive] at walked
  rw [Nat.mul_zero] at isPath
  rw [isPath.unique fullParts] at walked
  exact ⟨parts, rest, ran, walked, fullParts, consecutive, subtrees⟩

end LegacySignal.KeyTransparency.LogTree

namespace LegacySignal.KeyTransparency

open FlatTree Run
open LogTree (consistencyProof_parts)

variable {C : Crypto} {m n : ℕ} {proof : List C.Hash} {mRoot nRoot : C.Hash}

/-- The index into the nodes of the proof stays in bounds. -/
theorem checkPath_returns {path : List ℕ} {nodes : List (Item C)} {chain : Chain C}
    (enough : path.length ≤ nodes.length) :
    Returns (verifyConsistencyProof.checkPath path nodes chain) := by
  induction path generalizing nodes chain with
  | nil => trivial
  | cons elem path ih =>
    rcases nodes with _ | ⟨node, nodes⟩
    · exact absurd enough (by simp)
    · rw [verifyConsistencyProof.checkPath]
      split
      · exact ih (by simpa using enough)
      · trivial

theorem secondRoot_returns (chain : Chain C) (rest : List (Item C)) :
    Returns (verifyConsistencyProof.secondRoot nRoot chain rest) := by
  unfold verifyConsistencyProof.secondRoot
  refine returns_bind.mpr ⟨chain_root_returns _, fun _ _ => ?_⟩
  split <;> trivial

/-- No proof, of whatever length, makes the verifier panic. -/
theorem verifyConsistencyProof_returns (fits : n ≤ 2 ^ 63) :
    Returns (verifyConsistencyProof m n proof mRoot nRoot) := by
  unfold verifyConsistencyProof
  refine returns_ensure_bind.mpr fun range => ?_
  rcases range with ⟨notZero, lt⟩
  have positive := Nat.pos_of_ne_zero notZero
  have mFits : m ≤ 2 ^ 63 := by omega
  obtain ⟨parts, rest, ran, walked, _⟩ := @consistencyProof_parts LogError m n fits positive lt
  rw [ran, returns_bind]
  refine ⟨trivial, fun _ found => ?_⟩
  cases found
  refine returns_ensure_bind.mpr fun sameLength => ?_
  dsimp only
  rw [LogTree.root_eq positive mFits, returns_bind]
  refine ⟨trivial, fun _ found => ?_⟩
  cases found
  rw [walked, returns_bind]
  refine ⟨trivial, fun _ found => ?_⟩
  cases found
  by_cases single : (rootIds parts).length = 1
  · rw [if_pos single]
    exact secondRoot_returns _ _
  · rw [if_neg single, returns_bind]
    constructor
    · apply checkPath_returns
      have several : ¬(true = true ∧ parts.length = 1) := by simpa [rootIds] using single
      rw [List.length_zipWith, sameLength, LogTree.proofIds, if_neg several, List.length_append]
      omega
    · intro chain _
      refine returns_bind.mpr ⟨chain_root_returns chain, fun _ _ => ?_⟩
      split
      · exact secondRoot_returns _ _
      · trivial

theorem verifyConsistencyProof_not_returns (large : 2 ^ 63 < n) (small : n < 2 ^ 64)
    (positive : 0 < m) (lt : m < n) :
    ¬Returns (verifyConsistencyProof m n proof mRoot nRoot) := by
  intro returns
  unfold verifyConsistencyProof at returns
  have returns := returns_ensure_bind.mp returns (⟨Nat.ne_of_gt positive, lt⟩)
  exact LogTree.consistencyProof_not_returns large small positive lt (returns_bind.mp returns).1

end LegacySignal.KeyTransparency
