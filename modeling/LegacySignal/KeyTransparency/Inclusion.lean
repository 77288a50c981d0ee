import LegacySignal.KeyTransparency.Binding

/-!
# Batch inclusion proofs

The root of a list of leaves is the hash of the left-balanced tree over them. A
batch inclusion proof with the hashes of the copath leads to this root, and
where intermediate hashes do not collide nothing but the leaves of the list
does.
-/

namespace LegacySignal.KeyTransparency

open FlatTree Run LogTree List
open Result (bind_eq_ok)

variable {C : Crypto} {leaves : List C.Hash}

/-- The root node of the left-balanced tree over the leaves. -/
def listRoot (leaves : List C.Hash) : Option (NodeData C) :=
  match leaves with
  | [] => none
  | [leaf] => some ⟨false, leaf⟩
  | first :: second :: rest =>
    let leaves := first :: second :: rest
    let middle := split 0 leaves.length
    do
      let left ← listRoot (leaves.take middle)
      let right ← listRoot (leaves.drop middle)
      some (treeHash left right)
termination_by leaves.length
decreasing_by
  · have := split_range (show 0 + 1 < (first :: second :: rest).length by simp)
    rw [length_take]
    omega
  · have := split_range (show 0 + 1 < (first :: second :: rest).length by simp)
    rw [length_drop]
    omega

def rootHash (leaves : List C.Hash) : Option C.Hash := (listRoot leaves).map NodeData.value

/-- The hash of the node with a number in the log of the leaves. -/
def nodeHash (leaves : List C.Hash) (id : ℕ) : Option C.Hash :=
  let place := id / 2 ^ (level id + 1)
  rootHash (leaves.extract (2 ^ level id * place) (2 ^ level id * (place + 1)))

theorem listRoot_split (several : 1 < leaves.length) :
    listRoot leaves = (listRoot (leaves.take (split 0 leaves.length))).bind fun left =>
      (listRoot (leaves.drop (split 0 leaves.length))).map (treeHash left) := by
  rcases leaves with _ | ⟨first, _ | ⟨second, rest⟩⟩
  · simp at several
  · simp at several
  · rw [listRoot]
    simp only [Option.bind_eq_bind, Option.map_eq_bind]
    rfl

/-- Every log with a leaf has a root, and only that of a single leaf is not interior. -/
theorem exists_listRoot (notEmpty : leaves ≠ []) :
    ∃ node, listRoot leaves = some node ∧ node.interior = decide (leaves.length ≠ 1) := by
  induction size : leaves.length using Nat.strong_induction_on generalizing leaves with
  | _ count ih =>
    by_cases several : 1 < leaves.length
    · have range := split_range (show 0 + 1 < leaves.length from several)
      obtain ⟨left, isLeft, _⟩ := ih _ (by rw [← size, length_take]; omega)
        (show leaves.take (split 0 leaves.length) ≠ [] by
          rw [ne_eq, ← length_eq_zero_iff, length_take]; omega) rfl
      obtain ⟨right, isRight, _⟩ := ih _ (by rw [← size, length_drop]; omega)
        (show leaves.drop (split 0 leaves.length) ≠ [] by
          rw [ne_eq, ← length_eq_zero_iff, length_drop]; omega) rfl
      refine ⟨treeHash left right, ?_, ?_⟩
      · rw [listRoot_split several, isLeft, isRight]
        rfl
      · have : count ≠ 1 := by omega
        simp [treeHash, this]
    · have positive := length_pos_of_ne_nil notEmpty
      obtain ⟨leaf, rfl⟩ := length_eq_one_iff.mp (show leaves.length = 1 by omega)
      refine ⟨⟨false, leaf⟩, by rw [listRoot], ?_⟩
      subst size
      rfl

theorem listRoot_of_rootHash {root : C.Hash} (isRoot : rootHash leaves = some root) :
    listRoot leaves = some ⟨decide (leaves.length ≠ 1), root⟩ := by
  have notEmpty : leaves ≠ [] := by
    rintro rfl
    rw [rootHash, listRoot] at isRoot
    cases isRoot
  obtain ⟨top, isTop, interior⟩ := exists_listRoot notEmpty
  rw [rootHash, isTop] at isRoot
  rw [isTop, ← interior, ← Option.some.inj isRoot]

section intervals

variable {n a b : ℕ} {node : Node}

theorem length_extract (upTo : b ≤ leaves.length) : (leaves.extract a b).length = b - a := by
  rw [extract_eq_take_drop, length_take, length_drop]
  omega

theorem extract_whole : leaves.extract 0 leaves.length = leaves := by
  rw [extract_eq_take_drop, drop_zero, Nat.sub_zero, take_length]

theorem extract_min (a b : ℕ) : leaves.extract a (min b leaves.length) = leaves.extract a b := by
  rw [extract_eq_take_drop, extract_eq_take_drop, take_eq_take_iff,
    length_drop]
  omega

theorem exists_listRoot_extract (notEmpty : a < b) (upTo : b ≤ leaves.length) :
    ∃ node, listRoot (leaves.extract a b) = some node ∧ node.interior = decide (b ≠ a + 1) := by
  have length := length_extract (a := a) upTo
  have isSome : leaves.extract a b ≠ [] := by
    rw [ne_eq, ← length_eq_zero_iff, length]
    omega
  obtain ⟨node, isRoot, interior⟩ := exists_listRoot isSome
  refine ⟨node, isRoot, ?_⟩
  rw [interior, length]
  apply decide_eq_decide.mpr
  omega

/-- The root of an interval is the hash of the roots of its halves. -/
theorem listRoot_extract (several : a + 1 < b) (upTo : b ≤ leaves.length) :
    listRoot (leaves.extract a b) = (listRoot (leaves.extract a (split a b))).bind fun left =>
      (listRoot (leaves.extract (split a b) b)).map (treeHash left) := by
  have length := length_extract (a := a) upTo
  have range := split_range several
  have moved : split 0 (b - a) + a = split a b := by
    rw [← split_add, Nat.zero_add, Nat.sub_add_cancel (by omega)]
  have isLeft : (leaves.extract a b).take (split 0 (b - a)) = leaves.extract a (split a b) := by
    rw [extract_eq_take_drop, extract_eq_take_drop, take_take]
    congr 1
    omega
  have isRight : (leaves.extract a b).drop (split 0 (b - a)) = leaves.extract (split a b) b := by
    rw [extract_eq_take_drop, extract_eq_take_drop, drop_take, drop_drop,
      Nat.add_comm a, moved]
    congr 1
    omega
  rw [listRoot_split (by omega), length, isLeft, isRight]

theorem listRoot_extract_leaf (inside : a < leaves.length) :
    listRoot (leaves.extract a (a + 1)) = some ⟨false, leaves[a]⟩ := by
  rw [extract_eq_take_drop, drop_eq_getElem_cons inside, Nat.add_sub_cancel_left,
    take_succ_cons, take_zero, listRoot]

/-- The node is the root of the leaves in the interval. -/
def RootOf (leaves : List C.Hash) (a b : ℕ) (node : NodeData C) : Prop :=
  b ≤ leaves.length → listRoot (leaves.extract a b) = some node

theorem combines_rootOf (leaves : List C.Hash) : Combines (RootOf leaves) := by
  intro a b left right several isLeft isRight upTo
  have := split_range several
  rw [listRoot_extract several upTo, isLeft (by omega), isRight upTo]
  rfl

/-- The root of a subtree stands below the root of the log. -/
theorem Subtree.within (subtree : Subtree leaves.length a b) {top node : NodeData C}
    (isTop : listRoot leaves = some top) (isNode : listRoot (leaves.extract a b) = some node) :
    Within 0 leaves.length top a b node := by
  have positive : 0 < leaves.length := by
    cases leaves with
    | nil =>
      rw [listRoot] at isTop
      cases isTop
    | cons => exact Nat.succ_pos _
  induction subtree generalizing node with
  | whole =>
    rw [extract_whole, isTop] at isNode
    cases isNode
    exact .here _ _ _
  | @left a b several subtree ih =>
    have upTo := (subtree.range positive).2
    have range := split_range several
    obtain ⟨right, isRight, _⟩ := exists_listRoot_extract range.2 upTo
    have isParent : listRoot (leaves.extract a b) = some (treeHash node right) := by
      rw [listRoot_extract several upTo, isNode, isRight]
      rfl
    exact (ih isParent).trans (.left right several (.here _ _ _))
  | @right a b several subtree ih =>
    have upTo := (subtree.range positive).2
    have range := split_range several
    obtain ⟨left, isLeft, _⟩ := exists_listRoot_extract range.1 (show _ ≤ leaves.length by omega)
    have isParent : listRoot (leaves.extract a b) = some (treeHash left node) := by
      rw [listRoot_extract several upTo, isLeft, isNode]
      rfl
    exact (ih isParent).trans (.right left several (.here _ _ _))

theorem subtree_leaf (inside : a < n) : Subtree n a (a + 1) := by
  have subtree := subtree_node (inTree_zero.mpr inside)
  unfold start stop at subtree
  simp only [pow_zero, one_mul] at subtree
  rwa [Nat.min_eq_left (by omega)] at subtree

theorem leaf_within {top : NodeData C} (isTop : listRoot leaves = some top)
    (inside : a < leaves.length) :
    Within 0 leaves.length top a (a + 1) ⟨false, leaves[a]⟩ :=
  (subtree_leaf inside).within isTop (listRoot_extract_leaf inside)

/-- Logs of one length with the same root have the same leaves. -/
theorem eq_of_listRoot (injective : TreeHashInjective C) {others : List C.Hash}
    {node : NodeData C} (sameLength : leaves.length = others.length)
    (isRoot : listRoot leaves = some node) (isOtherRoot : listRoot others = some node) :
    leaves = others := by
  apply ext_getElem sameLength
  intro index bound otherBound
  have here := leaf_within isRoot bound
  have there := leaf_within isOtherRoot otherBound
  rw [← sameLength] at there
  exact congrArg NodeData.value (here.unique injective there (by omega))

/-- Subtrees that tile the log combine to its root. -/
theorem Tiling.rootHash_eq {items : List (Item C)} (tiling : Tiling leaves.length 0 items)
    (areRoots : ∀ item ∈ items,
      listRoot (leaves.extract item.start (min item.stop leaves.length)) = some item.node) :
    ∃ root, rootHash leaves = some root ∧ (insertAll [] items).root = .ok root := by
  have represents : Represents (RootOf leaves) 0 0 ([] : Chain C) := rfl
  obtain ⟨node, calculated, isRoot⟩ := tiling.root (combines_rootOf leaves) represents
    fun item isItem _ => areRoots item isItem
  have isRoot := isRoot le_rfl
  rw [extract_whole] at isRoot
  refine ⟨node.value, ?_, calculated⟩
  rw [rootHash, isRoot]
  rfl

/-- The item of a node carries the root of its leaves. -/
theorem listRoot_ofNode {hash : C.Hash} (fits : leaves.length ≤ 2 ^ 63)
    (inTree : InTree leaves.length node)
    (isHash : nodeHash leaves node.number = some hash) :
    listRoot (leaves.extract (Item.ofNode node.number hash).start
      (min (Item.ofNode node.number hash).stop leaves.length)) =
        some (Item.ofNode node.number hash).node := by
  have isFor := ofNode_for fits inTree hash
  obtain ⟨root, isRoot, interior⟩ := exists_listRoot_extract
    (lt_min isFor.start_lt_stop isFor.start_lt) (Nat.min_le_right _ leaves.length)
  rw [← isFor.interior_eq] at interior
  have value : root.value = hash := by
    rw [extract_min] at isRoot
    have isHash : (listRoot (leaves.extract (Item.ofNode node.number hash).start
      (Item.ofNode node.number hash).stop)).map NodeData.value = some hash := isHash
    rw [isRoot] at isHash
    exact Option.some.inj isHash
  rw [isRoot, Item.node, ← interior, Item.ofNode, ← value]

theorem exists_nodeHash (fits : leaves.length ≤ 2 ^ 63)
    (inTree : InTree leaves.length node) :
    ∃ hash, nodeHash leaves node.number = some hash := by
  obtain ⟨any⟩ : Nonempty C.Hash := by
    cases leaves with
    | nil =>
      unfold InTree at inTree
      simp at inTree
    | cons first rest => exact ⟨first⟩
  have isFor := ofNode_for fits inTree any
  obtain ⟨root, isRoot, _⟩ := exists_listRoot_extract
    (lt_min isFor.start_lt_stop isFor.start_lt) (Nat.min_le_right _ leaves.length)
  rw [extract_min] at isRoot
  refine ⟨root.value, ?_⟩
  change (listRoot (leaves.extract (Item.ofNode node.number any).start
    (Item.ofNode node.number any).stop)).map NodeData.value = _
  rw [isRoot]
  rfl

end intervals

/-- A subtree that contains none of the positions, and is part of no other such subtree. -/
structure MaximalWithout (n : ℕ) (positions : List ℕ) (a b : ℕ) : Prop where
  subtree : Subtree n a b
  without : ∀ position ∈ positions, ¬(a ≤ position ∧ position < b)
  maximal : ∀ c d, Subtree n c d → c ≤ a → b ≤ d → c < a ∨ b < d →
    ∃ position ∈ positions, c ≤ position ∧ position < d

section copath

variable {n : ℕ} {positions : List ℕ} {copath : List Node} {node : Node}

/-- A subtree that is larger than the sibling of a path contains a position. -/
theorem IsSibling.maximal (isSibling : IsSibling n positions node) {c d : ℕ}
    (subtree : Subtree n c d) (le : c ≤ start node) (upTo : stop n node ≤ d)
    (larger : c < start node ∨ stop n node < d) :
    ∃ position ∈ positions, c ≤ position ∧ position < d := by
  have inTree := isSibling.inTree
  obtain ⟨inside, spansStart⟩ := start_spans inTree
  have notEmpty := start_lt_stop inTree
  obtain ⟨other, otherInTree, rfl, rfl⟩ := exists_node (by omega) subtree
  have otherSpans : Spans other (start node) :=
    (spans_iff inside).mpr ⟨le, by omega⟩
  obtain ⟨height, place, rfl, above, leaf, isLeaf, leafInside, atPlace⟩ := isSibling
  have startPlace := (topNode_spans inside).mp spansStart
  have sameParent : otherPlace place / 2 = place / 2 := by
    unfold otherPlace
    split <;> omega
  have parentSpans : ∀ entry, entry / 2 ^ height / 2 = place / 2 →
      Spans ⟨height + 1, place / 2⟩ entry := by
    intro entry isBelow
    unfold Spans
    rw [pow_succ, ← Nat.div_div_eq_div_mul]
    exact isBelow
  by_cases higher : height + 1 ≤ other.height
  · -- The other node is no lower than the parent, under which the position is.
    have spansLeaf := spans_of_spans higher
      (parentSpans _ (by rw [startPlace, sameParent])) otherSpans
      (parentSpans leaf (by rw [atPlace]))
    exact ⟨leaf, isLeaf, (spans_iff leafInside).mp spansLeaf⟩
  · -- Otherwise it is below the sibling itself.
    have range : start ⟨height, otherPlace place⟩ ≤ start other ∧
        stop n other ≤ stop n ⟨height, otherPlace place⟩ :=
      nested otherInTree (show other.height ≤ height by omega) otherSpans startPlace
    change 2 ^ height * otherPlace place ≤ _ ∧
      _ ≤ min (2 ^ height * (otherPlace place + 1)) n at range
    rw [← @start_topNode n height, ← stop_topNode] at range
    omega

theorem not_spans_of_once (isNode : node ∈ copath) {position : ℕ}
    (isPosition : position ∈ positions)
    (once : positions.count position + spanned copath position = 1) :
    ¬Spans node position := by
  intro spans
  have counted := count_pos_iff.mpr isPosition
  have : 0 < spanned copath position :=
    countP_pos_iff.mpr ⟨node, isNode, decide_eq_true spans⟩
  omega

/-- The copath is the roots of the maximal subtrees without a position. -/
theorem copath_iff_maximal (positive : 0 < n) (inside : ∀ position ∈ positions, position < n)
    (siblings : ∀ node ∈ copath, IsSibling n positions node)
    (once : ∀ entry < n, positions.count entry + spanned copath entry = 1) (id : ℕ) :
    id ∈ copath.map Node.number ↔ ∃ a b, MaximalWithout n positions a b ∧ rootId a b = id := by
  have isMaximal : ∀ node ∈ copath,
      MaximalWithout n positions (start node) (stop n node) := by
    intro node isNode
    refine ⟨subtree_node (siblings node isNode).inTree, ?_,
      fun c d => IsSibling.maximal (siblings node isNode)⟩
    intro position isPosition range
    have positionInside := inside position isPosition
    exact not_spans_of_once isNode isPosition (once position positionInside)
      ((spans_iff positionInside).mpr range)
  constructor
  · intro isId
    obtain ⟨node, isNode, rfl⟩ := mem_map.mp isId
    exact ⟨_, _, isMaximal node isNode, rootId_node (siblings node isNode).inTree⟩
  · rintro ⟨a, b, maximal, rfl⟩
    obtain ⟨other, otherInTree, rfl, rfl⟩ := exists_node positive maximal.subtree
    obtain ⟨startInside, spansStart⟩ := start_spans otherInTree
    have notEmpty := start_lt_stop otherInTree
    -- The first leaf of the subtree is no position, so a node of the copath has it.
    have absent : positions.count (start other) = 0 := by
      apply count_eq_zero.mpr
      intro isPosition
      exact maximal.without _ isPosition ⟨le_rfl, notEmpty⟩
    have spanned := once _ startInside
    rw [absent, Nat.zero_add] at spanned
    obtain ⟨node, isNode, spans⟩ := countP_pos_iff.mp
      (show 0 < LogTree.spanned copath (LogTree.start other) by omega)
    have spans := of_decide_eq_true spans
    have nodeInTree := (siblings node isNode).inTree
    have nodeMaximal := isMaximal node isNode
    have same : start node = start other ∧
        stop n node = stop n other := by
      rcases Nat.le_total node.height other.height with lower | higher
      · have range := nested nodeInTree lower spans spansStart
        by_contra different
        obtain ⟨position, isPosition, contained⟩ := nodeMaximal.maximal _ _ maximal.subtree
          range.1 range.2 (by omega)
        exact maximal.without position isPosition contained
      · have range := nested otherInTree higher spansStart spans
        by_contra different
        obtain ⟨position, isPosition, contained⟩ := maximal.maximal _ _ nodeMaximal.subtree
          range.1 range.2 (by omega)
        exact nodeMaximal.without position isPosition contained
    refine mem_map.mpr ⟨node, isNode, ?_⟩
    rw [← rootId_node nodeInTree, same.1, same.2]

theorem copath_nodup (siblings : ∀ node ∈ copath, IsSibling n positions node)
    (once : ∀ entry < n, positions.count entry + spanned copath entry = 1) :
    copath.Nodup := by
  rw [nodup_iff_count_le_one]
  intro node
  by_cases isNode : node ∈ copath
  · obtain ⟨inside, spans⟩ := start_spans (siblings node isNode).inTree
    have counted : copath.count node ≤ spanned copath (start node) := by
      apply countP_mono_left
      intro other _ same
      rw [eq_of_beq same]
      exact decide_eq_true spans
    have := once _ inside
    omega
  · rw [count_eq_zero.mpr isNode]
    exact Nat.zero_le 1

end copath

variable {Value Result : Type} {function : Value → Option Result} {items : List Value}

theorem exists_map_some (areSome : ∀ item ∈ items, ∃ result, function item = some result) :
    ∃ results : List Result, items.map function = results.map some := by
  induction items with
  | nil => exact ⟨[], rfl⟩
  | cons item items ih =>
    obtain ⟨result, isResult⟩ := areSome item mem_cons_self
    obtain ⟨results, areResults⟩ := ih fun other isOther => areSome other (.tail _ isOther)
    exact ⟨result :: results, by rw [map_cons, isResult, areResults, map_cons]⟩

theorem eq_some_of_mem_zip {results : List Result}
    (areResults : items.map function = results.map some) {pair : Value × Result}
    (isPair : pair ∈ items.zip results) : function pair.1 = some pair.2 := by
  obtain ⟨index, bound, rfl⟩ := getElem_of_mem isPair
  rw [length_zip] at bound
  have here := congrArg (fun list => list[index]?) areResults
  simp only [getElem?_map] at here
  rw [getElem?_eq_getElem (by omega), getElem?_eq_getElem (by omega)] at here
  rw [getElem_zip]
  exact Option.some.inj here

section batch

variable {n : ℕ} {entries values proof : List C.Hash} {positions : List ℕ} {nodes : List Node}

theorem listRoot_ofEntry {position : ℕ} {leaf : C.Hash} (isLeaf : leaves[position]? = some leaf) :
    listRoot (leaves.extract (Item.ofEntry position leaf).start
      (min (Item.ofEntry position leaf).stop leaves.length)) =
        some (Item.ofEntry position leaf).node := by
  obtain ⟨inside, rfl⟩ := List.getElem?_eq_some_iff.mp isLeaf
  have isFor := ofEntry_for inside leaves[position]
  rw [extract_min, isFor.start_eq, isFor.stop_eq, pow_zero, one_mul]
  exact listRoot_extract_leaf inside

/-- A proof from the hashes of the copath leads to the root of the log. -/
theorem evaluateBatchProof_complete (fits : leaves.length ≤ 2 ^ 63) (notEmpty : positions ≠ [])
    (increasing : positions.Pairwise (· < ·)) (inside : ∀ x ∈ positions, x < leaves.length)
    (isCopath : (batchCopath positions leaves.length : Run LogError (List ℕ)) =
      .ok (nodes.map Node.number))
    (inTree : ∀ node ∈ nodes, InTree leaves.length node)
    (nodesSorted : nodes.Pairwise fun node other => node.number ≤ other.number)
    (once : ∀ entry < leaves.length, positions.count entry + spanned nodes entry = 1)
    (areEntries : positions.map (leaves[·]?) = entries.map some)
    (areHashes : (nodes.map Node.number).map (nodeHash leaves) = proof.map some) :
    ∃ root, rootHash leaves = some root ∧
      evaluateBatchProof positions leaves.length entries proof = .ok root := by
  have sameLength : positions.length = entries.length := by
    simpa using congrArg length areEntries
  have proofLength : nodes.length = proof.length := by
    simpa using congrArg length areHashes
  have tiles := batch_tiles fits sameLength increasing inside proofLength inTree nodesSorted once
  have positive : 0 < leaves.length := by
    obtain ⟨position, isPosition⟩ := exists_mem_of_ne_nil positions notEmpty
    have := inside position isPosition
    omega
  obtain ⟨root, isRoot, calculated⟩ := (tiles.tiling positive).rootHash_eq (by
    intro item isItem
    rcases mem_merge.mp isItem with isEntry | isNode
    · obtain ⟨pair, isPair, rfl⟩ := mem_zipWith.mp isEntry
      exact listRoot_ofEntry (eq_some_of_mem_zip areEntries isPair)
    · obtain ⟨pair, isPair, rfl⟩ := mem_zipWith.mp isNode
      have isHash := eq_some_of_mem_zip areHashes isPair
      obtain ⟨node, isNode, same⟩ := mem_map.mp (of_mem_zip isPair).1
      rw [← same] at isHash ⊢
      exact listRoot_ofNode fits (inTree node isNode) isHash)
  refine ⟨root, isRoot, ?_⟩
  refine bind_eq_ok.mpr ⟨(), ensure_eq_ok.mpr sameLength, ?_⟩
  refine bind_eq_ok.mpr ⟨(), ensure_eq_ok.mpr (isChain_iff_pairwise.mpr increasing), ?_⟩
  refine bind_eq_ok.mpr ⟨_, okOr_eq_ok.mpr (getLast?_eq_some_getLast notEmpty), ?_⟩
  refine bind_eq_ok.mpr ⟨(), ensure_eq_ok.mpr (inside _ (getLast_mem notEmpty)), ?_⟩
  refine bind_eq_ok.mpr ⟨_, isCopath, ?_⟩
  refine bind_eq_ok.mpr ⟨(), ensure_eq_ok.mpr (by rw [length_map, proofLength]), ?_⟩
  exact calculated

/-- Only the leaves at the positions lead to the root of the log. -/
theorem evaluateBatchProof_sound (injective : TreeHashInjective C) {root : C.Hash}
    (isRoot : rootHash leaves = some root)
    (evaluated : evaluateBatchProof positions leaves.length values proof = .ok root)
    (areEntries : positions.map (leaves[·]?) = entries.map some) : values = entries := by
  obtain ⟨positive, within⟩ := evaluateBatchProof_within evaluated
  obtain ⟨_, sameLength, _⟩ := bind_eq_ok.mp evaluated
  have sameLength := ensure_eq_ok.mp sameLength
  have entriesLength : positions.length = entries.length := by
    simpa using congrArg length areEntries
  have isTop := listRoot_of_rootHash isRoot
  apply ext_getElem (by omega)
  intro index valuesBound entriesBound
  have bound : index < (positions.zip values).length := by
    rw [length_zip]
    omega
  have leafWithin := within _ (getElem_mem bound)
  have entriesZip : index < (positions.zip entries).length := by
    rw [length_zip]
    omega
  have isLeaf := eq_some_of_mem_zip areEntries (getElem_mem entriesZip)
  rw [getElem_zip] at leafWithin isLeaf
  obtain ⟨inside, isLeaf⟩ := List.getElem?_eq_some_iff.mp isLeaf
  have same := leafWithin.unique injective (leaf_within isTop inside) positive
  rw [isLeaf] at same
  exact congrArg NodeData.value same

/-- For every log and every batch of its positions, the copath consists of the roots of the maximal
subtrees without the positions, the proof from their hashes leads to the root of the log, and
where intermediate hashes do not collide only the leaves at the positions do. -/
theorem batchInclusion_complete_sound (positive : 1 ≤ n) (fits : n ≤ 2 ^ 62)
    (isLog : leaves.length = n) (notEmpty : positions ≠ [])
    (increasing : positions.Pairwise (· < ·)) (inside : ∀ position ∈ positions, position < n) :
    ∃ copath entries proof root,
      (batchCopath positions n : Run LogError (List ℕ)) = .ok copath ∧
      copath.Pairwise (· < ·) ∧
      (∀ id, id ∈ copath ↔ ∃ a b, MaximalWithout n positions a b ∧ rootId a b = id) ∧
      positions.map (leaves[·]?) = entries.map some ∧
      copath.map (nodeHash leaves) = proof.map some ∧
      rootHash leaves = some root ∧
      evaluateBatchProof positions n entries proof = .ok root ∧
      (TreeHashInjective C → ∀ values otherProof,
        evaluateBatchProof positions n values otherProof = .ok root → values = entries) := by
  subst isLog
  have fits : leaves.length ≤ 2 ^ 63 := by omega
  obtain ⟨nodes, isCopath, siblings, nodesSorted, once⟩ :=
    @batchCopath_spec LogError _ positions fits notEmpty increasing inside
  have inTree := fun node isNode => (siblings node isNode).inTree
  obtain ⟨entries, areEntries⟩ : ∃ entries : List C.Hash,
      positions.map (leaves[·]?) = entries.map some := by
    apply exists_map_some
    intro position isPosition
    exact ⟨_, getElem?_eq_getElem (inside position isPosition)⟩
  obtain ⟨proof, areHashes⟩ : ∃ proof : List C.Hash,
      (nodes.map Node.number).map (nodeHash leaves) = proof.map some := by
    apply exists_map_some
    intro id isId
    obtain ⟨node, isNode, rfl⟩ := mem_map.mp isId
    exact exists_nodeHash fits (inTree node isNode)
  obtain ⟨root, isRoot, evaluated⟩ := evaluateBatchProof_complete fits notEmpty increasing inside
    isCopath inTree nodesSorted once areEntries areHashes
  refine ⟨nodes.map Node.number, entries, proof, root, isCopath, ?_, ?_, areEntries, areHashes,
    isRoot, evaluated, ?_⟩
  · rw [pairwise_map]
    refine (nodesSorted.and (copath_nodup siblings once)).imp fun ⟨le, different⟩ => ?_
    exact lt_of_le_of_ne le fun same => different (Node.number_injective same)
  · exact copath_iff_maximal positive inside siblings once
  · intro injective values otherProof evaluated
    exact evaluateBatchProof_sound injective isRoot evaluated areEntries

end batch

def Symbol.toSum : Symbol ℕ → ℕ ⊕ ℕ
  | .byte value => .inl value.toNat
  | .hash value => .inr value

/-- Hashes that number the hashed sequences, so that no two collide. -/
def numberingCrypto : Crypto where
  Hash := ℕ
  decEqHash := inferInstance
  Bytes := ℕ
  toHash := some
  sha256 symbols := Encodable.encode (symbols.map Symbol.toSum)
  hmacSha256 _ _ := 0
  verify _ _ _ := true
  proofToHash _ _ _ := none

theorem numberingCrypto_collisionFree : numberingCrypto.CollisionFree := by
  intro symbols others same
  have toSum_injective : Function.Injective Symbol.toSum := by
    intro symbol other same
    cases symbol <;> cases other <;> simp_all [Symbol.toSum, UInt8.toNat_inj]
  exact toSum_injective.list_map (Encodable.encode_injective same)

def threeLeaves : List numberingCrypto.Hash := ([7, 8, 9] : List ℕ)

theorem batchInclusion_threeLeaves :
    ∃ root, rootHash threeLeaves = some root ∧ ∀ values proof,
      evaluateBatchProof [1] 3 values proof = .ok root →
        values.map some = [threeLeaves[1]?] := by
  have isLog : threeLeaves.length = 3 := rfl
  obtain ⟨_, entries, _, root, _, _, _, areEntries, _, isRoot, _, sound⟩ :=
    batchInclusion_complete_sound (by decide) (by decide) isLog (cons_ne_nil 1 [])
      (pairwise_singleton _ _) (by decide)
  refine ⟨root, isRoot, fun values proof evaluated => ?_⟩
  rw [sound (treeHash_injective numberingCrypto_collisionFree) values proof evaluated]
  exact areEntries.symm

end LegacySignal.KeyTransparency
