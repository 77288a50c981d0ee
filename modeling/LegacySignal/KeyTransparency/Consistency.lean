import LegacySignal.KeyTransparency.ConsistencyProof
import LegacySignal.KeyTransparency.Inclusion

/-!
# Consistency proofs

The nodes of a consistency proof make up the second log, and those for the full
subtrees of the first log make up the first. So the proof from the hashes of
these nodes is accepted, and where intermediate hashes do not collide an
accepted proof shows that the first log is the beginning of the second.
-/

namespace LegacySignal.KeyTransparency

open FlatTree Run LogTree List
open Result (bind_eq_ok)
open LogTree (consistencyProof_parts proofIds)

variable {C : Crypto} {m n a b : ℕ} {leaves hashes : List C.Hash} {parts : List (ℕ × ℕ)}

def items (parts : List (ℕ × ℕ)) (hashes : List C.Hash) : List (Item C) :=
  zipWith Item.ofNode (rootIds parts) hashes

theorem exists_for (fits : n ≤ 2 ^ 63) (positive : 0 < n) (subtree : Subtree n a b)
    (hash : C.Hash) :
    (∃ node, (Item.ofNode (rootId a b) hash).For n node) ∧
      (Item.ofNode (rootId a b) hash).start = a ∧
      min (Item.ofNode (rootId a b) hash).stop n = b := by
  obtain ⟨node, inTree, rfl, rfl⟩ := exists_node positive subtree
  have isFor := ofNode_for fits inTree hash
  rw [rootId_node inTree]
  refine ⟨⟨node, isFor⟩, isFor.start_eq, ?_⟩
  rw [isFor.stop_eq, stop, mul_add, mul_one]

theorem tiling_of_consecutive (fits : n ≤ 2 ^ 63) (consecutive : Consecutive a n parts)
    (before : a < n) (subtrees : ∀ part ∈ parts, Subtree n part.1 part.2)
    (sameLength : hashes.length = parts.length) :
    Tiling n a (items parts hashes) ∧
      ∀ item ∈ items parts hashes, ∃ node, item.For n node := by
  induction consecutive generalizing hashes with
  | nil => exact absurd before (Nat.lt_irrefl _)
  | @cons a b n parts notEmpty rest ih =>
    obtain ⟨hash, hashes, rfl⟩ := exists_cons_of_length_eq_add_one sameLength
    have subtree : Subtree n a b := subtrees (a, b) mem_cons_self
    obtain ⟨isFor, isStart, isStop⟩ := exists_for fits (by omega) subtree hash
    change Tiling n a (Item.ofNode (rootId a b) hash :: items parts hashes) ∧
      ∀ item ∈ Item.ofNode (rootId a b) hash :: items parts hashes, _
    generalize Item.ofNode (rootId a b) hash = first at isFor isStart isStop ⊢
    subst isStart
    by_cases more : b < n
    · obtain ⟨tiling, areFor⟩ := ih fits more
        (fun part isPart => subtrees part (.tail _ isPart)) (by simpa using sameLength)
      have stop : first.stop = b := by omega
      rw [← stop] at tiling more
      refine ⟨.next more tiling, ?_⟩
      intro item isItem
      rcases mem_cons.mp isItem with rfl | isItem
      · exact isFor
      · exact areFor item isItem
    · have isEnd : b = n := Nat.le_antisymm rest.le (Nat.le_of_not_lt more)
      subst isEnd
      cases rest with
      | cons later tail =>
        have := tail.le
        omega
      | nil =>
        refine ⟨.last before (by omega), ?_⟩
        intro item isItem
        cases mem_singleton.mp isItem
        exact isFor

theorem nodeHash_rootId (fits : leaves.length ≤ 2 ^ 63) (subtree : Subtree leaves.length a b)
    (positive : 0 < leaves.length) :
    nodeHash leaves (rootId a b) = rootHash (leaves.extract a b) := by
  obtain ⟨any⟩ : Nonempty C.Hash := ⟨leaves[0]⟩
  obtain ⟨_, isStart, isStop⟩ := exists_for fits positive subtree any
  have isNode : nodeHash leaves (rootId a b) = rootHash (leaves.extract
      (Item.ofNode (rootId a b) any).start (Item.ofNode (rootId a b) any).stop) := rfl
  rw [isNode, ← extract_min, isStart, isStop]

theorem rootHash_of_consecutive (fits : leaves.length ≤ 2 ^ 63)
    (consecutive : Consecutive 0 leaves.length parts) (positive : 0 < leaves.length)
    (subtrees : ∀ part ∈ parts, Subtree leaves.length part.1 part.2)
    (areHashes : (rootIds parts).map (nodeHash leaves) = hashes.map some) :
    ∃ root, rootHash leaves = some root ∧
      (insertAll [] (items parts hashes)).root = .ok root := by
  have sameLength : hashes.length = parts.length := by
    simpa [rootIds] using (congrArg length areHashes).symm
  obtain ⟨tiling, _⟩ := tiling_of_consecutive fits consecutive positive subtrees sameLength
  apply tiling.rootHash_eq
  intro item isItem
  obtain ⟨pair, isPair, rfl⟩ := mem_zipWith.mp isItem
  have isHash := eq_some_of_mem_zip areHashes isPair
  obtain ⟨part, isPart, same⟩ := mem_map.mp (of_mem_zip isPair).1
  obtain ⟨node, inTree, isStart, isStop⟩ :=
    exists_node positive (subtrees part isPart)
  have isNumber := rootId_node inTree
  rw [isStart, isStop] at isNumber
  rw [← same, isNumber] at isHash ⊢
  exact listRoot_ofNode fits inTree isHash

/-- Where the calculated root is the root of the list, the items are the roots of its subtrees. -/
theorem within_of_consecutive (fits : n ≤ 2 ^ 63) (consecutive : Consecutive 0 n parts)
    (positive : 0 < n) (subtrees : ∀ part ∈ parts, Subtree n part.1 part.2)
    (sameLength : hashes.length = parts.length) {root : C.Hash}
    (isRoot : (insertAll [] (items parts hashes)).root = .ok root) {part : ℕ × ℕ} {hash : C.Hash}
    (isPair : (part, hash) ∈ parts.zip hashes) :
    Within 0 n ⟨decide (n ≠ 1), root⟩ part.1 part.2
      (Item.ofNode (rootId part.1 part.2) hash).node := by
  obtain ⟨tiling, areFor⟩ := tiling_of_consecutive fits consecutive positive subtrees sameLength
  have isItem : Item.ofNode (rootId part.1 part.2) hash ∈ items parts hashes := by
    apply mem_zipWith.mpr
    refine ⟨(rootId part.1 part.2, hash), ?_, rfl⟩
    rw [rootIds, zip_map_left]
    exact mem_map.mpr ⟨(part, hash), isPair, rfl⟩
  have within := tiling.within areFor isRoot isItem
  obtain ⟨_, isStart, isStop⟩ :=
    exists_for fits positive (subtrees part (of_mem_zip isPair).1) hash
  rwa [isStart, isStop] at within

theorem insertAll_append (chain : Chain C) (first second : List (Item C)) :
    insertAll chain (first ++ second) = insertAll (insertAll chain first) second :=
  foldl_append

theorem items_append {others : List (ℕ × ℕ)} {otherHashes : List C.Hash}
    (sameLength : hashes.length = parts.length) :
    items (parts ++ others) (hashes ++ otherHashes) =
      items parts hashes ++ items others otherHashes := by
  unfold items
  rw [rootIds_append]
  exact zipWith_append (by simp [rootIds, sameLength])

theorem root_insert_nil (h : ℕ) (value : C.Hash) : (Chain.insert [] h value).root = .ok value := by
  have inserted : Chain.insert [] h value =
      replicate h none ++ Chain.carry [] (⟨h != 0, value⟩ : NodeData C) := by
    simp [Chain.insert, Chain.carry, take_replicate, drop_replicate]
  rw [inserted, root_carry]
  rfl

theorem checkPath_eq {rest : List (Item C)} (sameLength : hashes.length = parts.length)
    (chain : Chain C) :
    verifyConsistencyProof.checkPath (rootIds parts) (items parts hashes ++ rest) chain =
      .ok (insertAll chain (items parts hashes)) := by
  induction parts generalizing hashes chain with
  | nil => rfl
  | cons part parts ih =>
    obtain ⟨hash, hashes, rfl⟩ := exists_cons_of_length_eq_add_one sameLength
    change verifyConsistencyProof.checkPath (rootId part.1 part.2 :: rootIds parts)
      (Item.ofNode (rootId part.1 part.2) hash :: (items parts hashes ++ rest)) chain = _
    have isPart : (Item.ofNode (rootId part.1 part.2) hash).id = rootId part.1 part.2 := rfl
    rw [verifyConsistencyProof.checkPath, if_pos isPart, ih (by simpa using sameLength)]
    rfl

section verify

variable {rest : List (ℕ × ℕ)} {partHashes restHashes : List C.Hash} {mRoot nRoot : C.Hash}

section steps

variable (mFits : m ≤ 2 ^ 63) (positive : 0 < m) (lt : m < n)
  (ran : (consistencyProof m n : Run LogError (List ℕ)) = .ok (proofIds true parts rest))
  (walked : (fullSubtrees m rounds (top m).number : Run LogError (List ℕ)) = .ok (rootIds parts))

include mFits positive lt ran walked

theorem verifyConsistencyProof_single (isParts : parts = [(0, m)])
    (restLength : restHashes.length = rest.length) :
    verifyConsistencyProof m n restHashes mRoot nRoot =
      verifyConsistencyProof.secondRoot nRoot (insertAll [] (items parts [mRoot]))
        (items rest restHashes) := by
  have isIds : proofIds true parts rest = rootIds rest := by
    rw [proofIds, isParts]
    rfl
  have isRoot : rootId 0 m = (top m).number := by
    have isRoot := rootId_node (top_inTree positive)
    rwa [start_top, stop_top] at isRoot
  unfold verifyConsistencyProof
  rw [ensure, if_pos ⟨Nat.ne_of_gt positive, lt⟩]
  change (consistencyProof m n >>= _) = _
  rw [ran, isIds]
  change (ensure _ _ >>= _) = _
  rw [ensure, if_pos (by rw [rootIds, length_map, restLength])]
  change (LogTree.root m >>= _) = _
  rw [root_eq positive mFits]
  change (fullSubtrees m rounds (top m).number >>= _) = _
  rw [walked]
  change (if (rootIds parts).length = 1 then _ else _) = _
  rw [if_pos (by rw [isParts]; rfl), isParts, ← isRoot]
  rfl

theorem verifyConsistencyProof_several (several : parts.length ≠ 1)
    (partsLength : partHashes.length = parts.length)
    (restLength : restHashes.length = rest.length) :
    verifyConsistencyProof m n (partHashes ++ restHashes) mRoot nRoot =
      (insertAll [] (items parts partHashes)).root >>= fun root =>
        if mRoot = root then
          verifyConsistencyProof.secondRoot nRoot (insertAll [] (items parts partHashes))
            (items rest restHashes)
        else fail (.proofMismatch "first root does not match proof") := by
  have isIds : proofIds true parts rest = rootIds (parts ++ rest) := by
    rw [proofIds, if_neg fun both => several both.2, rootIds_append]
  have isItems : zipWith Item.ofNode (rootIds (parts ++ rest)) (partHashes ++ restHashes) =
      items parts partHashes ++ items rest restHashes := items_append partsLength
  have itemsLength : (items parts partHashes).length = (rootIds parts).length := by
    simp [items, rootIds, partsLength]
  unfold verifyConsistencyProof
  rw [ensure, if_pos ⟨Nat.ne_of_gt positive, lt⟩]
  change (consistencyProof m n >>= _) = _
  rw [ran, isIds]
  change (ensure _ _ >>= _) = _
  rw [ensure, if_pos (by simp [rootIds, partsLength, restLength])]
  change (LogTree.root m >>= _) = _
  rw [root_eq positive mFits]
  change (fullSubtrees m rounds (top m).number >>= _) = _
  rw [walked]
  change (if (rootIds parts).length = 1 then _ else
    verifyConsistencyProof.checkPath (rootIds parts)
      (zipWith Item.ofNode (rootIds (parts ++ rest)) (partHashes ++ restHashes)) [] >>=
        fun chain => chain.root >>= fun root => if mRoot = root then
          verifyConsistencyProof.secondRoot nRoot chain
            ((zipWith Item.ofNode (rootIds (parts ++ rest)) (partHashes ++ restHashes)).drop
              (rootIds parts).length)
        else fail _) = _
  rw [if_neg (by simpa [rootIds] using several), isItems, checkPath_eq partsLength,
    ← itemsLength, drop_left]
  rfl

end steps

theorem split_lengths {proof : List C.Hash} (same : proof.length = parts.length + rest.length) :
    (proof.take parts.length).length = parts.length ∧
      (proof.drop parts.length).length = rest.length := by
  simp [same]

theorem secondRoot_eq_ok {chain : Chain C} {nodes : List (Item C)} :
    verifyConsistencyProof.secondRoot nRoot chain nodes = .ok () ↔
      (insertAll chain nodes).root = .ok nRoot := by
  unfold verifyConsistencyProof.secondRoot
  rw [bind_eq_ok]
  constructor
  · rintro ⟨root, isRoot, checked⟩
    split at checked
    · next same => rw [same, isRoot]
    · cases checked
  · intro isRoot
    exact ⟨nRoot, isRoot, if_pos rfl⟩

/-- The subtrees and hashes with which a consistency proof is checked. The roots calculated from
those of the first log and from all of them are the roots that are compared. -/
structure Checked (m n : ℕ) (mRoot nRoot : C.Hash) (parts rest : List (ℕ × ℕ))
    (partHashes restHashes : List C.Hash) : Prop where
  fullParts : FullParts 0 m parts
  consecutive : Consecutive m n rest
  subtrees : ∀ part ∈ parts ++ rest, Subtree n part.1 part.2
  partsLength : partHashes.length = parts.length
  restLength : restHashes.length = rest.length
  firstRoot : (insertAll [] (items parts partHashes)).root = .ok mRoot
  secondRoot : (insertAll [] (items (parts ++ rest) (partHashes ++ restHashes))).root = .ok nRoot

theorem checked_of_accepted (fits : n ≤ 2 ^ 63) (positive : 0 < m) (lt : m < n)
    {proof : List C.Hash} (accepted : verifyConsistencyProof m n proof mRoot nRoot = .ok ()) :
    ∃ parts rest partHashes restHashes,
      Checked m n mRoot nRoot parts rest partHashes restHashes := by
  obtain ⟨parts, rest, ran, walked, fullParts, consecutive, subtrees⟩ :=
    @consistencyProof_parts LogError m n fits positive lt
  have mFits : m ≤ 2 ^ 63 := by omega
  have proofLength : proof.length = (proofIds true parts rest).length := by
    obtain ⟨_, _, continued⟩ := bind_eq_ok.mp accepted
    rw [ran] at continued
    obtain ⟨_, ⟨⟩, continued⟩ := bind_eq_ok.mp continued
    obtain ⟨_, checked, _⟩ := bind_eq_ok.mp continued
    exact ensure_eq_ok.mp checked
  by_cases single : parts.length = 1
  · have isParts := fullParts.eq_singleton single
    have restLength : proof.length = rest.length := by
      rw [proofLength, proofIds, if_pos ⟨rfl, single⟩]
      simp [rootIds]
    have partsLength : [mRoot].length = parts.length := by rw [single]; rfl
    rw [verifyConsistencyProof_single mFits positive lt ran walked isParts restLength,
      secondRoot_eq_ok, ← insertAll_append, ← items_append partsLength] at accepted
    refine ⟨parts, rest, [mRoot], proof, fullParts, consecutive, subtrees, partsLength, restLength,
      ?_, accepted⟩
    rw [isParts]
    exact root_insert_nil _ mRoot
  · have isIds : (proofIds true parts rest).length = parts.length + rest.length := by
      rw [proofIds, if_neg fun both => single both.2]
      simp [rootIds]
    obtain ⟨partsLength, restLength⟩ := split_lengths (proofLength.trans isIds)
    rw [← take_append_drop parts.length proof,
      verifyConsistencyProof_several mFits positive lt ran walked single partsLength restLength,
      bind_eq_ok] at accepted
    obtain ⟨root, isRoot, accepted⟩ := accepted
    split at accepted
    · next same =>
        rw [secondRoot_eq_ok, ← insertAll_append, ← items_append partsLength] at accepted
        exact ⟨parts, rest, _, _, fullParts, consecutive, subtrees, partsLength, restLength,
          same ▸ isRoot, accepted⟩
    · cases accepted

theorem accepted_of_checked (fits : n ≤ 2 ^ 63) (positive : 0 < m) (lt : m < n)
    (ran : (consistencyProof m n : Run LogError (List ℕ)) = .ok (proofIds true parts rest))
    (walked : (fullSubtrees m rounds (top m).number : Run LogError (List ℕ)) =
      .ok (rootIds parts))
    (checked : Checked m n mRoot nRoot parts rest partHashes restHashes) :
    verifyConsistencyProof m n ((if parts.length = 1 then [] else partHashes) ++ restHashes)
      mRoot nRoot = .ok () := by
  have mFits : m ≤ 2 ^ 63 := by omega
  have second := checked.secondRoot
  rw [items_append checked.partsLength, insertAll_append, ← secondRoot_eq_ok] at second
  by_cases single : parts.length = 1
  · have isParts := checked.fullParts.eq_singleton single
    have isHash : partHashes = [mRoot] := by
      obtain ⟨hash, rfl⟩ := length_eq_one_iff.mp (checked.partsLength.trans single)
      have first := checked.firstRoot
      rw [isParts] at first
      rw [Except.ok.inj ((root_insert_nil _ hash).symm.trans first)]
    rw [if_pos single, nil_append,
      verifyConsistencyProof_single mFits positive lt ran walked isParts checked.restLength,
      ← isHash]
    exact second
  · rw [if_neg single, verifyConsistencyProof_several mFits positive lt ran walked single
      checked.partsLength checked.restLength, bind_eq_ok]
    exact ⟨mRoot, checked.firstRoot, (if_pos rfl).trans second⟩

end verify

theorem extract_take (le : b ≤ m) : (leaves.take m).extract a b = leaves.extract a b := by
  rw [extract_eq_take_drop, extract_eq_take_drop, drop_take, take_take]
  congr 1
  omega

theorem verifyConsistencyProof_complete (fits : leaves.length ≤ 2 ^ 63) (positive : 0 < m)
    (lt : m < leaves.length) :
    ∃ ids proof mRoot nRoot,
      (consistencyProof m leaves.length : Run LogError (List ℕ)) = .ok ids ∧
      ids.map (nodeHash leaves) = proof.map some ∧ rootHash (leaves.take m) = some mRoot ∧
      rootHash leaves = some nRoot ∧
      verifyConsistencyProof m leaves.length proof mRoot nRoot = .ok () := by
  obtain ⟨parts, rest, ran, walked, fullParts, consecutive, subtrees⟩ :=
    @consistencyProof_parts LogError m leaves.length fits positive lt
  have notEmpty : 0 < leaves.length := by omega
  have isFirst : (leaves.take m).length = m := by
    rw [length_take]
    omega
  have hashesExist : ∀ others ⊆ parts ++ rest, ∃ hashes : List C.Hash,
      (rootIds others).map (nodeHash leaves) = hashes.map some := by
    intro others subset
    apply exists_map_some
    intro id isId
    obtain ⟨part, isPart, rfl⟩ := mem_map.mp isId
    obtain ⟨node, inTree, isStart, isStop⟩ :=
      exists_node notEmpty (subtrees part (subset isPart))
    rw [← isStart, ← isStop, rootId_node inTree]
    exact exists_nodeHash fits inTree
  obtain ⟨partHashes, arePartHashes⟩ := hashesExist parts (subset_append_left _ _)
  obtain ⟨restHashes, areRestHashes⟩ := hashesExist rest (subset_append_right _ _)
  -- The full subtrees of the first log have the same leaves in both logs.
  have firstSubtrees := fullParts.subtree .whole
  have areFirstHashes : (rootIds parts).map (nodeHash (leaves.take m)) = partHashes.map some := by
    rw [← arePartHashes]
    apply map_congr_left
    intro id isId
    obtain ⟨part, isPart, rfl⟩ := mem_map.mp isId
    have subtree := firstSubtrees part isPart
    rw [nodeHash_rootId fits (subtrees part (mem_append_left _ isPart)) notEmpty,
      nodeHash_rootId (by omega) (isFirst.symm ▸ subtree) (by omega),
      extract_take (subtree.range positive).2]
  have whole := fullParts.consecutive.append consecutive
  obtain ⟨mRoot, isMRoot, firstRoot⟩ := rootHash_of_consecutive (by omega)
    (isFirst.symm ▸ fullParts.consecutive) (by omega) (isFirst.symm ▸ firstSubtrees) areFirstHashes
  have areHashes : (rootIds (parts ++ rest)).map (nodeHash leaves) =
      (partHashes ++ restHashes).map some := by
    rw [rootIds_append, map_append, arePartHashes, areRestHashes, map_append]
  obtain ⟨nRoot, isNRoot, secondRoot⟩ :=
    rootHash_of_consecutive fits whole notEmpty subtrees areHashes
  have checked : Checked m leaves.length mRoot nRoot parts rest partHashes restHashes :=
    ⟨fullParts, consecutive, subtrees,
      by simpa [rootIds] using (congrArg length arePartHashes).symm,
      by simpa [rootIds] using (congrArg length areRestHashes).symm, firstRoot, secondRoot⟩
  refine ⟨_, _, mRoot, nRoot, ran, ?_, isMRoot, isNRoot,
    accepted_of_checked fits positive lt ran walked checked⟩
  rw [proofIds, map_append, map_append, areRestHashes]
  congr 1
  by_cases single : parts.length = 1
  · rw [if_pos ⟨rfl, single⟩, if_pos single]
    rfl
  · rw [if_neg fun both => single both.2, if_neg single]
    exact arePartHashes

theorem isPrefix_of_accepted (injective : TreeHashInjective C) {first second proof : List C.Hash}
    (fits : second.length ≤ 2 ^ 63) (positive : 0 < first.length)
    (lt : first.length < second.length) {mRoot nRoot : C.Hash}
    (isMRoot : rootHash first = some mRoot) (isNRoot : rootHash second = some nRoot)
    (accepted : verifyConsistencyProof first.length second.length proof mRoot nRoot = .ok ()) :
    first <+: second := by
  obtain ⟨parts, rest, partHashes, restHashes, checked⟩ :=
    checked_of_accepted fits positive lt accepted
  have isTop := listRoot_of_rootHash isMRoot
  have isNewTop := listRoot_of_rootHash isNRoot
  have consecutive := checked.fullParts.consecutive
  have firstSubtrees := checked.fullParts.subtree .whole
  rw [prefix_iff_eq_take]
  apply ext_getElem (by rw [length_take]; omega)
  intro index bound takeBound
  obtain ⟨⟨a, b⟩, isPart, le, less⟩ := consecutive.exists_mem (Nat.zero_le index) bound
  have subtree : Subtree first.length a b := firstSubtrees _ isPart
  have newSubtree : Subtree second.length a b :=
    checked.subtrees _ (mem_append_left _ isPart)
  have range := subtree.range positive
  obtain ⟨hash, isPair⟩ : ∃ hash, ((a, b), hash) ∈ parts.zip partHashes := by
    obtain ⟨place, placeBound, isPlace⟩ := getElem_of_mem isPart
    have hashBound : place < partHashes.length := by rw [checked.partsLength]; exact placeBound
    refine ⟨partHashes[place], ?_⟩
    rw [← isPlace]
    exact mem_iff_getElem.mpr ⟨place, by rw [length_zip]; omega, getElem_zip⟩
  have below := within_of_consecutive (by omega) consecutive positive firstSubtrees
    checked.partsLength checked.firstRoot isPair
  have isNewPair : ((a, b), hash) ∈ (parts ++ rest).zip (partHashes ++ restHashes) := by
    rw [zip_append checked.partsLength.symm]
    exact mem_append_left _ isPair
  have newBelow := within_of_consecutive fits (consecutive.append checked.consecutive)
    (by omega) checked.subtrees (by simp [checked.partsLength, checked.restLength])
    checked.secondRoot isNewPair
  obtain ⟨root, isRoot, _⟩ := exists_listRoot_extract range.1 range.2
  obtain ⟨newRoot, isNewRoot, _⟩ :=
    exists_listRoot_extract range.1 (show b ≤ second.length by omega)
  have same := below.unique injective (subtree.within isTop isRoot) positive
  have newSame := newBelow.unique injective (newSubtree.within isNewTop isNewRoot) (by omega)
  rw [← same] at isRoot
  rw [← newSame] at isNewRoot
  have sameLeaves := eq_of_listRoot injective
    (by rw [length_extract range.2, length_extract (by omega)]) isRoot isNewRoot
  have here := congrArg (fun list => list[index - a]?) sameLeaves
  simp only [extract_eq_take_drop] at here
  rw [getElem?_take_of_lt (by omega), getElem?_take_of_lt (by omega),
    getElem?_drop, getElem?_drop, show a + (index - a) = index by omega,
    getElem?_eq_getElem bound, getElem?_eq_getElem (by omega)] at here
  rw [getElem_take]
  exact Option.some.inj here

theorem chain_root_ne_unexpected (chain : Chain C) (message : String) :
    chain.root ≠ fail (.unexpected message) := by
  unfold Chain.root
  cases chain with
  | nil => nofun
  | cons first rest =>
    dsimp only
    split <;> nofun

theorem secondRoot_ne_unexpected (nRoot : C.Hash) (chain : Chain C) (nodes : List (Item C))
    (message : String) :
    verifyConsistencyProof.secondRoot nRoot chain nodes ≠ fail (.unexpected message) := by
  unfold verifyConsistencyProof.secondRoot
  have notRoot := chain_root_ne_unexpected (insertAll chain nodes) message
  generalize (insertAll chain nodes).root = calculated at notRoot ⊢
  rcases calculated with failure | root
  · intro same
    exact notRoot (congrArg Except.error (Except.error.inj same))
  · change (if nRoot = root then _ else _) ≠ _
    split <;> nofun

/-- The loop over the full subtrees of the first log never meets another id. -/
theorem verifyConsistencyProof_ne_unexpected (fits : n ≤ 2 ^ 63) (positive : 0 < m) (lt : m < n)
    (proof : List C.Hash) (mRoot nRoot : C.Hash) (message : String) :
    verifyConsistencyProof m n proof mRoot nRoot ≠ fail (.unexpected message) := by
  obtain ⟨parts, rest, ran, walked, fullParts, _, _⟩ :=
    @consistencyProof_parts LogError m n fits positive lt
  have mFits : m ≤ 2 ^ 63 := by omega
  by_cases proofLength : proof.length = (proofIds true parts rest).length
  · by_cases single : parts.length = 1
    · have restLength : proof.length = rest.length := by
        rw [proofLength, proofIds, if_pos ⟨rfl, single⟩]
        simp [rootIds]
      rw [verifyConsistencyProof_single mFits positive lt ran walked
        (fullParts.eq_singleton single) restLength]
      exact secondRoot_ne_unexpected _ _ _ message
    · rw [proofIds, if_neg fun both => single both.2, length_append, rootIds, rootIds,
        length_map, length_map] at proofLength
      obtain ⟨partsLength, restLength⟩ := split_lengths proofLength
      rw [← take_append_drop parts.length proof,
        verifyConsistencyProof_several mFits positive lt ran walked single partsLength restLength]
      generalize insertAll [] (items parts (proof.take parts.length)) = chain
      have notRoot := chain_root_ne_unexpected chain message
      generalize chain.root = calculated at notRoot ⊢
      rcases calculated with failure | root
      · intro same
        exact notRoot (congrArg Except.error (Except.error.inj same))
      · change (if mRoot = root then _ else _) ≠ _
        split
        · exact secondRoot_ne_unexpected _ _ _ message
        · intro same
          cases same
  · unfold verifyConsistencyProof
    rw [ensure, if_pos ⟨Nat.ne_of_gt positive, lt⟩]
    change (consistencyProof m n >>= _) ≠ _
    rw [ran]
    change (ensure _ _ >>= _) ≠ _
    rw [ensure, if_neg proofLength]
    intro same
    cases same

/-- For all sizes, the hashes of the nodes of the consistency proof are accepted for every log and
its beginning, the ids never fail to match the path, and where intermediate hashes do not collide
every accepted proof is between a log and its beginning. -/
theorem consistency_complete_sound (positive : 1 ≤ m) (lt : m < n) (fits : n ≤ 2 ^ 62) :
    (∀ leaves : List C.Hash, leaves.length = n → ∃ ids proof mRoot nRoot,
      (consistencyProof m n : Run LogError (List ℕ)) = .ok ids ∧
      ids.map (nodeHash leaves) = proof.map some ∧ rootHash (leaves.take m) = some mRoot ∧
      rootHash leaves = some nRoot ∧ verifyConsistencyProof m n proof mRoot nRoot = .ok ()) ∧
    (∀ (proof : List C.Hash) (mRoot nRoot : C.Hash) (message : String),
      verifyConsistencyProof m n proof mRoot nRoot ≠ fail (.unexpected message)) ∧
    (TreeHashInjective C → ∀ (first second proof : List C.Hash) (mRoot nRoot : C.Hash),
      first.length = m → second.length = n → rootHash first = some mRoot →
      rootHash second = some nRoot → verifyConsistencyProof m n proof mRoot nRoot = .ok () →
      first <+: second) := by
  have fits : n ≤ 2 ^ 63 := by omega
  refine ⟨?_, verifyConsistencyProof_ne_unexpected fits positive lt, ?_⟩
  · rintro leaves rfl
    exact verifyConsistencyProof_complete fits positive lt
  · rintro injective first second proof mRoot nRoot rfl rfl isMRoot isNRoot accepted
    exact isPrefix_of_accepted injective fits positive lt isMRoot isNRoot accepted

theorem consistency_threeLeaves :
    ∃ proof mRoot nRoot, rootHash (threeLeaves.take 2) = some mRoot ∧
      rootHash threeLeaves = some nRoot ∧
      verifyConsistencyProof 2 3 proof mRoot nRoot = .ok () ∧
      ∀ first, first.length = 2 → rootHash first = some mRoot → first <+: threeLeaves := by
  obtain ⟨complete, _, sound⟩ :=
    consistency_complete_sound (C := numberingCrypto) (m := 2) (n := 3) (by decide) (by decide)
      (by decide)
  obtain ⟨_, proof, mRoot, nRoot, _, _, isMRoot, isNRoot, accepted⟩ := complete threeLeaves rfl
  refine ⟨proof, mRoot, nRoot, isMRoot, isNRoot, accepted, fun first length isRoot => ?_⟩
  exact sound (treeHash_injective numberingCrypto_collisionFree) first threeLeaves proof mRoot nRoot
    length rfl isRoot isNRoot accepted

end LegacySignal.KeyTransparency
