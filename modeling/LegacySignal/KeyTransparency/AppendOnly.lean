import LegacySignal.KeyTransparency.Consistency
import LegacySignal.KeyTransparency.Returns

/-!
# The log only grows

A client keeps the last tree head and checks every new one against it. So where
hashes do not collide, all tree heads of a run are those of beginnings of one log.
-/

namespace LegacySignal.KeyTransparency

open Run
open Result (bind_eq_ok)

variable {C : Crypto} {log : List C.Hash} {mRoot root : C.Hash} {last current : LastTreeHead C}
  {config : PublicConfig}

/-- A proof that leads to the root of a log starts at the root of its first entries. -/
theorem rootHash_take_of_accepted (injective : TreeHashInjective C) {m : ℕ} {proof : List C.Hash}
    (small : log.length < 2 ^ 64) (isRoot : rootHash log = some root)
    (accepted : verifyConsistencyProof m log.length proof mRoot root = .ok ()) :
    m < log.length ∧ rootHash (log.take m) = some mRoot := by
  obtain ⟨_, ranges, _⟩ := bind_eq_ok.mp accepted
  obtain ⟨notZero, lt⟩ := ensure_eq_ok.mp ranges
  have positive := Nat.pos_of_ne_zero notZero
  have fits : log.length ≤ 2 ^ 63 := by
    by_contra large
    exact verifyConsistencyProof_not_returns (by omega) small positive lt
      (returns_of_eq_ok accepted)
  obtain ⟨parts, rest, partHashes, restHashes, checked⟩ :=
    checked_of_accepted fits positive lt accepted
  have isFirst : (log.take m).length = m := by
    rw [List.length_take]
    omega
  have consecutive := checked.fullParts.consecutive
  have firstSubtrees := checked.fullParts.subtree .whole
  have areHashes : (rootIds parts).map (nodeHash (log.take m)) = partHashes.map some := by
    apply List.ext_getElem (by simp [rootIds, checked.partsLength])
    intro place bound hashBound
    simp only [rootIds, List.length_map] at bound hashBound
    simp only [rootIds, List.getElem_map]
    have isPart := List.getElem_mem bound
    have range := (firstSubtrees _ isPart).range positive
    have isPair : (parts[place], partHashes[place]) ∈
        (parts ++ rest).zip (partHashes ++ restHashes) := by
      rw [List.zip_append checked.partsLength.symm]
      refine List.mem_append_left _ (List.mem_iff_getElem.mpr ⟨place, ?_, List.getElem_zip⟩)
      rw [List.length_zip]
      omega
    have within := within_of_consecutive fits (consecutive.append checked.consecutive)
      (positive.trans lt) checked.subtrees (by simp [checked.partsLength, checked.restLength])
      checked.secondRoot isPair
    obtain ⟨node, isNode, _⟩ := exists_listRoot_extract range.1 (show _ ≤ log.length by omega)
    have same := within.unique injective
      ((checked.subtrees _ (List.mem_append_left _ isPart)).within
      (listRoot_of_rootHash isRoot) isNode) (positive.trans lt)
    rw [nodeHash_rootId (by omega) (isFirst.symm ▸ firstSubtrees _ isPart) (by omega),
      extract_take range.2, rootHash, isNode, ← same]
    rfl
  obtain ⟨first, isRootOfFirst, computed⟩ := rootHash_of_consecutive (by omega)
    (isFirst.symm ▸ consecutive) (by omega) (isFirst.symm ▸ firstSubtrees) areHashes
  cases Except.ok.inj (computed.symm.trans checked.firstRoot)
  exact ⟨lt, isRootOfFirst⟩

def HeadOf (head : LastTreeHead C) (log : List C.Hash) : Prop :=
  head.1.treeSize.toNat = log.length ∧ rootHash log = some head.2

theorem HeadOf.unique (injective : TreeHashInjective C) {other : List C.Hash}
    (isHead : HeadOf last log) (isOther : HeadOf last other) : other = log := by
  have sameLength : other.length = log.length := isOther.1.symm.trans isHead.1
  have isRoot := listRoot_of_rootHash isOther.2
  rw [sameLength] at isRoot
  exact eq_of_listRoot injective sameLength isRoot (listRoot_of_rootHash isHead.2)

theorem headOf_take_of_checked (injective : TreeHashInjective C) {proof : List C.Hash}
    (isHead : HeadOf current log)
    (checked : checkConsistencyMetadata current.1 current.2 proof (some last) = .ok ()) :
    ∃ before, before <+: log ∧ HeadOf last before := by
  obtain ⟨isSize, isRoot⟩ := isHead
  simp only [checkConsistencyMetadata] at checked
  split at checked
  · next sameSize =>
      simp only [bind_eq_ok, ensure_eq_ok, exists_const] at checked
      exact ⟨log, List.prefix_rfl, by rw [sameSize, isSize], by rw [isRoot, checked.1]⟩
  · simp only [bind_eq_ok, ensure_eq_ok, exists_const, mapFailure_eq_ok, isSize] at checked
    obtain ⟨_, _, accepted⟩ := checked
    obtain ⟨lt, isFirst⟩ := rootHash_take_of_accepted injective
      (isSize ▸ current.1.treeSize.toNat_lt) isRoot accepted
    refine ⟨log.take _, List.take_prefix _ _, ?_, isFirst⟩
    rw [List.length_take, Nat.min_eq_left lt.le]

theorem checked_of_verified {fullTreeHead : FullTreeHead C} {accepted : LastTreeHead C}
    {distinguished : Option (LastTreeHead C)} {now : ℕ}
    (verified : verifyFullTreeHead config fullTreeHead root (some last) distinguished now =
      .ok accepted) :
    ∃ proof, checkConsistencyMetadata accepted.1 accepted.2 proof (some last) = .ok () := by
  obtain ⟨isHead, rfl⟩ := verifyFullTreeHead_eq verified
  simp only [verifyFullTreeHead, getProtoField, bind_eq_ok, okOr_eq_ok, isHead,
    Option.some.injEq, exists_eq_left'] at verified
  obtain ⟨proof, _, _, checked, _⟩ := verified
  exact ⟨proof, checked⟩

namespace Client

variable {client next later : Client C}

theorem Step.checked (step : Step config client next) (isLast : client.lastTreeHead = some last) :
    ∃ head proof, next.lastTreeHead = some head ∧
      checkConsistencyMetadata head.1 head.2 proof (some last) = .ok () := by
  cases step with
  | search accepted =>
    obtain ⟨_, _, _, _, _, _, _, _, opened, _⟩ := verifySearch_eq_ok accepted
    have verified := opened.verified
    simp only [searchContext, isLast] at verified
    exact ⟨_, (checked_of_verified verified).imp fun _ checked => ⟨rfl, checked⟩⟩
  | monitor accepted =>
    obtain ⟨_, _, _, evaluated, _⟩ := verifyMonitor_eq_ok accepted
    have verified := evaluated.verified
    simp only [monitorContext, isLast] at verified
    exact ⟨_, (checked_of_verified verified).imp fun _ checked => ⟨rfl, checked⟩⟩

/-- When the last tree head is that of a log, every earlier one of the run is that of exactly one
log, and this is a beginning of it. -/
theorem Reaches.append_only (injective : TreeHashInjective C) (run : Reaches config client later)
    (isLast : client.lastTreeHead = some last) (isCurrent : later.lastTreeHead = some current)
    (isHead : HeadOf current log) :
    ∃ before, before <+: log ∧ ∀ other, HeadOf last other ↔ other = before := by
  have exists_before : ∃ before, before <+: log ∧ HeadOf last before := by
    -- From the end of the run to its start: each head is checked against the one before.
    induction run using Relation.ReflTransGen.head_induction_on generalizing last with
    | refl =>
      cases Option.some.inj (isLast.symm.trans isCurrent)
      exact ⟨log, List.prefix_rfl, isHead⟩
    | head step _ ih =>
      obtain ⟨head, proof, isNext, checked⟩ := step.checked isLast
      obtain ⟨middle, isPrefix, isMiddle⟩ := ih isNext
      obtain ⟨before, isBefore, isFirst⟩ := headOf_take_of_checked injective isMiddle checked
      exact ⟨before, isBefore.trans isPrefix, isFirst⟩
  obtain ⟨before, isPrefix, isBefore⟩ := exists_before
  refine ⟨before, isPrefix, fun other => ⟨isBefore.unique injective, ?_⟩⟩
  rintro rfl
  exact isBefore

/-- A monitoring request without keys, answered with the root and a proof that the log has grown
from two entries to three. -/
theorem Reaches.append_only_threeLeaves :
    ∃ (client later : Client numberingCrypto) (last : LastTreeHead numberingCrypto),
      client.lastTreeHead = some last ∧ last.1.treeSize = 2 ∧
        Reaches managedConfig client later ∧
        ∀ other, HeadOf last other ↔ other = threeLeaves.take 2 := by
  obtain ⟨_, proof, mRoot, nRoot, _, _, isFirst, isRoot, accepted⟩ :=
    @verifyConsistencyProof_complete _ 2 threeLeaves (by decide) (by decide) (by decide)
  let head (size : UInt64) : TreeHead := { managedTreeHead with treeSize := size }
  let client : Client numberingCrypto := ⟨some (head 2, mRoot), fun _ => none⟩
  have isProof : proof.mapM numberingCrypto.toHash = some proof :=
    List.mapM_pure.trans (congrArg some (List.map_id proof))
  have accepted : verifyMonitor storedOrder managedConfig ⟨[], none⟩
      ⟨some ⟨some (head 3), proof, [], []⟩, [], [nRoot]⟩ (client.monitorContext (head 3, nRoot)) 0 =
        .ok ⟨head 3, nRoot, fun _ => none⟩ := by
    simp only [verifyMonitor, getProtoField, getHashProof, bind_eq_ok, okOr_eq_ok, ensure_eq_ok,
      exists_const, pure, Except.pure, Except.ok.injEq]
    refine ⟨rfl, _, rfl, _, rfl, ⟨[], []⟩, rfl, [nRoot], rfl, nRoot, rfl, (head 3, nRoot), ?_,
      fun _ => none, rfl, rfl⟩
    simp only [verifyFullTreeHead, getProtoField, getHashProof, bind_eq_ok, okOr_eq_ok]
    refine ⟨_, rfl, proof, isProof, (), ?_, [], rfl, (), ?_, _, rfl, (), rfl, (), rfl, (), rfl, rfl⟩
    · exact bind_eq_ok.mpr ⟨(), rfl, bind_eq_ok.mpr ⟨(), rfl, mapFailure_eq_ok.mpr accepted⟩⟩
    · exact bind_eq_ok.mpr ⟨(), ensure_eq_ok.mpr rfl, rfl⟩
  have run : Reaches managedConfig client _ := .single (.monitor accepted)
  obtain ⟨before, isPrefix, isBefore⟩ := append_only (treeHash_injective
    numberingCrypto_collisionFree) run rfl rfl ⟨rfl, isRoot⟩
  refine ⟨client, _, _, rfl, rfl, run, fun other => (isBefore other).trans ?_⟩
  rw [(isBefore _).mp ⟨rfl, isFirst⟩]

end Client

end LegacySignal.KeyTransparency
