import LegacySignal.KeyTransparency.Decided
import LegacySignal.KeyTransparency.Inclusion
import LegacySignal.KeyTransparency.Returns

/-!
# An accepted search is true

A log whose entries have prefix trees and commitments, and what an accepted
search says about it: the result stands at the first position with the wanted
version, and the value is the one that is committed there.
-/

namespace LegacySignal.KeyTransparency

open Run List
open Result (bind_eq_ok)

variable {C : Crypto}

namespace PrefixTree

/-- The first bits of the key, as many as given. -/
def bits (key : Index) (count : ℕ) : List Bool := (range count).map (bit key)

/-- The hash of the part of a prefix tree under the bits. The tree is a map from the keys to a
counter and the position of the first occurrence. A part without keys is hashed as neither a leaf
nor a parent. -/
inductive Hashes (map : Index → Option (UInt32 × UInt64)) : List Bool → C.Hash → Prop where
  | leaf {key : Index} {ctr : UInt32} {pos : UInt64} (isEntry : map key = some (ctr, pos)) :
      Hashes map (bits key (8 * 32)) (leafHash key ctr pos.toNat)
  | parent {path : List Bool} {left right : C.Hash} (above : path.length < 8 * 32)
      (isLeft : Hashes map (path ++ [false]) left) (isRight : Hashes map (path ++ [true]) right) :
      Hashes map path (parentHash left right)
  | absent {path : List Bool} {hash : C.Hash}
      (noKey : ∀ key, path <+: bits key (8 * 32) → map key = none)
      (notLeaf : ∀ key ctr pos, hash ≠ leafHash key ctr pos)
      (notParent : ∀ left right, hash ≠ parentHash left right) : Hashes map path hash

section hashes

variable {map : Index → Option (UInt32 × UInt64)} {path : List Bool} {key : Index} {pos : ℕ}

theorem bits_succ (key : Index) (count : ℕ) :
    bits key (count + 1) = bits key count ++ [bit key count] := by
  rw [bits, range_succ, map_append]
  rfl

section

variable (collisionFree : C.CollisionFree)

include collisionFree

theorem leafHash_ne_parentHash (key : Index) (ctr : UInt32) (pos : ℕ) (left right : C.Hash) :
    leafHash key ctr pos ≠ parentHash left right := by
  intro same
  have inputs := collisionFree same
  simp [bytes] at inputs

theorem parentHash_injective {left right otherLeft otherRight : C.Hash}
    (same : parentHash left right = parentHash otherLeft otherRight) :
    left = otherLeft ∧ right = otherRight := by
  have inputs := collisionFree same
  simpa [bytes] using inputs

theorem leafHash_injective {key other : Index} {ctr otherCtr : UInt32} {pos otherPos : ℕ}
    (small : pos < 2 ^ 64) (otherSmall : otherPos < 2 ^ 64)
    (same : leafHash (C := C) key ctr pos = leafHash other otherCtr otherPos) :
    key = other ∧ ctr = otherCtr ∧ pos = otherPos := by
  have inputs := collisionFree same
  simp only [bytes, ← map_append] at inputs
  have inputs := (map_injective_iff.mpr fun _ _ => Symbol.byte.inj) inputs
  obtain ⟨inputs, samePos⟩ := append_inj' inputs (by simp only [length_bigEndian])
  obtain ⟨inputs, sameCtr⟩ := append_inj' inputs (by simp only [length_bigEndian])
  obtain ⟨_, sameKey⟩ := append_inj inputs rfl
  refine ⟨Vector.toList_inj.mp sameKey, ?_, bigEndian_injective small otherSmall samePos⟩
  exact UInt32.toNat_inj.mp (bigEndian_injective ctr.toNat_lt otherCtr.toNat_lt sameCtr)

theorem Hashes.of_parent {hash left right : C.Hash} (hashes : Hashes map path hash)
    (same : hash = parentHash left right) :
    Hashes map (path ++ [false]) left ∧ Hashes map (path ++ [true]) right := by
  cases hashes with
  | leaf => exact absurd same (leafHash_ne_parentHash collisionFree _ _ _ _ _)
  | parent _ isLeft isRight =>
    obtain ⟨rfl, rfl⟩ := parentHash_injective collisionFree same
    exact ⟨isLeft, isRight⟩
  | absent _ _ notParent => exact absurd same (notParent left right)

theorem Hashes.of_leaf {hash : C.Hash} {ctr : UInt32} (small : pos < 2 ^ 64)
    (hashes : Hashes map path hash) (same : hash = leafHash key ctr pos) :
    ∃ first, map key = some (ctr, first) ∧ first.toNat = pos := by
  cases hashes with
  | @leaf _ _ first isEntry =>
    obtain ⟨rfl, rfl, rfl⟩ := leafHash_injective collisionFree first.toNat_lt small same
    exact ⟨first, isEntry, rfl⟩
  | parent => exact absurd same.symm (leafHash_ne_parentHash collisionFree _ _ _ _ _)
  | absent _ notLeaf => exact absurd same (notLeaf key ctr pos)

theorem evaluateLoop_sound {value root : C.Hash} {proof : List C.Bytes}
    (isRoot : Hashes map [] root) (evaluated : evaluateLoop key value proof = .ok root) :
    Hashes map (bits key proof.length) value := by
  induction proof generalizing value with
  | nil =>
    cases evaluated
    exact isRoot
  | cons element rest ih =>
    obtain ⟨sibling, _, evaluated⟩ := bind_eq_ok.mp evaluated
    have above := ih evaluated
    rw [length_cons, bits_succ]
    cases isBit : bit key rest.length with
    | true =>
      rw [isBit, if_pos rfl] at above
      exact (above.of_parent collisionFree rfl).2
    | false =>
      rw [isBit, if_neg Bool.false_ne_true] at above
      exact (above.of_parent collisionFree rfl).1

theorem evaluate_sound (small : pos < 2 ^ 64) {prefixProof : PrefixProof C} {root : C.Hash}
    (isRoot : Hashes map [] root) (evaluated : evaluate key pos prefixProof = .ok root) :
    ∃ first, map key = some (prefixProof.counter, first) ∧ first.toNat = pos := by
  obtain ⟨_, _, evaluated⟩ := bind_eq_ok.mp evaluated
  exact (evaluateLoop_sound collisionFree isRoot evaluated).of_leaf collisionFree small rfl

end

end hashes

end PrefixTree

def CommitsTo (commitment : C.Hash) (searchKey data : List UInt8) : Prop :=
  ∃ opening : List UInt8, opening.length = 16 ∧ commit searchKey data opening = .ok commitment

/-- A commitment can be opened in one way only. -/
def Crypto.Binding (C : Crypto) : Prop :=
  ∀ (commitment : C.Hash) (searchKey data otherKey otherData : List UInt8),
    CommitsTo commitment searchKey data → CommitsTo commitment otherKey otherData →
      searchKey = otherKey ∧ data = otherData

theorem commitsTo_of_verified {searchKey data nonce : List UInt8} {commitment : C.Bytes}
    {hash : C.Hash} (verified : verifyCommitment searchKey commitment data nonce = .ok true)
    (length : nonce.length = 16) (isHash : C.toHash commitment = some hash) :
    CommitsTo hash searchKey data := by
  obtain ⟨expected, isExpected, verified⟩ := bind_eq_ok.mp verified
  have same := of_decide_eq_true (Except.ok.inj verified)
  cases Option.some.inj (isHash.symm.trans same)
  exact ⟨nonce, length, isExpected⟩

theorem binding_of_injective (injective : Function.Injective (C.hmacSha256 fixedKey)) :
    C.Binding := by
  rintro commitment searchKey data otherKey otherData ⟨nonce, nonceLength, isCommitment⟩
    ⟨otherNonce, otherLength, isOther⟩
  unfold commit at isCommitment isOther
  split at isCommitment
  · cases isCommitment
  split at isCommitment
  · cases isCommitment
  split at isOther
  · cases isOther
  split at isOther
  · cases isOther
  have inputs := injective ((Except.ok.inj isCommitment).trans (Except.ok.inj isOther).symm)
  simp only [append_assoc] at inputs
  obtain ⟨_, inputs⟩ := append_inj inputs (nonceLength.trans otherLength.symm)
  obtain ⟨sameKeyLength, inputs⟩ := append_inj inputs (by simp only [length_bigEndian])
  have keyLength := bigEndian_injective (show searchKey.length < 256 ^ 2 by omega)
    (show otherKey.length < 256 ^ 2 by omega) sameKeyLength
  obtain ⟨sameKey, inputs⟩ := append_inj inputs keyLength
  obtain ⟨_, sameData⟩ := append_inj inputs (by simp only [length_bigEndian])
  exact ⟨sameKey, sameData⟩

structure LogEntry (C : Crypto) where
  map : Index → Option (UInt32 × UInt64)
  prefixRoot : C.Hash
  isHashed : PrefixTree.Hashes map [] prefixRoot
  commitment : C.Hash

def LogEntry.leaf (entry : LogEntry C) : C.Hash := leafHash entry.prefixRoot entry.commitment

/-- The index occurs first at the position. From there on it has the counters, which never
decrease. -/
structure Occurs (log : List (LogEntry C)) (index : Index) (first : ℕ) (counter : ℕ → UInt32) :
    Prop where
  inside : first < log.length
  absent : ∀ position < first, ∀ entry, log[position]? = some entry → entry.map index = none
  present : ∀ position, first ≤ position → ∀ entry, log[position]? = some entry →
    ∃ pos : UInt64, pos.toNat = first ∧ entry.map index = some (counter position, pos)
  monotone : ∀ earlier later, first ≤ earlier → earlier ≤ later → later < log.length →
    counter earlier ≤ counter later

section logs

variable {log : List (LogEntry C)} {index : Index} {first : ℕ} {counter : ℕ → UInt32}
  {root : C.Hash} {walk : SearchWalk C} {searchProof : SearchProof C}

theorem leafHash_inj (collisionFree : C.CollisionFree) {prefixRoot commitment otherRoot
    otherCommitment : C.Hash}
    (same : leafHash prefixRoot commitment = leafHash otherRoot otherCommitment) :
    prefixRoot = otherRoot ∧ commitment = otherCommitment := by
  have inputs := collisionFree same
  simpa using inputs

theorem leaf_of_candidateRoot (injective : TreeHashInjective C) {start count : ℕ}
    (isRoot : rootHash (log.map LogEntry.leaf) = some root)
    (walked : WalkResult start log.length count walk)
    (candidate : candidateRoot walk searchProof log.length = .ok root)
    {id : ℕ} {leaf : C.Hash} (member : (id, leaf) ∈ walk.leaves) :
    ∃ entry, log[id]? = some entry ∧ leaf = entry.leaf := by
  obtain ⟨_, _, candidate⟩ := bind_eq_ok.mp candidate
  obtain ⟨_, _, candidate⟩ := bind_eq_ok.mp candidate
  have evaluated := mapFailure_eq_ok.mp candidate
  obtain ⟨positive, within⟩ := evaluateBatchProof_within evaluated
  obtain ⟨_, _, isPair, _⟩ := intoSortedPairs_spec walked.distinct
  have inside : id < (log.map LogEntry.leaf).length := by
    rw [length_map]
    exact (walked.range _ member).2
  have isTop := listRoot_of_rootHash isRoot
  have leafWithin := leaf_within isTop inside
  rw [length_map] at inside leafWithin
  have same := (within _ ((isPair _).mpr member)).unique injective leafWithin positive
  refine ⟨log[id], getElem?_eq_getElem inside, ?_⟩
  rw [getElem_map] at same
  exact congrArg NodeData.value same

structure Shows (log : List (LogEntry C)) (index : Index) (pos : ℕ) (step : ProofStep C)
    (position : ℕ) (version : UInt32) (entry : LogEntry C) : Prop where
  isEntry : log[position]? = some entry
  isPrefix : ∃ prefixProof, step.prefixProof = some prefixProof ∧ prefixProof.counter = version
  isCommitment : C.toHash step.commitment = some entry.commitment
  inMap : ∃ start, entry.map index = some (version, start) ∧ start.toNat = pos

variable {entry : LogEntry C} {step : ProofStep C} {version : UInt32}

theorem evaluateStep_shows (collisionFree : C.CollisionFree) {pos : ℕ} (small : pos < 2 ^ 64)
    {position : ℕ} (isEntry : log[position]? = some entry)
    (evaluated : evaluateStep index pos step = .ok (version, entry.leaf)) :
    Shows log index pos step position version entry := by
  obtain ⟨prefixProof, isPrefix, evaluated⟩ := bind_eq_ok.mp evaluated
  obtain ⟨prefixRoot, isPrefixRoot, evaluated⟩ := bind_eq_ok.mp evaluated
  obtain ⟨commitment, isCommitment, evaluated⟩ := bind_eq_ok.mp evaluated
  obtain ⟨rfl, sameLeaf⟩ := Prod.mk.inj (Except.ok.inj evaluated)
  obtain ⟨rfl, rfl⟩ := leafHash_inj collisionFree sameLeaf
  exact ⟨isEntry, ⟨prefixProof, okOr_eq_ok.mp isPrefix, rfl⟩, okOr_eq_ok.mp isCommitment,
    PrefixTree.evaluate_sound collisionFree small entry.isHashed isPrefixRoot⟩

theorem WalkEnd.shows (collisionFree : C.CollisionFree) {version : Option UInt32} {count : ℕ}
    {final : ProofGuide}
    (ending : WalkEnd index searchProof.pos.toNat log.length version searchProof.steps walk final)
    (walked : WalkResult searchProof.pos.toNat log.length count walk)
    (isRoot : rootHash (log.map LogEntry.leaf) = some root)
    (candidate : candidateRoot walk searchProof log.length = .ok root)
    {fetched : ℕ × UInt32} (member : fetched ∈ final.sorted) :
    ∃ (place : ℕ) (step : ProofStep C) (entry : LogEntry C),
      final.ids[place]? = some fetched.1 ∧ searchProof.steps[place]? = some step ∧
        Shows log index searchProof.pos.toNat step fetched.1 fetched.2 entry := by
  obtain ⟨used, isSteps, traced⟩ := ending.traced
  obtain ⟨place, step, leaf, isId, isUsed, evaluated, isLeaf⟩ := traced.traced fetched member
  obtain ⟨entry, isEntry, rfl⟩ :=
    leaf_of_candidateRoot (treeHash_injective collisionFree) isRoot walked candidate isLeaf
  refine ⟨place, step, entry, isId, ?_,
    evaluateStep_shows collisionFree searchProof.pos.toNat_lt isEntry evaluated⟩
  rw [← isSteps, List.getElem?_append_left (List.getElem?_eq_some_iff.mp isUsed).1]
  exact isUsed

theorem Shows.agrees {pos position : ℕ} (shows : Shows log index pos step position version entry)
    (occurs : Occurs log index first counter) :
    first ≤ position ∧ position < log.length ∧ version = counter position ∧ pos = first := by
  obtain ⟨start, inMap, isPos⟩ := shows.inMap
  have inside := (List.getElem?_eq_some_iff.mp shows.isEntry).1
  by_cases early : position < first
  · rw [occurs.absent position early entry shows.isEntry] at inMap
    cases inMap
  obtain ⟨_, isFirst, isPresent⟩ := occurs.present position (by omega) entry shows.isEntry
  rw [isPresent] at inMap
  obtain ⟨rfl, rfl⟩ := Prod.mk.inj (Option.some.inj inMap)
  exact ⟨by omega, inside, rfl, isPos.symm.trans isFirst⟩

def SlimSearchRequest.wanted (req : SlimSearchRequest) (log : List (LogEntry C))
    (counter : ℕ → UInt32) : UInt32 :=
  req.version.getD (counter (log.length - 1))

/-- `KeyTransparency::verify_search`: the value is taken from the response before it is verified,
and is returned when the search is accepted. -/
structure VerifiedSearchResult (C : Crypto) where
  value : List UInt8
  stateUpdate : SearchStateUpdate C

def verifySearchValue (order : PointerOrder) (config : PublicConfig) (req : SlimSearchRequest)
    (res : FullSearchResponse C) (context : SearchContext C) (forceMonitor : Bool) (now : ℕ) :
    Verification (VerifiedSearchResult C) := do
  let unverifiedValue := res.condensed.value
  let stateUpdate ← verifySearch order config req res context forceMonitor now
  let verifiedValue ← okOr unverifiedValue (.requiredFieldMissing "update value")
  pure ⟨verifiedValue, stateUpdate⟩

/-- An accepted search of a log gives the value that is committed at the first position with the
wanted version. -/
theorem search_true (collisionFree : C.CollisionFree) (binding : C.Binding)
    {order : PointerOrder} {config : PublicConfig} {req : SlimSearchRequest}
    {res : FullSearchResponse C} {context : SearchContext C} {forceMonitor : Bool} {now : ℕ}
    {result : VerifiedSearchResult C}
    (isRoot : rootHash (log.map LogEntry.leaf) = some root)
    (occurs : Occurs log index first counter)
    (accepted : verifySearchValue order config req res context forceMonitor now = .ok result)
    (isSize : result.stateUpdate.treeHead.treeSize.toNat = log.length)
    (isIndex : evaluateVrfProof (C := C) res.condensed.vrfProof config.vrfKey req.searchKey =
      .ok index)
    (isCandidate : result.stateUpdate.treeRoot = root) :
    ∃ position, Client.FoundAt config req res position (req.wanted log counter) ∧
      IsLeast {position | first ≤ position ∧ position < log.length ∧
        counter position = req.wanted log counter} position ∧
      ∃ entry, log[position]? = some entry ∧
        ∀ searchKey data, CommitsTo entry.commitment searchKey data ↔
          searchKey = req.searchKey ∧
            data = bigEndian 4 result.value.length ++ result.value := by
  obtain ⟨update, searched, ended⟩ := bind_eq_ok.mp accepted
  obtain ⟨value, isResultValue, ended⟩ := bind_eq_ok.mp ended
  cases ended
  obtain ⟨_, proof, walk, found, step, _, prefixProof, _, opened, _⟩ :=
    verifySearch_eq_ok searched
  cases Except.ok.inj (isIndex.symm.trans opened.vrf)
  cases Option.some.inj ((okOr_eq_ok.mp isResultValue).symm.trans opened.isValue)
  have fits := update.treeHead.treeSize.toNat_lt
  obtain ⟨_, walked⟩ := walkSearch_spec fits opened.walked
  obtain ⟨final, ending⟩ := walkSearch_end fits opened.walked
  have candidate := opened.candidate
  dsimp only at isSize isCandidate
  rw [isSize] at walked ending candidate
  rw [isCandidate] at candidate
  have shows := fun fetched (member : fetched ∈ final.sorted) =>
    ending.shows collisionFree walked isRoot candidate member
  -- The result is at the place of its id, and the step there shows it.
  have isResult := ending.result
  rw [opened.result] at isResult
  obtain ⟨isFirst, isId⟩ := ProofGuide.result_spec isResult
  obtain ⟨place, shown, entry, atPlace, isShown, foundShown⟩ :=
    shows _ (mem_of_find?_eq_some isFirst)
  obtain ⟨_, _, _, isPos⟩ := foundShown.agrees occurs
  have samePlace : place = found.1 :=
    (List.getElem?_inj (List.getElem?_eq_some_iff.mp atPlace).1 ending.finished.nodup).mp
      (atPlace.trans isId.symm)
  subst samePlace
  cases Option.some.inj (isShown.symm.trans opened.isStep)
  have isWanted : final.version = req.wanted log counter := by
    have searches := ending.finished.searches
    unfold SlimSearchRequest.wanted
    cases isVersion : req.version with
    | some version =>
      rw [isVersion] at searches
      exact searches
    | none =>
      rw [isVersion] at searches
      obtain ⟨_, _, _, _, _, lastShown⟩ := shows _ searches
      rw [Option.getD_none, ← ending.n_eq]
      exact (lastShown.agrees occurs).2.2.1
  have least := (ending.finished.result_iff ending.valid isResult
    (by rw [ending.pos_eq, ending.n_eq, isPos]; exact occurs.monotone) (by
      intro fetched member
      obtain ⟨_, _, _, _, _, isShown⟩ := shows fetched member
      exact (isShown.agrees occurs).2.2.1) found.2).mp ⟨found.1, rfl⟩
  rw [ending.pos_eq, ending.n_eq, isPos] at least
  rw [isWanted] at least foundShown
  obtain ⟨_, isPrefix, isVersion⟩ := foundShown.isPrefix
  refine ⟨found.2, ⟨_, _, proof, walk, found, step, _, opened.toSearchWalked, opened.result,
    opened.isStep, isPrefix, rfl, isVersion.symm⟩, least, entry, foundShown.isEntry, ?_⟩
  have commits := commitsTo_of_verified opened.commitment opened.opening foundShown.isCommitment
  intro searchKey data
  constructor
  · intro other
    exact binding _ _ _ _ _ other commits
  · rintro ⟨rfl, rfl⟩
    exact commits

end logs

/-- Hashes that number all inputs from one on, under which every signature and every VRF proof is
valid. -/
def standInCrypto : Crypto where
  Hash := ℕ
  decEqHash := inferInstance
  Bytes := ℕ
  toHash := some
  sha256 symbols := Nat.succ (numberingCrypto.sha256 symbols)
  hmacSha256 _ message := Encodable.encode (message.map UInt8.toNat)
  verify _ _ _ := true
  proofToHash _ _ _ := some (Vector.replicate 32 0)

def standIn : standInCrypto.Hash := Nat.zero

def standInBytes : standInCrypto.Bytes := Nat.zero

theorem standInCrypto_collisionFree : standInCrypto.CollisionFree := by
  intro symbols others same
  exact numberingCrypto_collisionFree (Nat.succ.inj same)

theorem standInCrypto_binding : standInCrypto.Binding := by
  refine binding_of_injective ?_
  intro message other same
  have toNat_injective : Function.Injective UInt8.toNat := fun _ _ => UInt8.toNat_inj.mp
  exact toNat_injective.list_map (Encodable.encode_injective same)

/-- The map in which only the index of all zeros occurs. -/
def onlyIndex (counter : UInt32) : Index → Option (UInt32 × UInt64) := fun index =>
  if index = Vector.replicate 32 0 then some (counter, 0) else none

namespace PrefixTree

theorem length_bits (key : Index) (count : ℕ) : (bits key count).length = count := by
  rw [bits, length_map, length_range]

theorem bits_isPrefix (key : Index) {count more : ℕ} (le : count ≤ more) :
    bits key count <+: bits key more := by
  induction le with
  | refl => exact prefix_rfl
  | step _ ih =>
    rw [bits_succ]
    exact ih.trans (prefix_append _ _)

variable {count : ℕ} {counter : UInt32}

theorem hashes_standIn (counter : UInt32) (lt : count < 8 * 32) {side : Bool}
    (other : side ≠ bit (Vector.replicate 32 0) count) :
    Hashes (C := standInCrypto) (onlyIndex counter)
      (bits (Vector.replicate 32 0) count ++ [side]) standIn := by
  refine .absent ?_ (fun _ _ _ => (Nat.succ_ne_zero _).symm) fun _ _ => (Nat.succ_ne_zero _).symm
  intro key isPrefix
  refine if_neg ?_
  rintro rfl
  have onWay := bits_isPrefix (Vector.replicate 32 0) (Nat.succ_le_of_lt lt)
  have same := prefix_of_prefix_length_le isPrefix onWay (by simp [length_bits])
  rw [bits_succ] at same
  have same := same.eq_of_length (by simp)
  simp only [append_cancel_left_eq, cons.injEq, and_true] at same
  exact other same

theorem evaluateLoop_standIn (le : count ≤ 8 * 32) {value : standInCrypto.Hash}
    (hashes : Hashes (onlyIndex counter) (bits (Vector.replicate 32 0) count) value) :
    ∃ root, evaluateLoop (Vector.replicate 32 0) value (replicate count standInBytes) =
        .ok root ∧
      Hashes (onlyIndex counter) [] root := by
  induction count generalizing value with
  | zero => exact ⟨value, rfl, hashes⟩
  | succ count ih =>
    have above : (bits (Vector.replicate 32 0) count).length < 8 * 32 := by
      rw [length_bits]
      omega
    rw [bits_succ] at hashes
    rw [replicate_succ]
    unfold evaluateLoop
    rw [length_replicate]
    cases isBit : bit (Vector.replicate 32 0) count with
    | true =>
      rw [isBit] at hashes
      have sibling := hashes_standIn counter (show count < 8 * 32 by omega)
        (show false ≠ bit (Vector.replicate 32 0) count by rw [isBit]; decide)
      exact ih (by omega) (.parent above sibling hashes)
    | false =>
      rw [isBit] at hashes
      have sibling := hashes_standIn counter (show count < 8 * 32 by omega)
        (show true ≠ bit (Vector.replicate 32 0) count by rw [isBit]; decide)
      exact ih (by omega) (.parent above hashes sibling)

theorem evaluate_standIn (counter : UInt32) :
    ∃ root, evaluate (Vector.replicate 32 0) 0 ⟨replicate 256 standInBytes, counter⟩ = .ok root ∧
      Hashes (onlyIndex counter) [] root := by
  have isEntry : onlyIndex counter (Vector.replicate 32 0) = some (counter, 0) := if_pos rfl
  have isLeaf := Hashes.leaf (C := standInCrypto) isEntry
  rw [UInt64.toNat_zero] at isLeaf
  obtain ⟨root, evaluated, isRoot⟩ := evaluateLoop_standIn le_rfl isLeaf
  exact ⟨root, bind_eq_ok.mpr ⟨(), ensure_eq_ok.mpr length_replicate, evaluated⟩, isRoot⟩

end PrefixTree

section pair

variable {index : Index} {step earlier : ProofStep C} {leaf earlierLeaf : C.Hash}

/-- The later entry is fetched as the frontier, then the one to its left. -/
theorem walkSearch_pair (evaluated : evaluateStep index 0 step = .ok (6, leaf))
    (evaluatedEarlier : evaluateStep index 0 earlier = .ok (5, earlierLeaf)) :
    walkSearch index none ⟨0, [step, earlier], []⟩ 2 =
      .ok ⟨some (0, 1), [(1, leaf), (0, earlierLeaf)], [(1, step), (0, earlier)], []⟩ := by
  refine bind_eq_ok.mpr ⟨⟨0, 2, 0, [1], [], true⟩, rfl, ?_⟩
  refine bind_eq_ok.mpr ⟨(some (0, 1), ⟨none, _, _, _⟩), ?_, rfl⟩
  refine bind_eq_ok.mpr ⟨(false, ⟨0, 2, 0, [1], [], true⟩), rfl, ?_⟩
  refine bind_eq_ok.mpr ⟨1, rfl, bind_eq_ok.mpr ⟨_, bind_eq_ok.mpr ⟨_, evaluated, rfl⟩, ?_⟩⟩
  refine bind_eq_ok.mpr ⟨(false, ⟨0, 2, 6, [1, 0], [(1, 6)], false⟩), rfl, ?_⟩
  refine bind_eq_ok.mpr ⟨0, rfl, bind_eq_ok.mpr ⟨_, bind_eq_ok.mpr ⟨_, evaluatedEarlier, rfl⟩, ?_⟩⟩
  exact bind_eq_ok.mpr ⟨(true, ⟨0, 2, 6, [1, 0], [(0, 5), (1, 6)], false⟩), rfl, rfl⟩

theorem candidateRoot_pair :
    candidateRoot ⟨some (0, 1), [(1, leaf), (0, earlierLeaf)], [(1, step), (0, earlier)], []⟩
      ⟨0, [step, earlier], []⟩ 2 = .ok (treeHash ⟨false, earlierLeaf⟩ ⟨false, leaf⟩).value := by
  have evaluated : evaluateBatchProof [0, 1] 2 [earlierLeaf, leaf] [] =
      .ok (treeHash ⟨false, earlierLeaf⟩ ⟨false, leaf⟩).value := by
    refine bind_eq_ok.mpr ⟨(), rfl, bind_eq_ok.mpr ⟨(), rfl, bind_eq_ok.mpr ⟨1, rfl, ?_⟩⟩⟩
    refine bind_eq_ok.mpr ⟨(), rfl, bind_eq_ok.mpr ⟨[], rfl, bind_eq_ok.mpr ⟨(), rfl, ?_⟩⟩⟩
    dsimp only
    rw [zipWith_nil_left, merge_right]
    rfl
  exact bind_eq_ok.mpr ⟨(), rfl, congrArg (mapFailure LogError.toError) evaluated⟩

theorem rootHash_pair :
    rootHash [earlierLeaf, leaf] = some (treeHash ⟨false, earlierLeaf⟩ ⟨false, leaf⟩).value := by
  rw [rootHash, listRoot]
  change ((listRoot [earlierLeaf]).bind fun left => (listRoot [leaf]).bind fun right =>
    some (treeHash left right)).map NodeData.value = _
  rw [listRoot, listRoot]
  rfl

end pair

section updated

variable {counter : UInt32} {prefixRoot older newer old new : standInCrypto.Hash}

def entryOf (isHashed : PrefixTree.Hashes (onlyIndex counter) [] prefixRoot)
    (commitment : standInCrypto.Hash) : LogEntry standInCrypto :=
  ⟨onlyIndex counter, prefixRoot, isHashed, commitment⟩

def proofOf (counter : UInt32) : PrefixProof standInCrypto := ⟨replicate 256 standInBytes, counter⟩

def updatedProof (old new : standInCrypto.Hash) : SearchProof standInCrypto :=
  ⟨0, [⟨some (proofOf 6), new⟩, ⟨some (proofOf 5), old⟩], []⟩

def updatedResponse (old new : standInCrypto.Hash) : FullSearchResponse standInCrypto :=
  ⟨⟨replicate 80 0, some (updatedProof old new), replicate 16 0, some [8]⟩,
    ⟨some grownTreeHead, [], [], []⟩⟩

theorem updatedLog_occurs (isOlder : PrefixTree.Hashes (onlyIndex 5) [] older)
    (isNewer : PrefixTree.Hashes (onlyIndex 6) [] newer) :
    Occurs [entryOf isOlder old, entryOf isNewer new] (Vector.replicate 32 0) 0
      fun position => if position = 0 then 5 else 6 where
  inside := Nat.two_pos
  absent := fun position early => absurd early (Nat.not_lt_zero _)
  present := by
    rintro (_ | _ | position) _ entry isEntry
    · cases isEntry
      exact ⟨0, rfl, rfl⟩
    · cases isEntry
      exact ⟨0, rfl, rfl⟩
    · cases isEntry
  monotone := by
    intro earlier later _ le _
    split <;> split <;> first | decide | omega

end updated

/-- A value is replaced, and the search for the last version gives the one that the second entry
commits to. -/
theorem search_true_updated :
    ∃ (first second : LogEntry standInCrypto) (res : FullSearchResponse standInCrypto)
      (result : VerifiedSearchResult standInCrypto),
      CommitsTo first.commitment [1] (bigEndian 4 1 ++ [7]) ∧
        verifySearchValue storedOrder managedConfig ⟨[1], none⟩ res
          (Client.empty.searchContext [1] none) false 0 = .ok result ∧ result.value = [8] ∧
        rootHash [first.leaf, second.leaf] = some result.stateUpdate.treeRoot ∧
        ∀ searchKey data, CommitsTo second.commitment searchKey data ↔
          searchKey = [1] ∧ data = bigEndian 4 1 ++ [8] := by
  obtain ⟨old, isOld⟩ : ∃ commitment : standInCrypto.Hash,
      commit [1] (bigEndian 4 1 ++ [7]) (replicate 16 0) = .ok commitment := ⟨_, rfl⟩
  obtain ⟨new, isNew⟩ : ∃ commitment : standInCrypto.Hash,
      commit [1] (bigEndian 4 1 ++ [8]) (replicate 16 0) = .ok commitment := ⟨_, rfl⟩
  obtain ⟨_, evaluatedOld, isOlder⟩ := PrefixTree.evaluate_standIn 5
  obtain ⟨_, evaluatedNew, isNewer⟩ := PrefixTree.evaluate_standIn 6
  have opened : SearchOpened managedConfig ⟨[1], none⟩ (updatedResponse old new)
      (Client.empty.searchContext [1] none) 0 (Vector.replicate 32 0) grownTreeHead
      (updatedProof old new) _ _ (0, 1) ⟨some (proofOf 6), new⟩ [8] (proofOf 6) := {
    vrf := rfl
    treeHead := rfl
    search := rfl
    walked := walkSearch_pair (bind_eq_ok.mpr ⟨_, rfl, bind_eq_ok.mpr ⟨_, evaluatedNew, rfl⟩⟩)
      (bind_eq_ok.mpr ⟨_, rfl, bind_eq_ok.mpr ⟨_, evaluatedOld, rfl⟩⟩)
    candidate := candidateRoot_pair
    result := rfl
    isStep := rfl
    isValue := rfl
    short := by decide
    opening := rfl
    commitment := bind_eq_ok.mpr ⟨new, isNew, congrArg Except.ok (decide_eq_true rfl)⟩
    verified := rfl
    isPrefix := rfl }
  have searched : verifySearchValue storedOrder managedConfig ⟨[1], none⟩ (updatedResponse old new)
      (Client.empty.searchContext [1] none) false 0 = .ok ⟨[8], grownTreeHead, _, none⟩ :=
    bind_eq_ok.mpr ⟨_, verifySearch_of_opened opened rfl rfl, rfl⟩
  have isRoot : rootHash ([entryOf isOlder old, entryOf isNewer new].map LogEntry.leaf) = some _ :=
    rootHash_pair
  obtain ⟨position, _, ⟨⟨_, inside, isLast⟩, _⟩, found, isFound, commits⟩ :=
    search_true standInCrypto_collisionFree standInCrypto_binding isRoot
      (updatedLog_occurs isOlder isNewer) searched rfl opened.vrf rfl
  refine ⟨entryOf isOlder old, entryOf isNewer new, _, _, ⟨_, length_replicate, isOld⟩, searched,
    rfl, isRoot, ?_⟩
  -- The older entry has another version.
  rcases position with _ | _ | position
  · cases isLast
  · cases isFound
    exact commits
  · cases isFound

end LegacySignal.KeyTransparency
