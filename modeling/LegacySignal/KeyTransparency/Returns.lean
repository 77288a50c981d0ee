import LegacySignal.KeyTransparency.Client
import LegacySignal.KeyTransparency.ConsistencyProof

/-!
# When the calls return

A call that panics or loops on the numbers of a response does not return. For
each stage of a call it is said which numbers it needs, and the call returns
exactly when every stage that it reaches has them.
-/

namespace LegacySignal.KeyTransparency

open Run MonitoringData
open Result (bind_eq_ok)

variable {C : Crypto} {treeHead : TreeHead} {root : C.Hash} {config : PublicConfig}
  {timestamp : Int64} {now : ℕ}

theorem verifyConsistencyProof_returns_iff {m n : ℕ} {proof : List C.Hash} {mRoot nRoot : C.Hash}
    (small : n < 2 ^ 64) :
    Returns (verifyConsistencyProof m n proof mRoot nRoot) ↔ (m ≠ 0 → m < n → n ≤ 2 ^ 63) := by
  constructor
  · intro returns notZero lt
    by_contra large
    exact verifyConsistencyProof_not_returns (by omega) small (by omega) lt returns
  · intro bound
    by_cases range : m ≠ 0 ∧ m < n
    · exact verifyConsistencyProof_returns (bound range.1 range.2)
    · unfold verifyConsistencyProof
      exact returns_bind.mpr
        ⟨returns_ensure, fun _ checked => absurd (ensure_eq_ok.mp checked) range⟩

def NeedsProof (treeHead : TreeHead) (baseline : Option (LastTreeHead C)) : Prop :=
  ∃ last ∈ baseline, last.1.treeSize ≠ 0 ∧ last.1.treeSize < treeHead.treeSize ∧
    last.1.timestamp ≤ treeHead.timestamp

theorem checkConsistencyMetadata_returns {proof : List C.Hash}
    {baseline : Option (LastTreeHead C)} :
    Returns (checkConsistencyMetadata treeHead root proof baseline) ↔
      (NeedsProof treeHead baseline → treeHead.treeSize.toNat ≤ 2 ^ 63) := by
  unfold checkConsistencyMetadata
  cases baseline with
  | none =>
    refine ⟨?_, fun _ => returns_ensure⟩
    rintro _ ⟨_, ⟨⟩, _⟩
  | some last =>
    dsimp only
    split
    · next same =>
        simp only [returns_bind, returns_ensure, implies_true, and_true, true_iff]
        rintro ⟨_, ⟨⟩, _, less, _⟩
        rw [same] at less
        exact absurd less (UInt64.lt_irrefl _)
    · next differs =>
        have proves := @verifyConsistencyProof_returns_iff C last.1.treeSize.toNat
          treeHead.treeSize.toNat proof last.2 root treeHead.treeSize.toNat_lt
        have zero : last.1.treeSize.toNat = 0 ↔ last.1.treeSize = 0 := @UInt64.toNat_inj _ 0
        simp only [returns_bind, returns_ensure, ensure_eq_ok, returns_mapFailure, proves, ne_eq,
          zero, true_and, forall_const]
        constructor
        · rintro returns ⟨_, ⟨⟩, notZero, less, before⟩
          exact returns (UInt64.le_of_lt less) before notZero less
        · intro bound _ before notZero less
          exact bound ⟨last, rfl, notZero, less, before⟩

theorem verifyTreeHeadSignature_returns {treeSize : UInt64} {signature : List UInt8}
    {verifyingKey : VerifyingKey} {maybeAuditorKey : Option VerifyingKey} :
    Returns (verifyTreeHeadSignature config treeSize timestamp signature root verifyingKey
      maybeAuditorKey) := by
  unfold verifyTreeHeadSignature
  exact returns_ensure_bind.mpr fun _ => returns_ensure

theorem verifyTimestamp_returns {qualifier : String} {range : TimestampRange} :
    Returns (verifyTimestamp qualifier timestamp range now) := by
  unfold verifyTimestamp
  exact returns_ensure_bind.mpr fun _ => returns_ensure

def AuditorNeedsProof (treeHead : TreeHead) (now : ℕ) (auditor : FullAuditorTreeHead C) : Prop :=
  ∃ head rootValue, auditor.treeHead = some head ∧ auditor.rootValue = some rootValue ∧
    verifyTimestamp "Validator" head.timestamp allowedAuditorTimestampRange now = .ok () ∧
    head.treeSize ≠ 0 ∧ head.treeSize < treeHead.treeSize ∧
    treeHead.treeSize.toNat - head.treeSize.toNat ≤ entriesMaxBehind ∧
    (C.toHash rootValue).isSome ∧ (auditor.consistency.mapM C.toHash).isSome

theorem verifyAuditorTreeHead_returns {key : VerifyingKey} {auditor : FullAuditorTreeHead C} :
    Returns (verifyAuditorTreeHead config treeHead root now key auditor) ↔
      (AuditorNeedsProof treeHead now auditor → treeHead.treeSize.toNat ≤ 2 ^ 63) := by
  have proves := fun (head : AuditorTreeHead) (proof : List C.Hash) (auditorRoot : C.Hash) =>
    @verifyConsistencyProof_returns_iff C head.treeSize.toNat treeHead.treeSize.toNat proof
      auditorRoot root treeHead.treeSize.toNat_lt
  simp only [verifyAuditorTreeHead, getProtoField, getHashProof, returns_bind, returns_okOr,
    okOr_eq_ok, returns_ensure, ensure_eq_ok, verifyTimestamp_returns, true_and, forall_const]
  constructor
  · rintro returns ⟨head, rootValue, isHead, isValue, recent, notZero, less, close, isRoot, isProof⟩
    obtain ⟨auditorRoot, isRoot⟩ := Option.isSome_iff_exists.mp isRoot
    obtain ⟨proof, isProof⟩ := Option.isSome_iff_exists.mp isProof
    have returns := returns head isHead () recent (UInt64.le_of_lt less) close
    simp only [if_pos less, returns_bind, returns_okOr, okOr_eq_ok, returns_mapFailure, proves,
      true_and] at returns
    exact (returns rootValue isValue auditorRoot isRoot proof isProof).1
      (fun zero => notZero (UInt64.toNat_inj.mp zero)) less
  · intro bound head isHead _ recent _ close
    split
    · next less =>
        simp only [returns_bind, returns_okOr, okOr_eq_ok, returns_mapFailure, proves,
          verifyTreeHeadSignature_returns, true_and, implies_true, and_true]
        intro rootValue isValue auditorRoot isRoot proof isProof notZero _
        refine bound ⟨head, rootValue, isHead, isValue, recent, ?_, less, close, ?_, ?_⟩
        · rintro zero
          exact notZero (by rw [zero]; rfl)
        · rw [isRoot]
          rfl
        · rw [isProof]
          rfl
    · simp only [returns_bind, returns_ensure, verifyTreeHeadSignature_returns, implies_true,
        and_true]

section head

variable (config : PublicConfig) (fullTreeHead : FullTreeHead C) (root : C.Hash)
  (last distinguished : Option (LastTreeHead C)) (now : ℕ)

/-- All checks on a head but those of the auditors have succeeded. -/
structure HeadChecked (head : TreeHead) : Prop where
  treeHead : fullTreeHead.treeHead = some head
  lastChecked : ∃ proof, fullTreeHead.last.mapM C.toHash = some proof ∧
    checkConsistencyMetadata head root proof last = .ok ()
  distinguishedChecked : ∃ proof, fullTreeHead.distinguished.mapM C.toHash = some proof ∧
    checkConsistencyMetadata head root proof distinguished = .ok ()
  signed : ∃ signatures, head.toSingleSignatureTreeHeads config = some signatures ∧
    ∀ signature ∈ signatures, verifyTreeHeadSignature config head.treeSize head.timestamp
      signature.2.signature root config.signatureKey (some signature.1) = .ok ()
  recent : verifyTimestamp "Server" head.timestamp allowedTimestampRange now = .ok ()

/-- Consistency proofs are evaluated only in trees of at most `2 ^ 63` entries. -/
structure HeadInBounds : Prop where
  fromLast : ∀ head, fullTreeHead.treeHead = some head → (fullTreeHead.last.mapM C.toHash).isSome →
    NeedsProof head last → head.treeSize.toNat ≤ 2 ^ 63
  fromDistinguished : ∀ head proof, fullTreeHead.treeHead = some head →
    fullTreeHead.last.mapM C.toHash = some proof →
    checkConsistencyMetadata head root proof last = .ok () →
    (fullTreeHead.distinguished.mapM C.toHash).isSome →
    NeedsProof head distinguished → head.treeSize.toNat ≤ 2 ^ 63
  fromAuditors : ∀ head keys pairs before pair after,
    HeadChecked config fullTreeHead root last distinguished now head →
    config.mode = .thirdPartyAuditing keys → fullTreeHead.auditorTreeHeads keys = some pairs →
    pairs = before ++ pair :: after →
    (∀ other ∈ before, verifyAuditorTreeHead config head root now other.1 other.2 = .ok ()) →
    AuditorNeedsProof head now pair.2 → head.treeSize.toNat ≤ 2 ^ 63

end head

section head

variable {fullTreeHead : FullTreeHead C} {last distinguished : Option (LastTreeHead C)}

theorem HeadInBounds.of_le
    (small : ∀ head, fullTreeHead.treeHead = some head → head.treeSize.toNat ≤ 2 ^ 63) :
    HeadInBounds config fullTreeHead root last distinguished now :=
  ⟨fun head isHead _ _ => small head isHead, fun head _ isHead _ _ _ _ => small head isHead,
    fun head _ _ _ _ _ checked _ _ _ _ _ => small head checked.treeHead⟩

theorem verifyAuditorTreeHeads_returns {treeHead : TreeHead} :
    Returns (verifyAuditorTreeHeads config fullTreeHead treeHead root now) ↔
      ∀ keys pairs before pair after, config.mode = .thirdPartyAuditing keys →
        fullTreeHead.auditorTreeHeads keys = some pairs → pairs = before ++ pair :: after →
        (∀ other ∈ before,
          verifyAuditorTreeHead config treeHead root now other.1 other.2 = .ok ()) →
        AuditorNeedsProof treeHead now pair.2 → treeHead.treeSize.toNat ≤ 2 ^ 63 := by
  unfold verifyAuditorTreeHeads
  cases mode : config.mode with
  | contactMonitoring | thirdPartyManagement keys => exact ⟨nofun, fun _ => trivial⟩
  | thirdPartyAuditing keys =>
    simp only [returns_bind, returns_okOr, okOr_eq_ok, returns_forM, verifyAuditorTreeHead_returns,
      true_and]
    constructor
    · rintro returns _ pairs before pair after ⟨⟩ isPairs
      exact returns pairs isPairs before pair after
    · intro bound pairs isPairs before pair after
      exact bound keys pairs before pair after rfl isPairs

theorem verifyFullTreeHead_returns :
    Returns (verifyFullTreeHead config fullTreeHead root last distinguished now) ↔
      HeadInBounds config fullTreeHead root last distinguished now := by
  simp only [verifyFullTreeHead, getProtoField, getHashProof, returns_bind, returns_okOr,
    okOr_eq_ok, true_and, checkConsistencyMetadata_returns, returns_forM,
      verifyTreeHeadSignature_returns,
    verifyTimestamp_returns, verifyAuditorTreeHeads_returns, returns_pure, implies_true, and_true]
  constructor
  · intro returns
    refine ⟨?_, ?_, ?_⟩
    · intro head isHead isProof
      obtain ⟨proof, isProof⟩ := Option.isSome_iff_exists.mp isProof
      exact (returns head isHead proof isProof).1
    · intro head proof isHead isLast checked isProof
      obtain ⟨other, isProof⟩ := Option.isSome_iff_exists.mp isProof
      exact ((returns head isHead proof isLast).2 () checked other isProof).1
    · rintro head keys pairs before pair after ⟨isHead, ⟨proof, isLast, checked⟩,
        ⟨other, isProof, otherChecked⟩, ⟨signatures, isSignatures, signed⟩, recent⟩
      exact ((returns head isHead proof isLast).2 () checked other isProof).2 () otherChecked
        signatures isSignatures () (Result.forM_eq_ok.mpr signed) () recent keys pairs before pair
        after
  · intro bounds head isHead proof isLast
    refine ⟨bounds.fromLast head isHead (by rw [isLast]; rfl), fun _ checked other isProof =>
      ⟨?_, ?_⟩⟩
    · exact bounds.fromDistinguished head proof isHead isLast checked (by rw [isProof]; rfl)
    · intro _ otherChecked signatures isSignatures _ signed _ recent keys pairs before pair after
      exact bounds.fromAuditors head keys pairs before pair after
        ⟨isHead, ⟨proof, isLast, checked⟩, ⟨other, isProof, otherChecked⟩,
          ⟨signatures, isSignatures, Result.forM_eq_ok.mp signed⟩, recent⟩

end head

theorem commit_returns {searchKey data nonce : List UInt8} :
    Returns (commit searchKey data nonce : Verification C.Hash) ↔
      searchKey.length < 2 ^ 16 ∧ data.length < 2 ^ 32 := by
  unfold commit
  split
  · next long =>
      constructor
      · exact False.elim
      · rintro ⟨short, _⟩
        omega
  · split
    · next long =>
        constructor
        · exact False.elim
        · rintro ⟨_, short⟩
          omega
    · next shortKey shortData => exact ⟨fun _ => ⟨by omega, by omega⟩, fun _ => trivial⟩

theorem verifyCommitment_returns {searchKey value nonce : List UInt8} {commitment : C.Bytes} :
    Returns (verifyCommitment searchKey commitment (bigEndian 4 value.length ++ value) nonce) ↔
      searchKey.length < 2 ^ 16 ∧ value.length + 4 < 2 ^ 32 := by
  unfold verifyCommitment
  rw [returns_bind, commit_returns, List.length_append, length_bigEndian, Nat.add_comm 4]
  exact ⟨fun returns => returns.1, fun short => ⟨short, fun _ _ => trivial⟩⟩

section updateMonitoring

variable {size pos resultId : ℕ} {index : Index} {version : UInt32} {monitor : Bool}
  {stored : MonitoringData} {searchKey : List UInt8} {steps : List (ℕ × ProofStep C)}
  (fits : size < 2 ^ 64) (pos_le : pos ≤ resultId) (inside : resultId < size)

include fits pos_le inside

theorem checkSearchConsistency_returns :
    Returns (stored.checkSearchConsistency size index pos resultId version monitor) := by
  unfold checkSearchConsistency
  refine returns_ensure_bind.mpr fun _ => ?_
  refine returns_ensure_bind.mpr fun _ => ?_
  exact returns_bind.mpr
    ⟨recordVersion_returns fits pos_le inside, fun _ _ => trivial⟩

theorem checkSearchConsistency_spec {checked : MonitoringData}
    (isChecked : stored.checkSearchConsistency size index pos resultId version monitor =
      .ok checked) :
    checked.pos = stored.pos ∧ stored.pos = pos ∧
      Recorded size (resultId, version) stored.ptrs checked.ptrs := by
  obtain ⟨_, _, isChecked⟩ := bind_eq_ok.mp isChecked
  obtain ⟨_, samePos, isChecked⟩ := bind_eq_ok.mp isChecked
  obtain ⟨ptrs, isRecorded, isChecked⟩ := bind_eq_ok.mp isChecked
  cases isChecked
  exact ⟨rfl, (ensure_eq_ok.mp samePos).symm,
    recordVersion_spec fits pos_le inside isRecorded⟩

theorem checkAndUpdate_returns (sound : stored.Sound) :
    (∀ order, Returns (stored.checkSearchConsistency size index pos resultId version monitor >>=
        fun checked => checked.update order searchKey size steps >>= fun updated =>
          pure (some updated) : Verification (Option MonitoringData))) ↔
      ∀ checked, stored.checkSearchConsistency size index pos resultId version monitor =
          .ok checked → ∀ ptr ∈ stored.ptrs, UnderRoot stored.pos size ptr.1 := by
  -- The pointer to the result lies in the tree, so that only the stored ones matter.
  have updates : ∀ checked, stored.checkSearchConsistency size index pos resultId version
      monitor = .ok checked → ((∀ order, Returns (checked.update order searchKey size steps)) ↔
        ∀ ptr ∈ stored.ptrs, UnderRoot stored.pos size ptr.1) := by
    intro checked isChecked
    obtain ⟨samePos, isPos, recorded⟩ := checkSearchConsistency_spec fits pos_le inside isChecked
    rw [update_returns fits, samePos]
    · constructor
      · intro under ptr member
        exact under ptr (recorded.kept ptr member)
      · intro under ptr member
        rcases recorded.origin ptr member with isOld | ⟨rfl, _⟩
        · exact under ptr isOld
        · exact underRoot_of_lt (by dsimp only; omega) inside fits
    · intro ptr member
      rw [samePos]
      rcases recorded.origin ptr member with isOld | ⟨rfl, _⟩
      · exact sound.range ptr isOld
      · exact ⟨by dsimp only; omega, by dsimp only; omega⟩
  constructor
  · intro returns checked isChecked
    refine (updates checked isChecked).mp fun order => ?_
    have returns := returns order
    have returns := (returns_bind.mp returns).2 checked isChecked
    exact (returns_bind.mp returns).1
  · intro under order
    refine returns_bind.mpr
      ⟨checkSearchConsistency_returns fits pos_le inside, fun checked isChecked => ?_⟩
    exact returns_bind.mpr
      ⟨(updates checked isChecked).mpr (under checked isChecked) order, fun _ _ => trivial⟩

theorem updateMonitoring_returns {data : Option MonitoringData}
    (sound : ∀ stored ∈ data, stored.Sound) :
    (∀ order, Returns (updateMonitoring order searchKey data config monitor size index pos
        resultId version steps)) ↔
      ∀ stored ∈ data, ∀ checked,
        stored.checkSearchConsistency size index pos resultId version monitor = .ok checked →
          ∀ ptr ∈ stored.ptrs, UnderRoot stored.pos size ptr.1 := by
  have stored_iff : ∀ stored ∈ data, _ := fun stored isStored =>
    @checkAndUpdate_returns C size pos resultId index version monitor stored searchKey steps fits
      pos_le inside (sound stored isStored)
  unfold updateMonitoring
  dsimp only
  cases data with
  | some stored =>
    have same : (if (monitor || config.mode = .contactMonitoring) = true then
        some (startMonitoring (some stored) index pos resultId version monitor)
        else some stored) = some stored := by
      split <;> rfl
    rw [same]
    refine (stored_iff stored rfl).trans ⟨?_, fun all => all stored rfl⟩
    rintro under _ ⟨⟩
    exact under
  | none =>
    refine ⟨fun _ => nofun, fun _ order => ?_⟩
    by_cases starts : (monitor || config.mode = .contactMonitoring) = true
    · rw [if_pos starts]
      refine (checkAndUpdate_returns fits pos_le inside (@startMonitoring_sound none pos resultId
        index version nofun pos_le (by omega) monitor)).mpr ?_ order
      intro checked isChecked ptr member
      cases List.mem_singleton.mp member
      exact underRoot_of_lt pos_le inside fits
    · rw [if_neg starts]
      trivial

end updateMonitoring

section search

variable (config : PublicConfig) (req : SlimSearchRequest) (res : FullSearchResponse C)
  (client : Client C) (distinguished : Option (LastTreeHead C)) (monitor : Bool) (now : ℕ)

/-- The numbers that each stage of a search needs when it is reached. -/
structure SearchInBounds : Prop where
  /-- The first position of the key lies in the log. -/
  position : ∀ index head proof, SearchRequested config req res index head proof →
    proof.pos < head.treeSize
  /-- The inclusion proof is evaluated in a tree of at most `2 ^ 63` entries. -/
  size : ∀ index head proof walk, SearchWalked config req res index head proof walk →
    walk.rest = [] → (proof.inclusion.mapM C.toHash).isSome → head.treeSize.toNat ≤ 2 ^ 63
  /-- The search key and the value can be committed to. -/
  lengths : ∀ index head proof walk root found step value,
    SearchFound config req res index head proof walk root found step value →
    req.searchKey.length < 2 ^ 16 ∧ value.length + 4 < 2 ^ 32
  /-- The pointers stored for the distinguished key lie under the root of the retained tree. -/
  pointers : ∀ index head proof walk root found step value prefixProof,
    SearchOpened config req res (client.searchContext req.searchKey distinguished) now index head
      proof walk root found step value prefixProof →
    req.searchKey = distinguishedKey → ∀ stored ∈ client.data req.searchKey, ∀ checked,
      stored.checkSearchConsistency (found.2 + 1) index proof.pos.toNat found.2
        prefixProof.counter monitor = .ok checked →
      ∀ ptr ∈ stored.ptrs, UnderRoot stored.pos (found.2 + 1) ptr.1

end search

section search

variable {req : SlimSearchRequest} {res : FullSearchResponse C} {client : Client C}
  {distinguished : Option (LastTreeHead C)} {order : PointerOrder}

theorem evaluateVrfProof_returns {proof : List UInt8} {key : VerifyingKey}
    {searchKey : List UInt8} :
    Returns (evaluateVrfProof (C := C) proof key searchKey) := by
  unfold evaluateVrfProof
  exact returns_ensure_bind.mpr fun _ => returns_okOr

theorem marshalUpdateValue_returns {value : List UInt8} : Returns (marshalUpdateValue value) := by
  unfold marshalUpdateValue
  split <;> trivial

theorem retainedSize_returns {searchKey : List UInt8} {resultId treeSize : ℕ}
    (inside : resultId < treeSize) (fits : treeSize < 2 ^ 64) :
    Returns (retainedSize searchKey resultId treeSize) := by
  unfold retainedSize
  split
  · rw [LogTree.u64_eq (by omega)]
    trivial
  · trivial

theorem SearchWalked.result_range {index : Index} {head : TreeHead} {proof : SearchProof C}
    {walk : SearchWalk C} (walked : SearchWalked config req res index head proof walk)
    {found : ℕ × ℕ} (isFound : walk.result = some found) :
    proof.pos.toNat ≤ found.2 ∧ found.2 < head.treeSize.toNat ∧
      found.1 + walk.rest.length < proof.steps.length :=
  (walkSearch_spec head.treeSize.toNat_lt walked.walked).2.result found isFound

theorem verifySearch_returns (sound : client.Sound) :
    (∀ order, Returns (verifySearch order config req res
        (client.searchContext req.searchKey distinguished) monitor now)) ↔
      SearchInBounds config req res client distinguished monitor now := by
  simp only [verifySearch, getProtoField, returns_bind, returns_okOr, okOr_eq_ok, expect_eq_ok,
    returns_ensure, ensure_eq_ok, marshalUpdateValue_eq_ok, walkSearch_returns (UInt64.toNat_lt _),
    true_and, forall_const, returns_pure, implies_true, and_true]
  constructor
  · intro returns
    -- Going down to a stage takes the values of the stages before it.
    have walks := fun order index head proof
        (requested : SearchRequested config req res index head proof) =>
      (returns order).2 index requested.vrf head requested.treeHead proof requested.search
    have evaluates := fun order index head proof walk
        (walked : SearchWalked config req res index head proof walk) =>
      (walks order index head proof walked.toSearchRequested).2 walk walked.walked
    have opens := fun order index head proof walk root found step value
        (isFound : SearchFound config req res index head proof walk root found step value) =>
      (((evaluates order index head proof walk isFound.toSearchWalked).2 root isFound.candidate
        found isFound.result).2 step isFound.isStep value isFound.isValue).2 _ ⟨isFound.short, rfl⟩
        isFound.opening
    refine ⟨?_, ?_, ?_, ?_⟩
    · intro index head proof requested
      exact (walks storedOrder index head proof requested).1
    · intro index head proof walk walked
      exact (candidateRoot_returns (walkSearch_spec head.treeSize.toNat_lt walked.walked).2).mp
        (evaluates storedOrder index head proof walk walked).1
    · intro index head proof walk root found step value isFound
      exact verifyCommitment_returns.mp
        (opens storedOrder index head proof walk root found step value isFound).1
    · intro index head proof walk root found step value prefixProof opened isDistinguished
      obtain ⟨pos_le, inside, _⟩ := opened.result_range opened.result
      have small := head.treeSize.toNat_lt
      have isSize : retainedSize req.searchKey found.2 head.treeSize.toNat =
          .ok (found.2 + 1) := by
        unfold retainedSize
        rw [if_pos isDistinguished]
        exact LogTree.u64_eq (by omega)
      have updates := fun order =>
        (((opens order index head proof walk root found step value opened.toSearchFound).2 true
          opened.commitment rfl).2 _ opened.verified).2 _ isSize prefixProof opened.isPrefix
      exact (updateMonitoring_returns (by omega) pos_le (Nat.lt_succ_self _)
        (sound.sound req.searchKey)).mp updates
  · intro bounds order
    refine ⟨evaluateVrfProof_returns, fun index vrf head isHead proof isProof => ?_⟩
    have requested : SearchRequested config req res index head proof := ⟨vrf, isHead, isProof⟩
    have small := head.treeSize.toNat_lt
    refine ⟨bounds.position index head proof requested, fun walk isWalk => ?_⟩
    have walked : SearchWalked config req res index head proof walk := ⟨requested, isWalk⟩
    refine ⟨(candidateRoot_returns (walkSearch_spec small isWalk).2).mpr
      (bounds.size index head proof walk walked), fun root candidate found isFound => ?_⟩
    obtain ⟨_, noRest, evaluated⟩ := bind_eq_ok.mp candidate
    obtain ⟨inclusion, isInclusion, _⟩ := bind_eq_ok.mp evaluated
    have noRest : walk.rest = [] := List.isEmpty_iff.mp (ensure_eq_ok.mp noRest)
    have sizeBound := bounds.size index head proof walk walked noRest
      (by rw [okOr_eq_ok.mp isInclusion]; rfl)
    obtain ⟨pos_le, inside, inSteps⟩ := walked.result_range isFound
    rw [noRest, List.length_nil, Nat.add_zero] at inSteps
    refine ⟨?_, fun step isStep value isValue => ⟨marshalUpdateValue_returns, ?_⟩⟩
    · rw [expect_some (List.getElem?_eq_getElem inSteps)]
      trivial
    rintro _ ⟨short, rfl⟩ opening
    have isFoundStage : SearchFound config req res index head proof walk root found step value :=
      ⟨walked, candidate, isFound, isStep, isValue, short, opening⟩
    refine ⟨verifyCommitment_returns.mpr
      (bounds.lengths index head proof walk root found step value isFoundStage), ?_⟩
    rintro _ commitment rfl
    refine ⟨verifyFullTreeHead_returns.mpr (.of_le ?_), fun accepted verified => ?_⟩
    · intro other isOther
      cases Option.some.inj (isHead.symm.trans isOther)
      exact sizeBound
    obtain ⟨received, sameRoot⟩ := verifyFullTreeHead_eq verified
    cases Option.some.inj (isHead.symm.trans received)
    obtain ⟨head, acceptedRoot⟩ := accepted
    cases sameRoot
    refine ⟨retainedSize_returns inside small, fun size isSize prefixProof isPrefix => ?_⟩
    have opened : SearchOpened config req res
        (client.searchContext req.searchKey distinguished) now index head proof walk acceptedRoot
        found step value prefixProof := ⟨isFoundStage, commitment, verified, isPrefix⟩
    obtain ⟨inSize, size_le⟩ := retainedSize_eq_ok inside isSize
    refine (updateMonitoring_returns (by dsimp only at small; omega) pos_le inSize
      (sound.sound req.searchKey)).mpr ?_ order
    intro stored isStored checked isChecked ptr member
    unfold retainedSize at isSize
    split at isSize
    · next isDistinguished =>
        obtain ⟨_, rfl⟩ := LogTree.u64_eq_ok.mp isSize
        exact bounds.pointers index head proof walk acceptedRoot found step value prefixProof opened
          isDistinguished stored isStored checked isChecked ptr member
    · next ordinary =>
        cases isSize
        -- The pointers of any other key lie in the tree seen before, and that has only grown.
        have inLast := sound.inside _ ordinary stored isStored ptr member
        have grown : client.treeSize ≤ head.treeSize.toNat := verifyFullTreeHead_le verified
        exact underRoot_of_lt ((sound.sound _ stored isStored).range ptr member).1
          (inLast.trans_le grown) small

end search

section process

variable {treeSize : ℕ} {monitoringData : List UInt8 → Option MonitoringData}
  {acc : MonitorProofAcc C} {key : MonitorKey} {proof : MonitorProof C}
  {pairs : List (MonitorKey × MonitorProof C)}

theorem processSteps_returns (data : MonitoringData) (pairs : List (ℕ × ProofStep C))
    (leaves : List (ℕ × C.Hash)) (steps : List (ℕ × ProofStep C)) :
    Returns (processSteps data pairs leaves steps) := by
  induction pairs generalizing leaves steps with
  | nil => trivial
  | cons pair rest ih =>
    rw [processSteps, returns_bind]
    refine ⟨evaluateStep_returns _ _ _, fun evaluated _ => ?_⟩
    dsimp only
    cases Entries.lookup pair.1 leaves with
    | none => exact ih _ _
    | some other =>
      dsimp only
      split
      · exact ih _ _
      · trivial

def EntryInBounds (treeSize : ℕ) (monitoringData : List UInt8 → Option MonitoringData)
    (key : MonitorKey) : Prop :=
  ∀ data ∈ monitoringData key.searchKey, key.entryPosition.toNat < treeSize ∧
    UnderRoot data.pos treeSize key.entryPosition.toNat

theorem process_returns (fits : treeSize < 2 ^ 64) :
    Returns (acc.process treeSize monitoringData key proof) ↔
      EntryInBounds treeSize monitoringData key := by
  simp only [MonitorProofAcc.process, EntryInBounds, returns_bind, returns_okOr, okOr_eq_ok,
    fullMonitoringPath_returns fits key.entryPosition.toNat_lt, returns_ensure,
    processSteps_returns, returns_pure, true_and, implies_true, and_true]
  rfl

theorem processAll_returns (fits : treeSize < 2 ^ 64) :
    Returns (processAll treeSize monitoringData pairs acc) ↔
      ∀ before key proof after reached, pairs = before ++ (key, proof) :: after →
        processAll treeSize monitoringData before acc = .ok reached →
        EntryInBounds treeSize monitoringData key := by
  induction pairs generalizing acc with
  | nil =>
    refine ⟨fun _ before key proof after reached split => ?_, fun _ => trivial⟩
    cases before <;> cases split
  | cons pair rest ih =>
    obtain ⟨first, firstProof⟩ := pair
    rw [processAll, returns_bind, process_returns fits]
    constructor
    · rintro ⟨inBounds, others⟩ before key proof after reached split processed
      cases before with
      | nil =>
        cases split
        exact inBounds
      | cons head before =>
        cases split
        obtain ⟨next, isNext, processed⟩ := bind_eq_ok.mp processed
        exact ih.mp (others next isNext) before key proof after reached rfl processed
    · intro bounds
      refine ⟨bounds [] first firstProof rest acc rfl rfl, fun next isNext => ih.mpr ?_⟩
      intro before key proof after reached split processed
      refine bounds ((first, firstProof) :: before) key proof after reached
        (by rw [split]; rfl) ?_
      rw [processAll, isNext]
      exact processed

/-- The leaves that were collected are a map of positions in the tree. -/
structure LeavesInside (treeSize : ℕ) (leaves : List (ℕ × C.Hash)) : Prop where
  inside : ∀ leaf ∈ leaves, leaf.1 < treeSize
  distinct : Entries.Distinct leaves

theorem processSteps_leaves {data : MonitoringData} {pairs : List (ℕ × ProofStep C)}
    {leaves : List (ℕ × C.Hash)} {steps : List (ℕ × ProofStep C)}
    {result : List (ℕ × C.Hash) × List (ℕ × ProofStep C)}
    (leavesInside : LeavesInside treeSize leaves)
    (inside : ∀ pair ∈ pairs, pair.1 < treeSize)
    (processed : processSteps data pairs leaves steps = .ok result) :
    LeavesInside treeSize result.1 := by
  induction pairs generalizing leaves steps with
  | nil =>
    cases processed
    exact leavesInside
  | cons pair rest ih =>
    have ih := fun leaves steps known => @ih leaves steps known
      fun other member => inside other (.tail _ member)
    obtain ⟨⟨_, leaf⟩, _, processed⟩ := bind_eq_ok.mp processed
    dsimp only at processed
    cases known : Entries.lookup pair.1 leaves with
    | some other =>
      rw [known] at processed
      dsimp only at processed
      split at processed
      · exact ih _ _ leavesInside processed
      · cases processed
    | none =>
      rw [known] at processed
      refine ih _ _ ⟨?_, leavesInside.distinct.insert _ _⟩ processed
      intro entry member
      rcases Entries.mem_insert.mp member with rfl | ⟨isOld, _⟩
      · exact inside pair List.mem_cons_self
      · exact leavesInside.inside entry isOld

theorem process_leaves {acc next : MonitorProofAcc C} (fits : treeSize < 2 ^ 64)
    (leavesInside : LeavesInside treeSize acc.leaves)
    (processed : acc.process treeSize monitoringData key proof = .ok next) :
    LeavesInside treeSize next.leaves := by
  obtain ⟨data, _, processed⟩ := bind_eq_ok.mp processed
  obtain ⟨entries, isPath, processed⟩ := bind_eq_ok.mp processed
  obtain ⟨_, _, processed⟩ := bind_eq_ok.mp processed
  obtain ⟨⟨leaves, steps⟩, isProcessed, processed⟩ := bind_eq_ok.mp processed
  cases processed
  refine processSteps_leaves leavesInside ?_ isProcessed
  intro pair member
  exact fullMonitoringPath_lt fits key.entryPosition.toNat_lt isPath pair.1
    (List.of_mem_zip member).1

theorem processAll_leaves {acc result : MonitorProofAcc C} (fits : treeSize < 2 ^ 64)
    (leavesInside : LeavesInside treeSize acc.leaves)
    (processed : processAll treeSize monitoringData pairs acc = .ok result) :
    LeavesInside treeSize result.leaves := by
  induction pairs generalizing acc with
  | nil =>
    cases processed
    exact leavesInside
  | cons pair rest ih =>
    obtain ⟨next, isNext, processed⟩ := bind_eq_ok.mp processed
    exact ih (process_leaves fits leavesInside isNext) processed

end process

theorem monitoredRoot_returns {leaves : List (ℕ × C.Hash)} {treeSize : ℕ}
    {inclusion : List C.Hash} (leavesInside : LeavesInside treeSize leaves) :
    Returns (monitoredRoot leaves treeSize inclusion) ↔ (leaves ≠ [] → treeSize ≤ 2 ^ 63) := by
  unfold monitoredRoot
  by_cases empty : leaves = []
  · rw [if_pos (by rw [empty]; rfl)]
    refine ⟨fun _ notEmpty => absurd empty notEmpty, fun _ => ?_⟩
    split <;> trivial
  · rw [if_neg (by simpa using empty)]
    dsimp only
    rw [returns_mapFailure,
      evaluateSorted_returns leavesInside.distinct empty leavesInside.inside]
    exact ⟨fun small _ => small, fun small => small empty⟩

section updateAll

variable {consistency : Option Consistency} {treeSize : ℕ}
  {data : List UInt8 → Option MonitoringData}

/-- The pointers that are updated lie under the root of the retained tree. -/
def PointersInBounds (consistency : Option Consistency)
    (data : List UInt8 → Option MonitoringData) (key : MonitorKey) : Prop :=
  key.searchKey = distinguishedKey → ∀ last ∈ consistency.bind (·.last),
    ∀ stored ∈ data key.searchKey, ∀ ptr ∈ stored.ptrs, UnderRoot stored.pos last.toNat ptr.1

/-- What is asked of the pointers of the other keys. -/
structure PointersInside (treeSize : ℕ) (data : List UInt8 → Option MonitoringData) : Prop where
  sound : ∀ searchKey, ∀ stored ∈ data searchKey, stored.Sound
  inside : ∀ searchKey, searchKey ≠ distinguishedKey → ∀ stored ∈ data searchKey,
    ∀ ptr ∈ stored.ptrs, ptr.1 < treeSize

theorem pointersInBounds_iff {key : MonitorKey} (steps : List (ℕ × ProofStep C))
    (fits : treeSize < 2 ^ 64) (pointers : PointersInside treeSize data) :
    PointersInBounds consistency data key ↔
      ∀ size, monitoredSize key consistency treeSize = .ok size →
        ∀ stored ∈ data key.searchKey, ∀ order,
          Returns (stored.update order key.searchKey size steps) := by
  unfold PointersInBounds monitoredSize
  constructor
  · intro bounds size isSize stored isStored
    have sound := pointers.sound _ stored isStored
    split at isSize
    · next isDistinguished =>
        obtain ⟨last, isLast, isSize⟩ := bind_eq_ok.mp isSize
        cases isSize
        exact (update_returns last.toNat_lt sound.range).mpr
          (bounds isDistinguished last (okOr_eq_ok.mp isLast) stored isStored)
    · next ordinary =>
        cases isSize
        refine (update_returns fits sound.range).mpr fun ptr member => ?_
        exact underRoot_of_lt (sound.range ptr member).1
          (pointers.inside _ ordinary stored isStored ptr member) fits
  · intro returns isDistinguished last isLast stored isStored
    have sound := pointers.sound _ stored isStored
    refine (update_returns last.toNat_lt sound.range).mp
      (returns last.toNat ?_ stored isStored)
    rw [if_pos isDistinguished]
    change (okOr (consistency.bind (·.last)) _ >>= _) = _
    rw [okOr_eq_ok.mpr isLast]
    rfl

variable {order : PointerOrder} {updates : List UInt8 → Option MonitoringData}
  {pairs : List (MonitorKey × List (ℕ × ProofStep C))}

theorem updateAll_append {before after : List (MonitorKey × List (ℕ × ProofStep C))} :
    updateAll order consistency treeSize data (before ++ after) updates =
      updateAll order consistency treeSize data before updates >>=
        updateAll order consistency treeSize data after := by
  induction before generalizing updates with
  | nil => rfl
  | cons pair rest ih =>
    rw [List.cons_append, updateAll, updateAll, bind_assoc]
    congr 1
    funext size
    cases data pair.1.searchKey with
    | none => exact ih
    | some stored =>
      dsimp only
      rw [bind_assoc]
      congr 1
      funext updated
      exact ih

theorem updateAll_congr {order other : PointerOrder}
    (same : ∀ pair ∈ pairs, order.order pair.1.searchKey = other.order pair.1.searchKey) :
    updateAll order consistency treeSize data pairs updates =
      updateAll other consistency treeSize data pairs updates := by
  induction pairs generalizing updates with
  | nil => rfl
  | cons pair rest ih =>
    have ih := fun updates => @ih updates fun other member => same other (.tail _ member)
    have here := same pair List.mem_cons_self
    rw [updateAll, updateAll]
    congr 1
    funext size
    cases data pair.1.searchKey with
    | none => exact ih _
    | some stored =>
      dsimp only
      unfold update
      rw [here]
      congr 1
      funext updated
      exact ih _

def PointerOrder.on (order other : PointerOrder) (searchKey : List UInt8) : PointerOrder where
  order key := if key = searchKey then other.order key else order.order key
  perm := by
    intro key ptrs
    split
    · exact other.perm key ptrs
    · exact order.perm key ptrs

theorem updateAll_returns_of (fits : treeSize < 2 ^ 64) (pointers : PointersInside treeSize data)
    (bounds : ∀ before key steps after reached, pairs = before ++ (key, steps) :: after →
      updateAll order consistency treeSize data before updates = .ok reached →
      PointersInBounds consistency data key) :
    Returns (updateAll order consistency treeSize data pairs updates) := by
  induction pairs generalizing updates with
  | nil => trivial
  | cons pair rest ih =>
    obtain ⟨key, steps⟩ := pair
    have here := (pointersInBounds_iff steps fits pointers).mp
      (bounds [] key steps rest updates rfl rfl)
    have next : ∀ updated, (∀ tail, updateAll order consistency treeSize data
        ((key, steps) :: tail) updates =
          updateAll order consistency treeSize data tail updated) →
        Returns (updateAll order consistency treeSize data rest updated) := by
      intro updated moves
      refine ih fun before other otherSteps after reached split isReached => ?_
      exact bounds ((key, steps) :: before) other otherSteps after reached
        (by rw [split]; rfl) ((moves before).trans isReached)
    rw [updateAll, returns_bind]
    refine ⟨?_, fun size isSize => ?_⟩
    · unfold monitoredSize
      split
      · exact returns_okOr_bind.mpr fun _ _ => trivial
      · trivial
    cases isStored : data key.searchKey with
    | none =>
      refine next updates fun tail => ?_
      rw [updateAll, isSize]
      simp only [bind, Except.bind, isStored]
    | some stored =>
      dsimp only
      refine returns_bind.mpr
        ⟨here size isSize stored isStored order, fun updated isUpdated => next _ ?_⟩
      intro tail
      rw [updateAll, isSize]
      simp only [bind, Except.bind, isStored]
      change (stored.update order key.searchKey size steps >>= _) = _
      rw [isUpdated]
      rfl

theorem updateAll_returns (fits : treeSize < 2 ^ 64) (pointers : PointersInside treeSize data) :
    (∀ order, Returns (updateAll order consistency treeSize data pairs updates)) ↔
      ∀ before key steps after order reached, pairs = before ++ (key, steps) :: after →
        updateAll order consistency treeSize data before updates = .ok reached →
        PointersInBounds consistency data key := by
  constructor
  · rintro returns before key steps after order reached rfl isReached
    rw [pointersInBounds_iff steps fits pointers]
    intro size isSize stored isStored
    -- Either the key was updated before, or its pointers may come in any order now.
    by_cases repeated : ∃ pair ∈ before, pair.1.searchKey = key.searchKey
    · obtain ⟨pair, member, sameKey⟩ := repeated
      obtain ⟨first, second, rfl⟩ := List.append_of_mem member
      rw [updateAll_append] at isReached
      obtain ⟨between, _, isReached⟩ := bind_eq_ok.mp isReached
      obtain ⟨pairSize, isPairSize, isReached⟩ := bind_eq_ok.mp isReached
      have sameSize : monitoredSize pair.1 consistency treeSize =
          monitoredSize key consistency treeSize := by
        unfold monitoredSize
        rw [sameKey]
      cases Except.ok.inj ((sameSize.symm.trans isPairSize).symm.trans isSize)
      rw [sameKey, isStored] at isReached
      obtain ⟨updated, isUpdated, _⟩ := bind_eq_ok.mp isReached
      have sound := pointers.sound _ stored isStored
      have small := (monitoredSize_eq_ok fits isSize).1
      exact (update_returns small sound.range).mpr
        (underRoot_of_update small sound.range isUpdated)
    · intro other
      have fresh : ∀ pair ∈ before, (order.on other key.searchKey).order pair.1.searchKey =
          order.order pair.1.searchKey := by
        intro pair member
        exact if_neg fun same => repeated ⟨pair, member, same⟩
      have returns := returns (order.on other key.searchKey)
      rw [updateAll_append, updateAll_congr fresh, isReached] at returns
      have returns := (returns_bind.mp returns).2 reached rfl
      have returns := (returns_bind.mp returns).2 size isSize
      rw [isStored] at returns
      have returns := (returns_bind.mp returns).1
      have isOther : (order.on other key.searchKey).order key.searchKey =
          other.order key.searchKey := if_pos rfl
      unfold update at returns ⊢
      rwa [isOther] at returns
  · intro bounds order
    exact updateAll_returns_of fits pointers fun before key steps after reached split isReached =>
      bounds before key steps after order reached split isReached

end updateAll

section monitor

variable (config : PublicConfig) (req : MonitorRequest) (res : MonitorResponse C)
  (client : Client C) (distinguished : LastTreeHead C) (now : ℕ)

/-- The numbers that each stage of a monitoring request needs when it is reached. -/
structure MonitorInBounds : Prop where
  entries : ∀ fullTreeHead head before key proof after acc,
    MonitorRequested req res fullTreeHead head →
    req.keys.zip res.proofs = before ++ (key, proof) :: after →
    processAll head.treeSize.toNat client.data before ⟨[], []⟩ = .ok acc →
    EntryInBounds head.treeSize.toNat client.data key
  /-- The inclusion proof is evaluated in a tree of at most `2 ^ 63` entries. -/
  size : ∀ fullTreeHead head acc,
    MonitorProcessed req res (client.monitorContext distinguished) fullTreeHead head acc →
    (res.inclusion.mapM C.toHash).isSome → acc.leaves ≠ [] → head.treeSize.toNat ≤ 2 ^ 63
  /-- So are the consistency proofs. -/
  heads : ∀ fullTreeHead head acc inclusion root,
    MonitorEvaluated req res (client.monitorContext distinguished) fullTreeHead head acc
      inclusion root →
    HeadInBounds config fullTreeHead root client.lastTreeHead (some distinguished) now
  /-- The pointers stored for the distinguished key lie under the root of the retained tree. -/
  pointers : ∀ fullTreeHead head acc inclusion root before key steps after order updates,
    MonitorVerified req res (client.monitorContext distinguished) config now fullTreeHead head acc
      inclusion root →
    req.keys.zip acc.entries = before ++ (key, steps) :: after →
    updateAll order req.consistency head.treeSize.toNat client.data before (fun _ => none) =
      .ok updates →
    PointersInBounds req.consistency client.data key

end monitor

section monitor

variable {req : MonitorRequest} {res : MonitorResponse C} {client : Client C}
  {distinguished : LastTreeHead C}

theorem Client.Sound.pointersInside (sound : client.Sound) {treeSize : ℕ}
    (grown : client.treeSize ≤ treeSize) : PointersInside treeSize client.data where
  sound := sound.sound
  inside searchKey ordinary stored isStored ptr member :=
    (sound.inside searchKey ordinary stored isStored ptr member).trans_le grown

theorem MonitorProcessed.leavesInside {fullTreeHead : FullTreeHead C} {head : TreeHead}
    {acc : MonitorProofAcc C}
    (processed : MonitorProcessed req res (client.monitorContext distinguished) fullTreeHead head
      acc) : LeavesInside head.treeSize.toNat acc.leaves := by
  have none : LeavesInside head.treeSize.toNat (⟨[], []⟩ : MonitorProofAcc C).leaves :=
    ⟨fun _ isLeaf => absurd isLeaf List.not_mem_nil, List.nodup_nil⟩
  exact processAll_leaves head.treeSize.toNat_lt none processed.processed

theorem verifyMonitor_returns (sound : client.Sound) :
    (∀ order, Returns (verifyMonitor order config req res (client.monitorContext distinguished)
        now)) ↔ MonitorInBounds config req res client distinguished now := by
  simp only [verifyMonitor, getProtoField, getHashProof, returns_bind, returns_okOr, okOr_eq_ok,
    returns_ensure, ensure_eq_ok, processAll_returns (UInt64.toNat_lt _),
    verifyFullTreeHead_returns, true_and, forall_const, returns_pure, implies_true, and_true]
  constructor
  · intro returns
    -- Going down to a stage takes the values of the stages before it.
    have processes := fun order fullTreeHead head
        (requested : MonitorRequested req res fullTreeHead head) =>
      returns order requested.count fullTreeHead requested.full head requested.treeHead
    have evaluates := fun order fullTreeHead head acc
        (processed : MonitorProcessed req res (client.monitorContext distinguished) fullTreeHead
          head acc) =>
      (processes order fullTreeHead head processed.toMonitorRequested).2 acc processed.processed
    have verifies := fun order fullTreeHead head acc inclusion root
        (evaluated : MonitorEvaluated req res (client.monitorContext distinguished) fullTreeHead
          head acc inclusion root) =>
      (evaluates order fullTreeHead head acc evaluated.toMonitorProcessed inclusion
        evaluated.isInclusion).2 root evaluated.candidate
    refine ⟨?_, ?_, ?_, ?_⟩
    · intro fullTreeHead head before key proof after acc requested
      exact (processes storedOrder fullTreeHead head requested).1 before key proof after acc
    · intro fullTreeHead head acc processed isInclusion
      obtain ⟨inclusion, isInclusion⟩ := Option.isSome_iff_exists.mp isInclusion
      exact (monitoredRoot_returns processed.leavesInside).mp
        (evaluates storedOrder fullTreeHead head acc processed inclusion isInclusion).1
    · intro fullTreeHead head acc inclusion root evaluated
      exact (verifies storedOrder fullTreeHead head acc inclusion root evaluated).1
    · intro fullTreeHead head acc inclusion root before key steps after order updates verified
      have grown : client.treeSize ≤ head.treeSize.toNat := verifyFullTreeHead_le verified.verified
      have updating := fun order => (verifies order fullTreeHead head acc inclusion root
        verified.toMonitorEvaluated).2 _ verified.verified
      exact (updateAll_returns head.treeSize.toNat_lt (sound.pointersInside grown)).mp updating
        before key steps after order updates
  · intro bounds order count fullTreeHead isFull head isHead
    have requested : MonitorRequested req res fullTreeHead head := ⟨count, isFull, isHead⟩
    refine ⟨fun before key proof after reached =>
      bounds.entries fullTreeHead head before key proof after reached requested,
      fun acc isAcc inclusion isInclusion => ?_⟩
    have processed : MonitorProcessed req res (client.monitorContext distinguished) fullTreeHead
        head acc := ⟨requested, isAcc⟩
    refine ⟨(monitoredRoot_returns processed.leavesInside).mpr
      (bounds.size fullTreeHead head acc processed (by rw [isInclusion]; rfl)),
      fun root candidate => ?_⟩
    have evaluated : MonitorEvaluated req res (client.monitorContext distinguished) fullTreeHead
        head acc inclusion root := ⟨processed, isInclusion, candidate⟩
    refine ⟨bounds.heads fullTreeHead head acc inclusion root evaluated,
      fun accepted isAccepted => ?_⟩
    obtain ⟨received, sameRoot⟩ := verifyFullTreeHead_eq isAccepted
    cases Option.some.inj (isHead.symm.trans received)
    obtain ⟨head, acceptedRoot⟩ := accepted
    cases sameRoot
    have verified : MonitorVerified req res (client.monitorContext distinguished) config now
        fullTreeHead head acc inclusion acceptedRoot := ⟨evaluated, isAccepted⟩
    have grown : client.treeSize ≤ head.treeSize.toNat := verifyFullTreeHead_le isAccepted
    refine (updateAll_returns head.treeSize.toNat_lt (sound.pointersInside grown)).mpr ?_ order
    intro before key steps after anyOrder updates
    exact bounds.pointers fullTreeHead head acc inclusion acceptedRoot before key steps after
      anyOrder updates verified

end monitor

/-- From every state of a run the calls return exactly within their bounds. -/
theorem calls_return_iff {config : PublicConfig} {client : Client C}
    (run : Client.Reaches config Client.empty client) :
    (∀ req res distinguished monitor now,
      (∀ order, Returns (verifySearch order config req res
          (client.searchContext req.searchKey distinguished) monitor now)) ↔
        SearchInBounds config req res client distinguished monitor now) ∧
      ∀ req res distinguished now,
        (∀ order, Returns (verifyMonitor order config req res
            (client.monitorContext distinguished) now)) ↔
          MonitorInBounds config req res client distinguished now := by
  have sound := run.sound Client.empty_sound
  exact ⟨fun _ _ _ _ _ => verifySearch_returns sound, fun _ _ _ _ => verifyMonitor_returns sound⟩

/-- Hashes with a single value, under which every signature and every VRF proof is valid. -/
def trustingCrypto : Crypto where
  Hash := Unit
  decEqHash := inferInstance
  Bytes := Unit
  toHash := some
  sha256 _ := ()
  hmacSha256 _ _ := ()
  verify _ _ _ := true
  proofToHash _ _ _ := some (Vector.replicate 32 0)

def managedConfig : PublicConfig :=
  ⟨.thirdPartyManagement [Vector.replicate 32 0], Vector.replicate 32 0, Vector.replicate 32 0⟩

def emptyTreeResponse : FullSearchResponse trustingCrypto :=
  ⟨⟨List.replicate 80 0, some ⟨0, [], []⟩, [], none⟩, ⟨some ⟨0, 0, []⟩, [], [], []⟩⟩

def managedTreeHead : TreeHead := ⟨1, 0, [⟨List.replicate 32 0, List.replicate 64 0⟩]⟩

/-- The head of a log with one more entry. -/
def grownTreeHead : TreeHead := { managedTreeHead with treeSize := 2 }

def firstMonitorResponse : MonitorResponse trustingCrypto :=
  ⟨some ⟨some managedTreeHead, [], [], []⟩, [], [()]⟩

theorem evaluateStep_trusting (index : Index) (pos : ℕ) {proof : List trustingCrypto.Bytes}
    (length : proof.length = 8 * 32) (counter : UInt32) (commitment : trustingCrypto.Bytes) :
    evaluateStep index pos ⟨some ⟨proof, counter⟩, commitment⟩ = .ok (counter, ()) := by
  have loop : ∀ (value : trustingCrypto.Hash) (proof : List trustingCrypto.Bytes),
      PrefixTree.evaluateLoop index value proof = .ok () := by
    intro value proof
    induction proof generalizing value with
    | nil => rfl
    | cons element rest ih => exact ih _
  refine bind_eq_ok.mpr ⟨⟨proof, counter⟩, rfl, ?_⟩
  refine bind_eq_ok.mpr ⟨(), ?_, rfl⟩
  exact bind_eq_ok.mpr ⟨(), ensure_eq_ok.mpr length, loop _ _⟩

/-- The step for the only entry of a log. -/
def onlyStep : ProofStep trustingCrypto := ⟨some ⟨List.replicate 256 (), 0⟩, ()⟩

def oneEntryResponse : FullSearchResponse trustingCrypto :=
  ⟨⟨List.replicate 80 0, some ⟨0, [onlyStep], []⟩, List.replicate 16 0, some []⟩,
    ⟨some managedTreeHead, [], [], []⟩⟩

theorem searchOpened_oneEntry {context : SearchContext trustingCrypto}
    (verified : verifyFullTreeHead managedConfig oneEntryResponse.treeHead ()
      context.lastTreeHead context.lastDistinguishedTreeHead 0 = .ok (managedTreeHead, ())) :
    SearchOpened managedConfig ⟨[1], none⟩ oneEntryResponse context 0 (Vector.replicate 32 0)
      managedTreeHead ⟨0, [onlyStep], []⟩ ⟨some (0, 0), [(0, ())], [(0, onlyStep)], []⟩ () (0, 0)
      onlyStep [] ⟨List.replicate 256 (), 0⟩ where
  vrf := rfl
  treeHead := rfl
  search := rfl
  walked := walkSearch_single (evaluateStep_trusting _ _ List.length_replicate _ _)
  candidate := candidateRoot_single
  result := rfl
  isStep := rfl
  isValue := rfl
  short := by decide
  opening := rfl
  commitment := rfl
  verified := verified
  isPrefix := rfl

/-- After an accepted response a search is accepted in turn, so it is within the bounds. -/
theorem calls_return_iff_oneEntry :
    ∃ client : Client trustingCrypto, client.lastTreeHead.isSome ∧
      (∀ order, Returns (verifySearch order managedConfig ⟨[1], none⟩ oneEntryResponse
        (client.searchContext [1] none) false 0)) ∧
      SearchInBounds managedConfig ⟨[1], none⟩ oneEntryResponse client none false 0 := by
  have accepted : verifyMonitor storedOrder managedConfig ⟨[], none⟩ firstMonitorResponse
      (Client.empty.monitorContext (managedTreeHead, ())) 0 =
        .ok ⟨managedTreeHead, (), fun _ => none⟩ := by
    rfl
  let client : Client trustingCrypto :=
    Client.empty.afterMonitor ⟨managedTreeHead, (), fun _ => none⟩
  have run : Client.Reaches managedConfig Client.empty client := .single (.monitor accepted)
  refine ⟨client, rfl, ?_⟩
  rw [← (calls_return_iff run).1, and_self]
  intro order
  rw [verifySearch_of_opened (searchOpened_oneEntry rfl) rfl rfl]
  trivial

/-- A search proof that starts in an empty tree makes the client panic. -/
theorem verifySearch_emptyTree_not_returns :
    ¬Returns (verifySearch storedOrder managedConfig ⟨[1], none⟩ emptyTreeResponse
      (Client.empty.searchContext [1] none) false 0) := by
  intro returns
  exact returns

end LegacySignal.KeyTransparency
