import LegacySignal.KeyTransparency.Verify

/-!
# The stages of a call

How far a search or a monitoring request has come, and with which values. A call
that is accepted has gone through all stages.
-/

namespace LegacySignal.KeyTransparency

open Run
open Result (bind_eq_ok)

variable {C : Crypto}

section search

variable (config : PublicConfig) (req : SlimSearchRequest) (res : FullSearchResponse C)

/-- The VRF proof is valid and the parts of the response are present. -/
structure SearchRequested (index : Index) (head : TreeHead) (proof : SearchProof C) : Prop where
  vrf : evaluateVrfProof (C := C) res.condensed.vrfProof config.vrfKey req.searchKey = .ok index
  treeHead : res.treeHead.treeHead = some head
  search : res.condensed.search = some proof

/-- The guide has gone through steps of the proof. -/
structure SearchWalked (index : Index) (head : TreeHead) (proof : SearchProof C)
    (walk : SearchWalk C) : Prop extends SearchRequested config req res index head proof where
  walked : walkSearch index req.version proof head.treeSize.toNat = .ok walk

/-- There is a candidate root and a step with the result, and the commitment is to be opened. -/
structure SearchFound (index : Index) (head : TreeHead) (proof : SearchProof C)
    (walk : SearchWalk C) (root : C.Hash) (found : ℕ × ℕ) (step : ProofStep C)
    (value : List UInt8) : Prop extends SearchWalked config req res index head proof walk where
  candidate : candidateRoot walk proof head.treeSize.toNat = .ok root
  result : walk.result = some found
  isStep : proof.steps[found.1]? = some step
  isValue : res.condensed.value = some value
  short : value.length < 2 ^ 32
  opening : res.condensed.opening.length = 16

variable (context : SearchContext C) (now : ℕ)

structure SearchOpened (index : Index) (head : TreeHead) (proof : SearchProof C)
    (walk : SearchWalk C) (root : C.Hash) (found : ℕ × ℕ) (step : ProofStep C)
    (value : List UInt8) (prefixProof : PrefixProof C) : Prop
    extends SearchFound config req res index head proof walk root found step value where
  commitment : verifyCommitment req.searchKey step.commitment
    (bigEndian 4 value.length ++ value) res.condensed.opening = .ok true
  verified : verifyFullTreeHead config res.treeHead root context.lastTreeHead
    context.lastDistinguishedTreeHead now = .ok (head, root)
  isPrefix : step.prefixProof = some prefixProof

end search

theorem marshalUpdateValue_eq_ok {value marshalled : List UInt8} :
    marshalUpdateValue value = .ok marshalled ↔
      value.length < 2 ^ 32 ∧ bigEndian 4 value.length ++ value = marshalled := by
  unfold marshalUpdateValue
  split
  · next long =>
      refine ⟨nofun, ?_⟩
      rintro ⟨short, _⟩
      omega
  · next short =>
      exact ⟨fun same => ⟨by omega, Except.ok.inj same⟩, fun same => congrArg Except.ok same.2⟩

variable {config : PublicConfig} {root : C.Hash} {now : ℕ} {order : PointerOrder}
  {req : SlimSearchRequest} {res : FullSearchResponse C} {context : SearchContext C}
  {monitor : Bool}

theorem verifyFullTreeHead_eq {fullTreeHead : FullTreeHead C}
    {last distinguished : Option (LastTreeHead C)} {accepted : LastTreeHead C}
    (verified : verifyFullTreeHead config fullTreeHead root last distinguished now =
      .ok accepted) :
    fullTreeHead.treeHead = some accepted.1 ∧ accepted.2 = root := by
  simp only [verifyFullTreeHead, getProtoField, bind_eq_ok, okOr_eq_ok, pure, Except.pure,
    Except.ok.injEq] at verified
  rcases verified with ⟨treeHead, isHead, _, _, _, _, _, _, _, _, _, _, _, _, _, _, _, _, rfl⟩
  exact ⟨isHead, rfl⟩

theorem verifySearch_eq_ok {update : SearchStateUpdate C}
    (accepted : verifySearch order config req res context monitor now = .ok update) :
    ∃ index proof walk found step value prefixProof size,
      SearchOpened config req res context now index update.treeHead proof walk update.treeRoot
          found step value prefixProof ∧
        retainedSize req.searchKey found.2 update.treeHead.treeSize.toNat = .ok size ∧
        updateMonitoring order req.searchKey context.data config monitor size index
          proof.pos.toNat found.2 prefixProof.counter walk.steps = .ok update.monitoringData := by
  simp only [verifySearch, getProtoField, bind_eq_ok, okOr_eq_ok, expect_eq_ok, ensure_eq_ok,
    marshalUpdateValue_eq_ok, exists_const, pure, Except.pure, Except.ok.injEq] at accepted
  rcases accepted with ⟨index, vrf, treeHead, isHead, proof, isProof, walk, walked, root, candidate,
    found, isFound, step, isStep, value, isValue, _, ⟨short, rfl⟩, opening, _, commitment, rfl,
    head, verified, size, isSize, prefixProof, isPrefix, data, isData, rfl⟩
  obtain ⟨received, rfl⟩ := verifyFullTreeHead_eq verified
  cases Option.some.inj (isHead.symm.trans received)
  exact ⟨index, proof, walk, found, step, value, prefixProof, size,
    ⟨⟨⟨⟨vrf, isHead, isProof⟩, walked⟩, candidate, isFound, isStep, isValue, short, opening⟩,
      commitment, verified, isPrefix⟩, isSize, isData⟩

theorem verifySearch_of_opened {index : Index} {head : TreeHead} {proof : SearchProof C}
    {walk : SearchWalk C} {found : ℕ × ℕ} {step : ProofStep C} {value : List UInt8}
    {prefixProof : PrefixProof C} {size : ℕ} {data : Option MonitoringData}
    (opened : SearchOpened config req res context now index head proof walk root found step value
      prefixProof) (isSize : retainedSize req.searchKey found.2 head.treeSize.toNat = .ok size)
    (updated : updateMonitoring order req.searchKey context.data config monitor size index
      proof.pos.toNat found.2 prefixProof.counter walk.steps = .ok data) :
    verifySearch order config req res context monitor now = .ok ⟨head, root, data⟩ := by
  simp only [verifySearch, getProtoField, bind_eq_ok, okOr_eq_ok, expect_eq_ok, ensure_eq_ok,
    marshalUpdateValue_eq_ok, exists_const]
  exact ⟨index, opened.vrf, head, opened.treeHead, proof, opened.search, walk, opened.walked, root,
    opened.candidate, found, opened.result, step, opened.isStep, value, opened.isValue, _,
    ⟨opened.short, rfl⟩, opened.opening, true, opened.commitment, rfl, (head, root),
    opened.verified, size, isSize, prefixProof, opened.isPrefix, data, updated, rfl⟩

section monitor

variable (req : MonitorRequest) (res : MonitorResponse C)

/-- The parts of the response are present, with one proof for each key. -/
structure MonitorRequested (fullTreeHead : FullTreeHead C) (head : TreeHead) : Prop where
  count : req.keys.length = res.proofs.length
  full : res.treeHead = some fullTreeHead
  treeHead : fullTreeHead.treeHead = some head

variable (context : MonitorContext C)

structure MonitorProcessed (fullTreeHead : FullTreeHead C) (head : TreeHead)
    (acc : MonitorProofAcc C) : Prop extends MonitorRequested req res fullTreeHead head where
  processed : processAll head.treeSize.toNat context.data (req.keys.zip res.proofs) ⟨[], []⟩ =
    .ok acc

structure MonitorEvaluated (fullTreeHead : FullTreeHead C) (head : TreeHead)
    (acc : MonitorProofAcc C) (inclusion : List C.Hash) (root : C.Hash) : Prop
    extends MonitorProcessed req res context fullTreeHead head acc where
  isInclusion : res.inclusion.mapM C.toHash = some inclusion
  candidate : monitoredRoot acc.leaves head.treeSize.toNat inclusion = .ok root

variable (config : PublicConfig) (now : ℕ)

structure MonitorVerified (fullTreeHead : FullTreeHead C) (head : TreeHead)
    (acc : MonitorProofAcc C) (inclusion : List C.Hash) (root : C.Hash) : Prop
    extends MonitorEvaluated req res context fullTreeHead head acc inclusion root where
  verified : verifyFullTreeHead config fullTreeHead root context.lastTreeHead
    (some context.lastDistinguishedTreeHead) now = .ok (head, root)

end monitor

theorem verifyMonitor_eq_ok {req : MonitorRequest} {res : MonitorResponse C}
    {context : MonitorContext C} {update : MonitorStateUpdate C}
    (accepted : verifyMonitor order config req res context now = .ok update) :
    ∃ fullTreeHead acc inclusion,
      MonitorVerified req res context config now fullTreeHead update.treeHead acc inclusion
          update.treeRoot ∧
        updateAll order req.consistency update.treeHead.treeSize.toNat context.data
          (req.keys.zip acc.entries) (fun _ => none) = .ok update.monitoringData := by
  simp only [verifyMonitor, getProtoField, getHashProof, bind_eq_ok, okOr_eq_ok, ensure_eq_ok,
    exists_const, pure, Except.pure, Except.ok.injEq] at accepted
  rcases accepted with ⟨count, fullTreeHead, isFull, treeHead, isHead, acc, processed, inclusion,
    isInclusion, root, candidate, head, verified, updates, updated, rfl⟩
  obtain ⟨received, rfl⟩ := verifyFullTreeHead_eq verified
  cases Option.some.inj (isHead.symm.trans received)
  exact ⟨fullTreeHead, acc, inclusion,
    ⟨⟨⟨⟨count, isFull, isHead⟩, processed⟩, isInclusion, candidate⟩, verified⟩, updated⟩

end LegacySignal.KeyTransparency
