import LegacySignal.KeyTransparency.Guide
import LegacySignal.KeyTransparency.LogTree
import LegacySignal.Library.Entries

/-!
# Verification of key transparency responses

`verify.rs`, with the prefix tree of `prefix.rs` and the commitments of
`commitments.rs`: the checks on the responses to searches and to monitoring
requests, and what the client stores afterwards.
-/

namespace LegacySignal.KeyTransparency

open Run Entries

variable {C : Crypto}

def distinguishedKey : List UInt8 :=
  [0x64, 0x69, 0x73, 0x74, 0x69, 0x6e, 0x67, 0x75, 0x69, 0x73, 0x68, 0x65, 0x64]

def getProtoField {Value : Type} (field : Option Value) (name : String) : Verification Value :=
  okOr field (.requiredFieldMissing name)

def getHashProof (proof : List C.Bytes) : Verification (List C.Hash) :=
  okOr (proof.mapM C.toHash) (.badData "proof element is wrong size")

def malformedProof : Error := .verificationFailed "Malformed proof"

namespace PrefixTree

def leafHash (key : Index) (ctr : UInt32) (pos : ℕ) : C.Hash :=
  C.sha256 (bytes [0x00] ++ bytes key.toList ++ bytes (bigEndian 4 ctr.toNat) ++
    bytes (bigEndian 8 pos))

def parentHash (left right : C.Hash) : C.Hash :=
  C.sha256 (bytes [0x01] ++ [.hash left] ++ [.hash right])

def bit (key : Index) (n : ℕ) : Bool :=
  key.toList.getD (n / 8) 0 &&& (1 <<< UInt8.ofNat (7 - n % 8)) != 0

/-- The loop of `evaluate_proof`, which goes through the bits of the key from the last one. -/
def evaluateLoop (key : Index) : C.Hash → List C.Bytes → Verification C.Hash
  | value, [] => pure value
  | value, element :: proof => do
      let sibling ← okOr (C.toHash element) malformedProof
      evaluateLoop key
        (if bit key proof.length then parentHash sibling value else parentHash value sibling) proof

def evaluateProof (key : Index) (value : C.Hash) (proof : List C.Bytes) : Verification C.Hash := do
  ensure (proof.length = 8 * 32) malformedProof
  evaluateLoop key value proof

def evaluate (key : Index) (pos : ℕ) (proof : PrefixProof C) : Verification C.Hash :=
  evaluateProof key (leafHash key proof.counter pos) proof.proof

end PrefixTree

def fixedKey : List UInt8 :=
  [0xd8, 0x21, 0xf8, 0x79, 0xd, 0x97, 0x70, 0x97, 0x96, 0xb4, 0xd7, 0x90, 0x33, 0x57, 0xc3, 0xf5]

def commit (searchKey data nonce : List UInt8) : Verification C.Hash :=
  if 2 ^ 16 ≤ searchKey.length then panicked "search key too large"
  else if 2 ^ 32 ≤ data.length then panicked "data too large"
  else
    pure (C.hmacSha256 fixedKey (nonce ++ bigEndian 2 searchKey.length ++ searchKey ++
      bigEndian 4 data.length ++ data))

def verifyCommitment (searchKey : List UInt8) (commitment : C.Bytes) (data nonce : List UInt8) :
    Verification Bool := do
  let expected ← commit searchKey data nonce
  pure (decide (C.toHash commitment = some expected))

def marshalUpdateValue (value : List UInt8) : Verification (List UInt8) :=
  if 2 ^ 32 ≤ value.length then badData "value too long to be encoded"
  else pure (bigEndian 4 value.length ++ value)

def leafHash (prefixRoot commitment : C.Hash) : C.Hash :=
  C.sha256 [.hash prefixRoot, .hash commitment]

def verifyTreeHeadSignature (config : PublicConfig) (treeSize : UInt64) (timestamp : Int64)
    (signature : List UInt8) (root : C.Hash) (verifyingKey : VerifyingKey)
    (maybeAuditorKey : Option VerifyingKey) : Verification Unit := do
  let toBeSigned := toSignableHeader treeSize timestamp root config maybeAuditorKey
  ensure (signature.length = 64) (.badData "signature has wrong size")
  ensure (C.verify verifyingKey toBeSigned signature)
    (.verificationFailed "failed to verify tree head signature")

/-- Checks the consistency with a tree head that was seen before. The proof is verified at once,
where the source returns a function that does it and that its caller calls. -/
def checkConsistencyMetadata (treeHead : TreeHead) (root : C.Hash) (proof : List C.Hash)
    (baseline : Option (LastTreeHead C)) : Verification Unit :=
  match baseline with
  | none =>
    ensure (proof = []) (.badData "consistency proof provided when not expected")
  | some (last, lastRoot) =>
    if last.treeSize = treeHead.treeSize then do
      ensure (root = lastRoot) (.badData "root is different but tree size is same")
      ensure (treeHead.timestamp = last.timestamp)
        (.badData "tree size is the same but timestamps differ")
      ensure (proof = []) (.badData "consistency proof provided when not expected")
    else do
      ensure (last.treeSize ≤ treeHead.treeSize)
        (.badData "current tree size is less than previous tree size")
      ensure (last.timestamp ≤ treeHead.timestamp)
        (.badData "current timestamp is less than previous timestamp")
      mapFailure LogError.toError (verifyConsistencyProof last.treeSize.toNat
        treeHead.treeSize.toNat proof lastRoot root)

/-- The allowed distance from the current time, in milliseconds. -/
structure TimestampRange where
  maxBehind : ℤ
  maxAhead : ℤ

def allowedTimestampRange : TimestampRange := ⟨24 * 60 * 60 * 1000, 60 * 1000⟩

def allowedAuditorTimestampRange : TimestampRange := ⟨7 * 24 * 60 * 60 * 1000, 60 * 1000⟩

def entriesMaxBehind : ℕ := 10000000

/-- The qualifier is "Server" or "Validator". -/
def verifyTimestamp (qualifier : String) (timestamp : Int64) (allowedRange : TimestampRange)
    (now : ℕ) : Verification Unit := do
  let delta : ℤ := now - timestamp.toInt
  ensure (delta ≤ allowedRange.maxBehind)
    (.badData (qualifier ++ " timestamp is too far behind current time (delta: " ++
      toString delta ++ " ms)"))
  ensure (-delta ≤ allowedRange.maxAhead)
    (.badData (qualifier ++ " timestamp is too far ahead of current time (delta: " ++
      toString delta ++ " ms)"))

def verifyAuditorTreeHead (config : PublicConfig) (treeHead : TreeHead) (root : C.Hash) (now : ℕ)
    (verifyingKey : VerifyingKey) (auditorTreeHead : FullAuditorTreeHead C) :
    Verification Unit := do
  let auditorHead ← getProtoField auditorTreeHead.treeHead "tree_head"
  verifyTimestamp "Validator" auditorHead.timestamp allowedAuditorTimestampRange now
  ensure (auditorHead.treeSize ≤ treeHead.treeSize)
    (.badData "auditor tree head may not be further along than service tree head")
  ensure (treeHead.treeSize.toNat - auditorHead.treeSize.toNat ≤ entriesMaxBehind)
    (.badData "auditor tree head is too far behind service tree head")
  if auditorHead.treeSize < treeHead.treeSize then
    let rootValue ← getProtoField auditorTreeHead.rootValue "root_value"
    let auditorRoot ← okOr (C.toHash rootValue) (.badData "auditor tree head is malformed")
    let proof ← getHashProof auditorTreeHead.consistency
    mapFailure LogError.toError (verifyConsistencyProof auditorHead.treeSize.toNat
      treeHead.treeSize.toNat proof auditorRoot root)
    verifyTreeHeadSignature config auditorHead.treeSize auditorHead.timestamp
      auditorHead.signature auditorRoot verifyingKey (some verifyingKey)
  else
    ensure auditorTreeHead.consistency.isEmpty
      (.badData "consistency proof provided when not expected")
    ensure auditorTreeHead.rootValue.isNone
      (.badData "explicit root value provided when not expected")
    verifyTreeHeadSignature config auditorHead.treeSize auditorHead.timestamp
      auditorHead.signature root verifyingKey (some verifyingKey)

/-- The tree heads of the auditors, where third-party auditing is used. -/
def verifyAuditorTreeHeads (config : PublicConfig) (fullTreeHead : FullTreeHead C)
    (treeHead : TreeHead) (root : C.Hash) (now : ℕ) : Verification Unit :=
  match config.mode with
  | .thirdPartyAuditing auditorKeys => do
      let keyHeadPairs ← okOr (fullTreeHead.auditorTreeHeads auditorKeys)
        (.badData "auditor tree heads are either missing or not available for all auditors")
      keyHeadPairs.forM fun (verifyingKey, auditorTreeHead) =>
        verifyAuditorTreeHead config treeHead root now verifyingKey auditorTreeHead
  | _ => pure ()

def verifyFullTreeHead (config : PublicConfig) (fullTreeHead : FullTreeHead C) (root : C.Hash)
    (lastTreeHead lastDistinguishedTreeHead : Option (LastTreeHead C)) (now : ℕ) :
    Verification (LastTreeHead C) := do
  let treeHead ← getProtoField fullTreeHead.treeHead "tree_head"
  checkConsistencyMetadata treeHead root (← getHashProof fullTreeHead.last) lastTreeHead
  checkConsistencyMetadata treeHead root (← getHashProof fullTreeHead.distinguished)
    lastDistinguishedTreeHead
  let signatures ← okOr (treeHead.toSingleSignatureTreeHeads config)
    (.badData "server signatures are either missing or not available for all auditors")
  signatures.forM fun (key, signature) =>
    verifyTreeHeadSignature config treeHead.treeSize treeHead.timestamp signature.signature root
      config.signatureKey (some key)
  verifyTimestamp "Server" treeHead.timestamp allowedTimestampRange now
  verifyAuditorTreeHeads config fullTreeHead treeHead root now
  pure (treeHead, root)

namespace MonitoringData

def extractVersion (steps : List (ℕ × ProofStep C)) (position : ℕ) :
    Verification (Option UInt32) :=
  match lookup position steps with
  | none => pure none
  | some step => do pure (some (← getProtoField step.prefixProof "prefix").counter)

/-- The body of the loop of `findUpdatedMapping`. -/
def visitMapping (storedVer : UInt32) (getVersionByPosition : ℕ → Verification (Option UInt32))
    (position : ℕ) (updatedMapping : Option (ℕ × UInt32)) :
    Verification (ForInStep (Option (ℕ × UInt32))) := do
  match ← getVersionByPosition position with
  | none => pure (.done updatedMapping)
  | some newVersion =>
    if newVersion < storedVer then
      verificationFailed "prefix tree has unexpectedly low version counter"
    else pure (.yield (some (position, newVersion)))

/-- The top-most position on the monitoring path with a version from the steps. -/
def findUpdatedMapping (storedPos : ℕ) (storedVer : UInt32) (firstPos treeSize : ℕ)
    (getVersionByPosition : ℕ → Verification (Option UInt32)) :
    Verification (Option (ℕ × UInt32)) :=
  forMonitoringPath storedPos firstPos treeSize none (visitMapping storedVer getVersionByPosition)

def updatePtrs (firstPos treeSize : ℕ) (steps : List (ℕ × ProofStep C)) :
    List (ℕ × UInt32) → List (ℕ × UInt32) → Verification (List (ℕ × UInt32))
  | [], out => pure out
  | (pos, ver) :: ptrs, out => do
      let mapping ← findUpdatedMapping pos ver firstPos treeSize (extractVersion steps)
      let (newPos, newVer) := mapping.getD (pos, ver)
      match lookup newPos out with
      | some existing =>
        if newVer = existing then updatePtrs firstPos treeSize steps ptrs out
        else verificationFailed "inconsistent versions found"
      | none => updatePtrs firstPos treeSize steps ptrs (out ++ [(newPos, newVer)])

def update (data : MonitoringData) (order : PointerOrder) (searchKey : List UInt8) (treeSize : ℕ)
    (steps : List (ℕ × ProofStep C)) : Verification MonitoringData := do
  let ptrs ← updatePtrs data.pos treeSize steps (order.order searchKey data.ptrs) []
  pure { data with ptrs := ptrs }

def startMonitoring (data : Option MonitoringData) (index : Index) (zeroPos verPos : ℕ)
    (version : UInt32) (owned : Bool) : MonitoringData :=
  data.getD ⟨index, zeroPos, [(verPos, version)], owned⟩

/-- The version of the first pointer on the monitoring path. -/
def findOnPath (data : MonitoringData) (verPos zeroPos treeSize : ℕ) :
    Verification (Option UInt32) :=
  forMonitoringPath verPos zeroPos treeSize none fun position _ =>
    match lookup position data.ptrs with
    | some ver => pure (.done (some ver))
    | none => pure (.yield none)

/-- The pointers with the version that was found. -/
def recordVersion (data : MonitoringData) (treeSize zeroPos verPos : ℕ) (version : UInt32) :
    Verification (List (ℕ × UInt32)) :=
  match lookup verPos data.ptrs with
  | some ver =>
    if ver = version then pure data.ptrs
    else verificationFailed "different versions of key recorded at same position"
  | none => do
      match ← data.findOnPath verPos zeroPos treeSize with
      | some ver =>
        if ver < version then
          verificationFailed "prefix tree has unexpectedly low version counter"
        else pure data.ptrs
      | none => pure (insert verPos version data.ptrs)

def checkSearchConsistency (data : MonitoringData) (treeSize : ℕ) (index : Index)
    (zeroPos verPos : ℕ) (version : UInt32) (owned : Bool) : Verification MonitoringData := do
  ensure (index = data.index)
    (.verificationFailed "given search key index does not match database")
  ensure (zeroPos = data.pos)
    (.verificationFailed "given search start position does not match database")
  let ptrs ← data.recordVersion treeSize zeroPos verPos version
  pure { data with ptrs := ptrs, owned := data.owned || owned }

end MonitoringData

def evaluateVrfProof (proof : List UInt8) (vrfKey : VrfPublicKey) (searchKey : List UInt8) :
    Verification Index := do
  ensure (proof.length = 80) malformedProof
  okOr (C.proofToHash vrfKey searchKey proof) (.verificationFailed "Invalid VRF proof")

/-- The leaf hash that a step of a proof leads to, and its version. -/
def evaluateStep (index : Index) (pos : ℕ) (step : ProofStep C) :
    Verification (UInt32 × C.Hash) := do
  let prefixProof ← getProtoField step.prefixProof "prefix"
  let prefixRoot ← PrefixTree.evaluate index pos prefixProof
  let commitment ← okOr (C.toHash step.commitment) malformedProof
  pure (prefixProof.counter, leafHash prefixRoot commitment)

/-- What a search has found on its way. -/
structure SearchWalk (C : Crypto) where
  /-- The index of the step with the result, and its id. -/
  result : Option (ℕ × ℕ)
  leaves : List (ℕ × C.Hash)
  steps : List (ℕ × ProofStep C)
  /-- The steps that are left over. -/
  rest : List (ProofStep C)

/-- The closure that `consume` gets. -/
def takeStep (index : Index) (pos : ℕ) (guide : ProofGuide) (nextId : ℕ) (walk : SearchWalk C) :
    Verification (ProofGuide × SearchWalk C) :=
  match walk.rest with
  | [] => verificationFailed "unexpected number of steps in search proof"
  | step :: rest => do
      let (counter, leaf) ← evaluateStep index pos step
      pure (guide.insert nextId counter, { walk with
        leaves := insert nextId leaf walk.leaves
        steps := insert nextId step walk.steps
        rest := rest })

/-- Each round takes one of the steps that are left. -/
def consumeSteps (index : Index) (pos : ℕ) (guide : ProofGuide) (walk : SearchWalk C) :
    Verification (SearchWalk C) := do
  let (result, walk) ← guide.consume (takeStep index pos) (walk.rest.length + 1) walk
  pure { walk with result := result }

def intoSortedPairs {Value : Type} (map : List (ℕ × Value)) : List ℕ × List Value :=
  (map.insertionSort fun pair other => pair.1 ≤ other.1).unzip

/-- The way of the search, from the VRF proof on. -/
def walkSearch (index : Index) (version : Option UInt32) (searchProof : SearchProof C)
    (treeSize : ℕ) : Verification (SearchWalk C) := do
  let guide ← ProofGuide.new version searchProof.pos.toNat treeSize
  consumeSteps index searchProof.pos.toNat guide ⟨none, [], [], searchProof.steps⟩

def candidateRoot (walk : SearchWalk C) (searchProof : SearchProof C) (treeSize : ℕ) :
    Verification C.Hash := do
  ensure walk.rest.isEmpty
    (.verificationFailed "unexpected number of steps in search proof")
  let inclusionProof ← getHashProof searchProof.inclusion
  let (ids, values) := intoSortedPairs walk.leaves
  mapFailure LogError.toError (evaluateBatchProof ids treeSize values inclusionProof)

/-- Monitoring data is not updated based on parts of the tree that are not retained. -/
def retainedSize (searchKey : List UInt8) (resultId treeSize : ℕ) : Verification ℕ :=
  if searchKey = distinguishedKey then u64 (resultId + 1) else pure treeSize

def updateMonitoring (order : PointerOrder) (searchKey : List UInt8)
    (data : Option MonitoringData) (config : PublicConfig) (monitor : Bool) (size : ℕ)
    (index : Index) (pos resultId : ℕ) (version : UInt32) (steps : List (ℕ × ProofStep C)) :
    Verification (Option MonitoringData) :=
  let data :=
    if monitor || config.mode = .contactMonitoring then
      some (MonitoringData.startMonitoring data index pos resultId version monitor)
    else data
  match data with
  | none => pure none
  | some data => do
      let data ← data.checkSearchConsistency size index pos resultId version monitor
      pure (some (← data.update order searchKey size steps))

def verifySearch (order : PointerOrder) (config : PublicConfig) (req : SlimSearchRequest)
    (res : FullSearchResponse C) (context : SearchContext C) (monitor : Bool) (now : ℕ) :
    Verification (SearchStateUpdate C) := do
  let index ← evaluateVrfProof (C := C) res.condensed.vrfProof config.vrfKey req.searchKey
  let treeHead ← getProtoField res.treeHead.treeHead "tree_head"
  let treeSize := treeHead.treeSize.toNat
  let searchProof ← getProtoField res.condensed.search "search"
  let walk ← walkSearch index req.version searchProof treeSize
  let root ← candidateRoot walk searchProof treeSize
  let (resultI, resultId) ← okOr walk.result
    (.verificationFailed "failed to find expected version of key")
  let resultStep ← expect searchProof.steps[resultI]? "index out of bounds"
  let value ← marshalUpdateValue (← getProtoField res.condensed.value "value")
  ensure (res.condensed.opening.length = 16) (.verificationFailed "malformed opening")
  let opens ← verifyCommitment req.searchKey resultStep.commitment value res.condensed.opening
  ensure opens (.verificationFailed "failed to verify commitment opening")
  let updatedTreeHead ← verifyFullTreeHead config res.treeHead root context.lastTreeHead
    context.lastDistinguishedTreeHead now
  let size ← retainedSize req.searchKey resultId treeSize
  let prefixProof ← getProtoField resultStep.prefixProof "prefix"
  let monitoringData ← updateMonitoring order req.searchKey context.data config monitor size index
    searchProof.pos.toNat resultId prefixProof.counter walk.steps
  pure ⟨updatedTreeHead.1, updatedTreeHead.2, monitoringData⟩

structure MonitorProofAcc (C : Crypto) where
  leaves : List (ℕ × C.Hash)
  entries : List (List (ℕ × ProofStep C))

def processSteps (data : MonitoringData) :
    List (ℕ × ProofStep C) → List (ℕ × C.Hash) → List (ℕ × ProofStep C) →
      Verification (List (ℕ × C.Hash) × List (ℕ × ProofStep C))
  | [], leaves, steps => pure (leaves, steps)
  | (entry, step) :: rest, leaves, steps => do
      let (_, leaf) ← evaluateStep data.index data.pos step
      match lookup entry leaves with
      | some other =>
        if leaf = other then processSteps data rest leaves (insert entry step steps)
        else
          verificationFailed "monitoring response is malformed: multiple values for same leaf"
      | none =>
        processSteps data rest (insert entry leaf leaves)
          (insert entry step steps)

def MonitorProofAcc.process (acc : MonitorProofAcc C) (treeSize : ℕ)
    (monitoringData : List UInt8 → Option MonitoringData) (key : MonitorKey)
    (proof : MonitorProof C) : Verification (MonitorProofAcc C) := do
  let data ← okOr (monitoringData key.searchKey)
    (.badData "unable to process monitoring response for unknown search key")
  let entries ← fullMonitoringPath key.entryPosition.toNat data.pos treeSize
  ensure (entries.length = proof.steps.length)
    (.verificationFailed "monitoring response is malformed: wrong number of proof steps")
  let (leaves, steps) ← processSteps data (entries.zip proof.steps) acc.leaves []
  pure ⟨leaves, acc.entries ++ [steps]⟩

def processAll (treeSize : ℕ) (monitoringData : List UInt8 → Option MonitoringData) :
    List (MonitorKey × MonitorProof C) → MonitorProofAcc C → Verification (MonitorProofAcc C)
  | [], acc => pure acc
  | (key, proof) :: rest, acc => do
      processAll treeSize monitoringData rest (← acc.process treeSize monitoringData key proof)

def monitoredRoot (leaves : List (ℕ × C.Hash)) (treeSize : ℕ) (inclusionProof : List C.Hash) :
    Verification C.Hash :=
  if leaves.isEmpty then
    match inclusionProof with
    | [root] => pure root
    | _ => verificationFailed "monitoring response is malformed: inclusion proof should be root"
  else
    let (ids, values) := intoSortedPairs leaves
    mapFailure LogError.toError (evaluateBatchProof ids treeSize values inclusionProof)

/-- The size of the tree up to which monitoring data is updated. -/
def monitoredSize (key : MonitorKey) (consistency : Option Consistency) (treeSize : ℕ) :
    Verification ℕ :=
  if key.searchKey = distinguishedKey then do
    let last ← okOr (consistency.bind (·.last))
      (.requiredFieldMissing "consistency field when monitoring distinguished key")
    pure last.toNat
  else pure treeSize

def updateAll (order : PointerOrder) (consistency : Option Consistency) (treeSize : ℕ)
    (data : List UInt8 → Option MonitoringData) :
    List (MonitorKey × List (ℕ × ProofStep C)) → (List UInt8 → Option MonitoringData) →
      Verification (List UInt8 → Option MonitoringData)
  | [], updates => pure updates
  | (key, steps) :: rest, updates => do
      let size ← monitoredSize key consistency treeSize
      match data key.searchKey with
      | none => updateAll order consistency treeSize data rest updates
      | some keyData => do
          let updated ← keyData.update order key.searchKey size steps
          updateAll order consistency treeSize data rest
            (Function.update updates key.searchKey (some updated))

def verifyMonitor (order : PointerOrder) (config : PublicConfig) (req : MonitorRequest)
    (res : MonitorResponse C) (context : MonitorContext C) (now : ℕ) :
    Verification (MonitorStateUpdate C) := do
  ensure (req.keys.length = res.proofs.length)
    (.badData "monitoring response is malformed: wrong number of key proofs")
  let fullTreeHead ← getProtoField res.treeHead "tree_head"
  let treeHead ← getProtoField fullTreeHead.treeHead "tree_head"
  let treeSize := treeHead.treeSize.toNat
  let acc ← processAll treeSize context.data (req.keys.zip res.proofs) ⟨[], []⟩
  let inclusionProof ← getHashProof res.inclusion
  let root ← monitoredRoot acc.leaves treeSize inclusionProof
  let updatedTreeHead ← verifyFullTreeHead config fullTreeHead root context.lastTreeHead
    (some context.lastDistinguishedTreeHead) now
  let updates ← updateAll order req.consistency treeSize context.data
    (req.keys.zip acc.entries) fun _ => none
  pure ⟨updatedTreeHead.1, updatedTreeHead.2, updates⟩

end LegacySignal.KeyTransparency
