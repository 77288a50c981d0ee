import LegacySignal.Library.BigEndian
import LegacySignal.Library.Halting

/-!
# Configuration and messages of the key transparency client

The types of `lib.rs` and of the protobuf messages of the crate `keytrans`, and
what is signed in a tree head.

The cryptography is a parameter. What is hashed or signed is a list of bytes in
which a hash stands for its 32 bytes.
-/

namespace LegacySignal.KeyTransparency

open Run

inductive Symbol (Hash : Type) where
  | byte (byte : UInt8)
  | hash (hash : Hash)

abbrev VerifyingKey := Vector UInt8 32

abbrev VrfPublicKey := Vector UInt8 32

abbrev Index := Vector UInt8 32

structure Crypto where
  Hash : Type
  decEqHash : DecidableEq Hash
  /-- The bytes of a field in which a hash is expected. -/
  Bytes : Type
  /-- `try_into::<[u8; 32]>` -/
  toHash : Bytes → Option Hash
  sha256 : List (Symbol Hash) → Hash
  hmacSha256 : List UInt8 → List UInt8 → Hash
  /-- Whether the signature of 64 bytes is the key's on the message. -/
  verify : VerifyingKey → List (Symbol Hash) → List UInt8 → Bool
  /-- What the VRF proof of 80 bytes shows for the search key. -/
  proofToHash : VrfPublicKey → List UInt8 → List UInt8 → Option Index

instance (C : Crypto) : DecidableEq C.Hash := C.decEqHash

/-- The errors of `verify.rs`. -/
inductive Error where
  | requiredFieldMissing (name : String)
  | badData (message : String)
  | verificationFailed (message : String)
  deriving DecidableEq, Repr

abbrev Verification (Value : Type) := Run Error Value

def badData {Value : Type} (message : String) : Verification Value := fail (.badData message)

def verificationFailed {Value : Type} (message : String) : Verification Value :=
  fail (.verificationFailed message)

/-- The way that a transparency log is deployed. -/
inductive DeploymentMode where
  | contactMonitoring
  | thirdPartyManagement (keys : List VerifyingKey)
  | thirdPartyAuditing (keys : List VerifyingKey)
  deriving DecidableEq

namespace DeploymentMode

def byte : DeploymentMode → UInt8
  | contactMonitoring => 1
  | thirdPartyManagement _ => 2
  | thirdPartyAuditing _ => 3

def getAssociatedKeys : DeploymentMode → List VerifyingKey
  | contactMonitoring => []
  | thirdPartyManagement keys => keys
  | thirdPartyAuditing keys => keys

end DeploymentMode

structure PublicConfig where
  mode : DeploymentMode
  signatureKey : VerifyingKey
  vrfKey : VrfPublicKey

structure PrefixProof (C : Crypto) where
  proof : List C.Bytes
  counter : UInt32

structure AuditorTreeHead where
  treeSize : UInt64
  timestamp : Int64
  signature : List UInt8

structure Signature where
  auditorPublicKey : List UInt8
  signature : List UInt8

structure TreeHead where
  treeSize : UInt64
  timestamp : Int64
  signatures : List Signature

structure FullAuditorTreeHead (C : Crypto) where
  treeHead : Option AuditorTreeHead
  rootValue : Option C.Bytes
  consistency : List C.Bytes
  publicKey : List UInt8

structure FullTreeHead (C : Crypto) where
  treeHead : Option TreeHead
  last : List C.Bytes
  distinguished : List C.Bytes
  fullAuditorTreeHeads : List (FullAuditorTreeHead C)

structure ProofStep (C : Crypto) where
  prefixProof : Option (PrefixProof C)
  commitment : C.Bytes

structure SearchProof (C : Crypto) where
  pos : UInt64
  steps : List (ProofStep C)
  inclusion : List C.Bytes

structure CondensedTreeSearchResponse (C : Crypto) where
  vrfProof : List UInt8
  search : Option (SearchProof C)
  opening : List UInt8
  /-- The bytes of the `UpdateValue`. -/
  value : Option (List UInt8)

structure FullSearchResponse (C : Crypto) where
  condensed : CondensedTreeSearchResponse C
  treeHead : FullTreeHead C

structure SlimSearchRequest where
  searchKey : List UInt8
  version : Option UInt32

structure MonitorKey where
  searchKey : List UInt8
  entryPosition : UInt64

structure Consistency where
  last : Option UInt64

structure MonitorRequest where
  keys : List MonitorKey
  consistency : Option Consistency

structure MonitorProof (C : Crypto) where
  steps : List (ProofStep C)

structure MonitorResponse (C : Crypto) where
  treeHead : Option (FullTreeHead C)
  proofs : List (MonitorProof C)
  inclusion : List C.Bytes

abbrev LastTreeHead (C : Crypto) := TreeHead × C.Hash

/-- What is retained for each key that is monitored. The pointers are a map from the position in
the log to the version observed there. -/
structure MonitoringData where
  index : Index
  pos : ℕ
  ptrs : List (ℕ × UInt32)
  owned : Bool

/-- The order in which the pointers that are stored for a search key are iterated over. A hash map
promises none. -/
structure PointerOrder where
  order : List UInt8 → List (ℕ × UInt32) → List (ℕ × UInt32)
  perm : ∀ searchKey ptrs, (order searchKey ptrs).Perm ptrs

def storedOrder : PointerOrder := ⟨fun _ ptrs => ptrs, fun _ _ => .refl _⟩

structure SearchContext (C : Crypto) where
  lastTreeHead : Option (LastTreeHead C)
  lastDistinguishedTreeHead : Option (LastTreeHead C)
  data : Option MonitoringData

structure MonitorContext (C : Crypto) where
  lastTreeHead : Option (LastTreeHead C)
  lastDistinguishedTreeHead : LastTreeHead C
  data : List UInt8 → Option MonitoringData

structure SearchStateUpdate (C : Crypto) where
  treeHead : TreeHead
  treeRoot : C.Hash
  monitoringData : Option MonitoringData

structure MonitorStateUpdate (C : Crypto) where
  treeHead : TreeHead
  treeRoot : C.Hash
  monitoringData : List UInt8 → Option MonitoringData

section header

variable {C : Crypto}

def bytes (values : List UInt8) : List (Symbol C.Hash) := values.map .byte

def serializeKey (key : Vector UInt8 32) : List (Symbol C.Hash) :=
  bytes (bigEndian 2 32) ++ bytes key.toList

def toSignableHeader (treeSize : UInt64) (timestamp : Int64) (root : C.Hash)
    (config : PublicConfig) (maybeAuditorKey : Option VerifyingKey) : List (Symbol C.Hash) :=
  bytes [0, 0] ++ bytes [config.mode.byte] ++ serializeKey config.signatureKey ++
    serializeKey config.vrfKey ++ maybeAuditorKey.elim [] serializeKey ++
    bytes (bigEndian 8 treeSize.toNat) ++ bytes (bigEndian 8 timestamp.toUInt64.toNat) ++
    [.hash root]

end header

/-- For each element of the first list the first that matches it in the second. -/
def findMatching {Key Item Projected : Type} (keys : List Key) (items : List Item)
    (eq : Key → Item → Bool) (project : Key → Item → Projected) : Option (List Projected) :=
  keys.mapM fun key => (items.find? (eq key)).map (project key)

/-- The signature of the server for each auditor. -/
def TreeHead.toSingleSignatureTreeHeads (treeHead : TreeHead) (config : PublicConfig) :
    Option (List (VerifyingKey × Signature)) :=
  findMatching config.mode.getAssociatedKeys treeHead.signatures
    (fun key signature => key.toList == signature.auditorPublicKey) Prod.mk

def FullTreeHead.auditorTreeHeads {C : Crypto} (fullTreeHead : FullTreeHead C)
    (keys : List VerifyingKey) : Option (List (VerifyingKey × FullAuditorTreeHead C)) :=
  findMatching keys fullTreeHead.fullAuditorTreeHeads
    (fun key head => head.publicKey == key.toList) Prod.mk

end LegacySignal.KeyTransparency
