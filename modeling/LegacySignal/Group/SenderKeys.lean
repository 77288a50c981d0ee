import LegacySignal.Protocol.Session

/-!
# Sender keys

The chains that group messages are encrypted on, from `sender_keys.rs`. A
record holds the states of the chains of one sender in one distribution, the
one learned last first. A chain ends at the largest iteration; there the next
chain key is an error, unlike in a session.

The states hold keys, not their bytes: stored bytes that do not decode are
outside the model.
-/

namespace LegacySignal

abbrev Uuid := BitVec 128

/-- The part of a message of a group that its signature covers. -/
structure SenderKeyContent (Bytes : Type) where
  /-- The upper half of the first byte. -/
  messageVersion : ℕ
  distributionId : Uuid
  chainId : UInt32
  iteration : UInt32
  ciphertext : Bytes
deriving DecidableEq, Repr

structure GroupPrimitives where
  PrivateKey : Type
  PublicKey : Type
  /-- Chain keys and the seeds of message keys, of 32 bytes. -/
  Secret : Type
  Bytes : Type
  Signature : Type
  Random : Type
  [decidablePublicKey : DecidableEq PublicKey]
  publicKey : PrivateKey → PublicKey
  hmacSha256 : Secret → UInt8 → Secret
  /-- The initialisation vector and the cipher key that HKDF expands under `WhisperGroup`. -/
  hkdf : Secret → Bytes × Bytes
  aesCbcEncrypt : Bytes → Bytes → Bytes → Bytes
  aesCbcDecrypt : Bytes → Bytes → Bytes → Option Bytes
  calculateSignature : PrivateKey → SenderKeyContent Bytes → Random → Signature
  verifySignature : PublicKey → SenderKeyContent Bytes → Signature → Bool

attribute [instance] GroupPrimitives.decidablePublicKey

/-- A signature verifies under its key, and decryption undoes encryption. -/
structure GroupPrimitives.Lawful (P : GroupPrimitives) : Prop where
  verify_calculate (key : P.PrivateKey) (content : SenderKeyContent P.Bytes) (random : P.Random) :
    P.verifySignature (P.publicKey key) content (P.calculateSignature key content random) = true
  decrypt_encrypt (ptext key iv : P.Bytes) :
    P.aesCbcDecrypt (P.aesCbcEncrypt ptext key iv) key iv = some ptext

namespace consts

def MAX_SENDER_KEY_STATES : ℕ := 5

end consts

def SENDERKEY_MESSAGE_CURRENT_VERSION : ℕ := 3

/-- The errors of `SignalProtocolError` that group functions return. -/
inductive GroupError where
  | noSenderKeyState (distributionId : Uuid)
  | invalidSenderKeySession (distributionId : Uuid)
  | duplicatedMessage (chainIteration iteration : UInt32)
  | invalidMessage (messageType : CiphertextMessageType) (text : String)
  | invalidState (function text : String)
  | signatureValidationFailed
  | unrecognizedMessageVersion (version : ℕ)
  | legacyCiphertextVersion (version : ℕ)
  | unrecognizedCiphertextVersion (version : ℕ)
deriving DecidableEq, Repr

variable {P : GroupPrimitives}

structure SenderMessageKey (P : GroupPrimitives) where
  iteration : UInt32
  seed : P.Secret

namespace SenderMessageKey

def iv (key : SenderMessageKey P) : P.Bytes := (P.hkdf key.seed).1

def cipherKey (key : SenderMessageKey P) : P.Bytes := (P.hkdf key.seed).2

end SenderMessageKey

structure SenderChainKey (P : GroupPrimitives) where
  iteration : UInt32
  chainKey : P.Secret

namespace SenderChainKey

def MESSAGE_KEY_SEED : UInt8 := 0x01

def CHAIN_KEY_SEED : UInt8 := 0x02

def next (key : SenderChainKey P) : Except GroupError (SenderChainKey P) :=
  if key.iteration.toNat + 1 < UInt32.size then
    .ok ⟨key.iteration + 1, P.hmacSha256 key.chainKey CHAIN_KEY_SEED⟩
  else .error (.invalidState "sender_chain_key_next" "Sender chain is too long")

def senderMessageKey (key : SenderChainKey P) : SenderMessageKey P :=
  ⟨key.iteration, P.hmacSha256 key.chainKey MESSAGE_KEY_SEED⟩

end SenderChainKey

structure SenderKeyState (P : GroupPrimitives) where
  storedVersion : ℕ
  chainId : UInt32
  senderChainKey : SenderChainKey P
  signingKeyPublic : P.PublicKey
  /-- None in the states of others. -/
  signingKeyPrivate : Option P.PrivateKey
  /-- The keys of skipped messages, the oldest first. -/
  senderMessageKeys : List (SenderMessageKey P)

namespace SenderKeyState

def new (messageVersion : ℕ) (chainId iteration : UInt32) (chainKey : P.Secret)
    (signatureKey : P.PublicKey) (signaturePrivateKey : Option P.PrivateKey) :
    SenderKeyState P where
  storedVersion := messageVersion
  chainId := chainId
  senderChainKey := ⟨iteration, chainKey⟩
  signingKeyPublic := signatureKey
  signingKeyPrivate := signaturePrivateKey
  senderMessageKeys := []

/-- States of the first version do not say so. -/
def messageVersion (state : SenderKeyState P) : ℕ :=
  if state.storedVersion = 0 then 3 else state.storedVersion

/-- The oldest keys make room when there are too many. -/
def addSenderMessageKey (state : SenderKeyState P) (key : SenderMessageKey P) :
    SenderKeyState P :=
  let pushed := state.senderMessageKeys ++ [key]
  { state with senderMessageKeys := pushed.drop (pushed.length - consts.MAX_MESSAGE_KEYS) }

def removeSenderMessageKey (state : SenderKeyState P) (iteration : UInt32) :
    Option (SenderMessageKey P × SenderKeyState P) :=
  (state.senderMessageKeys.find? fun key => key.iteration = iteration).map fun key =>
    (key, { state with senderMessageKeys :=
      state.senderMessageKeys.eraseP fun key => key.iteration = iteration })

end SenderKeyState

structure SenderKeyRecord (P : GroupPrimitives) where
  states : List (SenderKeyState P)

namespace SenderKeyRecord

def newEmpty : SenderKeyRecord P := ⟨[]⟩

def senderKeyStateForChainId (record : SenderKeyRecord P) (chainId : UInt32) :
    Option (SenderKeyState P) :=
  record.states.find? fun state => state.chainId = chainId

/-- Writes back the state that `senderKeyStateForChainId` has found. -/
def setStateForChainId (record : SenderKeyRecord P) (chainId : UInt32)
    (changed : SenderKeyState P) : SenderKeyRecord P :=
  ⟨record.states.replaceF fun state => if state.chainId = chainId then some changed else none⟩

/-- A state with the chain id and the signing key stays as it is and comes to the front. States
with the chain id and another key are removed, and the states learned first make room. -/
def addSenderKeyState (record : SenderKeyRecord P) (messageVersion : ℕ)
    (chainId iteration : UInt32) (chainKey : P.Secret) (signatureKey : P.PublicKey)
    (signaturePrivateKey : Option P.PrivateKey) : SenderKeyRecord P :=
  let existing := record.states.find? fun state =>
    state.chainId = chainId && state.signingKeyPublic = signatureKey
  let others := record.states.filter fun state => state.chainId ≠ chainId
  let state := existing.getD
    (.new messageVersion chainId iteration chainKey signatureKey signaturePrivateKey)
  ⟨state :: others.take (consts.MAX_SENDER_KEY_STATES - 1)⟩

end SenderKeyRecord

end LegacySignal
