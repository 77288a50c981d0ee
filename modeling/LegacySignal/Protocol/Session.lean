import LegacySignal.Library.Result
import LegacySignal.Protocol.Primitives
import LegacySignal.Store.Keys

/-!
# Session states and records

The state of one session: its root key, the chain it sends on, the chains it
receives on, and what is still pending from its setup. A record holds the
current state of an address and the archived ones, newest first.

A state holds keys, not their bytes: stored bytes that do not decode are
outside the model. The index of a chain key is a machine word, and the one
after the last is zero.
-/

namespace LegacySignal

namespace consts

def MAX_FORWARD_JUMPS : ℕ := 25000

def MAX_MESSAGE_KEYS : ℕ := 2000

def MAX_RECEIVER_CHAINS : ℕ := 5

def ARCHIVED_STATES_MAX_LENGTH : ℕ := 40

def MAX_UNACKNOWLEDGED_SESSION_AGE : ℕ := 60 * 60 * 24 * 30

end consts

def CIPHERTEXT_MESSAGE_CURRENT_VERSION : ℕ := 4

def CIPHERTEXT_MESSAGE_PRE_KYBER_VERSION : ℕ := 3

inductive CiphertextMessageType where
  | whisper
  | preKey
  | senderKey
  | plaintext
deriving DecidableEq, Repr

inductive SignalProtocolError where
  | sessionNotFound (address : SignalProtocolAddress)
  | untrustedIdentity (address : SignalProtocolAddress)
  | invalidSessionStructure (text : String)
  | invalidState (function text : String)
  | invalidArgument (text : String)
  | invalidMessage (messageType : CiphertextMessageType) (text : String)
  | unrecognizedMessageVersion (version : ℕ)
  | duplicatedMessage (chainIndex counter : UInt32)
  | signatureValidationFailed
  | invalidPreKeyId
  | invalidSignedPreKeyId
  | invalidKyberPreKeyId
  | kemFailure
  /-- An exception that a method of the store threw. -/
  | applicationCallback
  | panicked (text : String)
deriving DecidableEq, Repr

structure MessageKeys (P : Primitives) where
  cipherKey : P.Secret
  macKey : P.Secret
  iv : P.Secret
  counter : UInt32

inductive MessageKeyGenerator (P : Primitives) where
  | keys (keys : MessageKeys P)
  | seed (seed : P.Secret) (counter : UInt32)

structure ChainKey (P : Primitives) where
  key : P.Secret
  index : UInt32

variable {P : Primitives}

namespace MessageKeys

def deriveKeys (inputKeyMaterial : P.Secret) (optionalSalt : Option P.Secret)
    (counter : UInt32) : MessageKeys P where
  cipherKey := P.hkdf optionalSalt [inputKeyMaterial] .whisperMessageKeys 0
  macKey := P.hkdf optionalSalt [inputKeyMaterial] .whisperMessageKeys 1
  iv := P.hkdf optionalSalt [inputKeyMaterial] .whisperMessageKeys 2
  counter := counter

end MessageKeys

namespace MessageKeyGenerator

def index : MessageKeyGenerator P → UInt32
  | .keys stored => stored.counter
  | .seed _ counter => counter

def generateKeys (pqrKey : Option P.Secret) :
    MessageKeyGenerator P → Except SignalProtocolError (MessageKeys P)
  | .seed material counter => .ok (MessageKeys.deriveKeys material pqrKey counter)
  | .keys stored =>
    match pqrKey with
    | none => .ok stored
    | some _ => .error (.panicked "assertion failed: pqr_key.is_none()")

end MessageKeyGenerator

namespace ChainKey

def MESSAGE_KEY_SEED : UInt8 := 0x01

def CHAIN_KEY_SEED : UInt8 := 0x02

def nextChainKey (chainKey : ChainKey P) : ChainKey P where
  key := P.hmacSha256 chainKey.key CHAIN_KEY_SEED
  index := chainKey.index + 1

def messageKeys (chainKey : ChainKey P) : MessageKeyGenerator P :=
  .seed (P.hmacSha256 chainKey.key MESSAGE_KEY_SEED) chainKey.index

end ChainKey

def createChain (rootKey : P.Secret) (theirRatchetKey : P.PublicKey)
    (ourRatchetKey : P.PrivateKey) : P.Secret × ChainKey P :=
  let sharedSecret := P.calculateAgreement ourRatchetKey theirRatchetKey
  (P.hkdf (some rootKey) [sharedSecret] .whisperRatchet 0,
    ⟨P.hkdf (some rootKey) [sharedSecret] .whisperRatchet 1, 0⟩)

structure SenderChain (P : Primitives) where
  ratchetKey : P.KeyPair
  chainKey : ChainKey P

structure ReceiverChain (P : Primitives) where
  senderRatchetKey : P.PublicKey
  chainKey : ChainKey P
  /-- Keys of skipped messages, the newest first. -/
  messageKeys : List (MessageKeyGenerator P)

structure PendingPreKey (P : Primitives) where
  preKeyId : Option UInt32
  signedPreKeyId : UInt32
  baseKey : P.PublicKey
  /-- In seconds. -/
  timestamp : ℕ

structure PendingKyberPreKey (P : Primitives) where
  preKeyId : UInt32
  ciphertext : P.KemCiphertext

structure SessionState (P : Primitives) where
  version : ℕ
  localIdentityKey : P.PublicKey
  remoteIdentityKey : Option P.PublicKey
  rootKey : P.Secret
  previousCounter : UInt32
  senderChain : Option (SenderChain P)
  receiverChains : List (ReceiverChain P)
  pendingPreKey : Option (PendingPreKey P)
  pendingKyberPreKey : Option (PendingKyberPreKey P)
  remoteRegistrationId : UInt32
  localRegistrationId : UInt32
  aliceBaseKey : P.PublicKey
  pqRatchetState : P.PqState

namespace SessionState

def new (version : ℕ) (ourIdentity theirIdentity : P.PublicKey) (rootKey : P.Secret)
    (aliceBaseKey : P.PublicKey) (pqRatchetState : P.PqState) : SessionState P where
  version := version
  localIdentityKey := ourIdentity
  remoteIdentityKey := some theirIdentity
  rootKey := rootKey
  previousCounter := 0
  senderChain := none
  receiverChains := []
  pendingPreKey := none
  pendingKyberPreKey := none
  remoteRegistrationId := 0
  localRegistrationId := 0
  aliceBaseKey := aliceBaseKey
  pqRatchetState := pqRatchetState

def sessionVersion (state : SessionState P) : ℕ :=
  if state.version = 0 then 2 else state.version

def sessionWithSelf (state : SessionState P) : Bool :=
  match state.remoteIdentityKey with
  | some remoteId => remoteId = state.localIdentityKey
  | none => false

def requireSenderChain (state : SessionState P) :
    Except SignalProtocolError (SenderChain P) :=
  Result.okOr state.senderChain (.invalidSessionStructure "missing sender chain")

def getReceiverChain (state : SessionState P) (sender : P.PublicKey) :
    Option (ReceiverChain P × ℕ) :=
  state.receiverChains.zipIdx.find? fun entry => entry.1.senderRatchetKey = sender

def getReceiverChainKey (state : SessionState P) (sender : P.PublicKey) :
    Option (ChainKey P) :=
  (state.getReceiverChain sender).map fun entry => entry.1.chainKey

/-- The oldest chain goes when there are too many. -/
def addReceiverChain (state : SessionState P) (sender : P.PublicKey) (chainKey : ChainKey P) :
    SessionState P :=
  let chains := state.receiverChains ++ [⟨sender, chainKey, []⟩]
  { state with
    receiverChains := if consts.MAX_RECEIVER_CHAINS < chains.length then chains.tail else chains }

def setSenderChain (state : SessionState P) (sender : P.KeyPair) (nextChainKey : ChainKey P) :
    SessionState P :=
  { state with senderChain := some ⟨sender, nextChainKey⟩ }

/-- The only caller has read the sender chain before. -/
def setSenderChainKey (state : SessionState P) (nextChainKey : ChainKey P) : SessionState P :=
  { state with
    senderChain := state.senderChain.map fun chain => { chain with chainKey := nextChainKey } }

/-- Writes a changed copy of the receiver chain back; without one, the caller's `expect` fails. -/
def updateReceiverChain (caller : String) (state : SessionState P) (sender : P.PublicKey)
    (update : ReceiverChain P → ReceiverChain P) :
    Except SignalProtocolError (SessionState P) :=
  match state.getReceiverChain sender with
  | none => .error (.panicked ("called " ++ caller ++ " for a non-existent chain"))
  | some (chain, position) =>
    .ok { state with receiverChains := state.receiverChains.set position (update chain) }

def getMessageKeys (state : SessionState P) (sender : P.PublicKey) (counter : UInt32) :
    Option (MessageKeyGenerator P × SessionState P) :=
  match state.getReceiverChain sender with
  | none => none
  | some (chain, position) =>
    match chain.messageKeys.find? fun generator => generator.index = counter with
    | none => none
    | some generator =>
      let remaining := chain.messageKeys.eraseP fun generator => generator.index = counter
      some (generator,
        { state with
          receiverChains :=
            state.receiverChains.set position { chain with messageKeys := remaining } })

/-- The oldest keys go when there are too many. -/
def setMessageKeys (state : SessionState P) (sender : P.PublicKey)
    (messageKeys : MessageKeyGenerator P) : Except SignalProtocolError (SessionState P) :=
  updateReceiverChain "set_message_keys" state sender fun chain =>
    let inserted := messageKeys :: chain.messageKeys
    { chain with
      messageKeys :=
        if consts.MAX_MESSAGE_KEYS < inserted.length then inserted.dropLast else inserted }

def setReceiverChainKey (state : SessionState P) (sender : P.PublicKey)
    (chainKey : ChainKey P) : Except SignalProtocolError (SessionState P) :=
  updateReceiverChain "set_receiver_chain_key" state sender fun chain =>
    { chain with chainKey := chainKey }

def clearUnacknowledgedPreKeyMessage (state : SessionState P) : SessionState P :=
  { state with pendingPreKey := none, pendingKyberPreKey := none }

end SessionState

structure SessionRecord (P : Primitives) where
  currentSession : Option (SessionState P)
  previousSessions : List (SessionState P)

namespace SessionRecord

def newFresh : SessionRecord P := ⟨none, []⟩

def states (record : SessionRecord P) : List (SessionState P) :=
  record.currentSession.toList ++ record.previousSessions

def archiveCurrentState (record : SessionRecord P) : SessionRecord P :=
  match record.currentSession with
  | none => record
  | some current =>
    let kept :=
      if consts.ARCHIVED_STATES_MAX_LENGTH ≤ record.previousSessions.length then
        record.previousSessions.dropLast
      else record.previousSessions
    ⟨none, current.clearUnacknowledgedPreKeyMessage :: kept⟩

def promoteState (record : SessionRecord P) (newState : SessionState P) : SessionRecord P :=
  { record.archiveCurrentState with currentSession := some newState }

def promoteOldSession (record : SessionRecord P) (oldSession : ℕ)
    (updatedSession : SessionState P) : SessionRecord P :=
  promoteState { record with previousSessions := record.previousSessions.eraseIdx oldSession }
    updatedSession

def Matches (version : ℕ) (aliceBaseKey : P.PublicKey) (state : SessionState P) : Bool :=
  state.sessionVersion = version && state.aliceBaseKey = aliceBaseKey

def promoteMatchingSession (record : SessionRecord P) (version : ℕ)
    (aliceBaseKey : P.PublicKey) : Option (SessionRecord P) :=
  if record.currentSession.any (Matches version aliceBaseKey) then some record
  else
    (record.previousSessions.zipIdx.find? fun entry => Matches version aliceBaseKey entry.1).map
      fun entry => record.promoteOldSession entry.2 entry.1

end SessionRecord

end LegacySignal
