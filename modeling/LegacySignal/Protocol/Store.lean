import LegacySignal.Protocol.Setup
import LegacySignal.Store.SharedPrefs

/-!
# Session operations over a protocol store

The functions of `session_cipher.rs` and `session.rs` on a store. Each one
loads the record of the address, computes an update from the loaded copy, and
commits the update; nothing else ties the load to the commit. A commit writes
the identity first and the session last, and what it has written stays when a
later write fails.
-/

namespace LegacySignal

open Result

/-- The store traits, as far as sessions use them. -/
class ProtocolStore (P : outParam Primitives) (Store : Type) where
  loadSession : Store → SignalProtocolAddress →
    Except SignalProtocolError (Option (SessionRecord P))
  storeSession : Store → SignalProtocolAddress → SessionRecord P → Store
  deleteSession : Store → SignalProtocolAddress → Store
  getIdentityKeyPair : Store → Except SignalProtocolError P.KeyPair
  getLocalRegistrationId : Store → Except SignalProtocolError UInt32
  isTrustedIdentity : Store → SignalProtocolAddress → P.PublicKey → Direction → Bool
  saveIdentity : Store → SignalProtocolAddress → P.PublicKey → Store
  getPreKey : Store → UInt32 → Except SignalProtocolError P.KeyPair
  removePreKey : Store → UInt32 → Store
  getSignedPreKey : Store → UInt32 → Except SignalProtocolError P.KeyPair
  getKyberPreKey : Store → UInt32 → Except SignalProtocolError P.KemSecretKey
  markKyberPreKeyUsed : Store → UInt32 → UInt32 → P.PublicKey → Except SignalProtocolError Store

/-- The session of an address is what was stored last, whatever else is written. -/
class LawfulProtocolStore (P : outParam Primitives) (Store : Type) [ProtocolStore P Store] :
    Prop where
  loadSession_storeSession (store : Store) (address : SignalProtocolAddress)
    (record : SessionRecord P) :
    ProtocolStore.loadSession (ProtocolStore.storeSession store address record) address =
      .ok (some record)
  loadSession_storeSession_of_ne (store : Store) {address other : SignalProtocolAddress}
    (record : SessionRecord P) (different : other ≠ address) :
    ProtocolStore.loadSession (ProtocolStore.storeSession store address record) other =
      ProtocolStore.loadSession store other
  loadSession_deleteSession (store : Store) (address : SignalProtocolAddress) :
    (ProtocolStore.loadSession (ProtocolStore.deleteSession store address) address).map
      (fun loaded => loaded.getD SessionRecord.newFresh) = .ok SessionRecord.newFresh
  loadSession_saveIdentity (store : Store) (address other : SignalProtocolAddress)
    (identity : P.PublicKey) :
    ProtocolStore.loadSession (ProtocolStore.saveIdentity store address identity) other =
      ProtocolStore.loadSession store other
  loadSession_removePreKey (store : Store) (preKeyId : UInt32) (other : SignalProtocolAddress) :
    ProtocolStore.loadSession (ProtocolStore.removePreKey store preKeyId) other =
      ProtocolStore.loadSession store other
  loadSession_markKyberPreKeyUsed {store marked : Store} {kyberPreKeyId signedPreKeyId : UInt32}
    {baseKey : P.PublicKey} (other : SignalProtocolAddress)
    (done : ProtocolStore.markKyberPreKeyUsed store kyberPreKeyId signedPreKeyId baseKey =
      .ok marked) :
    ProtocolStore.loadSession marked other = ProtocolStore.loadSession store other

attribute [simp] LawfulProtocolStore.loadSession_storeSession
  LawfulProtocolStore.loadSession_saveIdentity LawfulProtocolStore.loadSession_removePreKey

class TrustingProtocolStore (P : outParam Primitives) (Store : Type) [ProtocolStore P Store] :
    Prop where
  isTrustedIdentity_eq (store : Store) (address : SignalProtocolAddress) (identity : P.PublicKey)
    (direction : Direction) :
    ProtocolStore.isTrustedIdentity store address identity direction = true

structure PreKeysUsed where
  oneTimeEcPreKeyId : Option UInt32
  signedEcPreKeyId : UInt32
  kyberPreKeyId : Option UInt32
deriving DecidableEq, Repr

/-- What an operation is about to write, with what it then returns. -/
structure SessionUpdate (P : Primitives) (Output : Type) where
  output : Output
  record : SessionRecord P
  identity : P.PublicKey
  /-- With the base key that the use of the prekeys is recorded under. -/
  preKeysUsed : Option (PreKeysUsed × P.PublicKey)

variable {P : Primitives} {Store Output : Type} [ProtocolStore P Store]

open ProtocolStore

def SessionUpdate.mapOutput {Other : Type} (function : Output → Other)
    (update : SessionUpdate P Output) : SessionUpdate P Other :=
  ⟨function update.output, update.record, update.identity, update.preKeysUsed⟩

def loadOrFresh (store : Store) (address : SignalProtocolAddress) :
    Except SignalProtocolError (SessionRecord P) :=
  (loadSession store address).map fun loaded => loaded.getD SessionRecord.newFresh

def loadExisting (store : Store) (address : SignalProtocolAddress) :
    Except SignalProtocolError (SessionRecord P) := do
  let loaded ← loadSession store address
  okOr loaded (.sessionNotFound address)

/-- The use of a one-time and a Kyber prekey. -/
def recordPreKeysUsed (store : Store) (used : PreKeysUsed) (baseKey : P.PublicKey) :
    Except SignalProtocolError Store :=
  let marked : Except SignalProtocolError Store :=
    match used.kyberPreKeyId with
    | none => .ok store
    | some kyberPreKeyId =>
      markKyberPreKeyUsed store kyberPreKeyId used.signedEcPreKeyId baseKey
  marked.map fun store =>
    match used.oneTimeEcPreKeyId with
    | none => store
    | some preKeyId => removePreKey store preKeyId

def commit (store : Store) (address : SignalProtocolAddress)
    (update : SessionUpdate P Output) : Except SignalProtocolError Output × Store :=
  let saved := saveIdentity store address update.identity
  match update.preKeysUsed with
  | none => (.ok update.output, storeSession saved address update.record)
  | some (used, baseKey) =>
    match recordPreKeysUsed saved used baseKey with
    | .error error => (.error error, saved)
    | .ok recorded => (.ok update.output, storeSession recorded address update.record)

/-- Commits an update that could be computed; an error leaves the store as it is. -/
def commitResult (store : Store) (address : SignalProtocolAddress) :
    Except SignalProtocolError (SessionUpdate P Output) →
      Except SignalProtocolError Output × Store
  | .error error => (.error error, store)
  | .ok update => commit store address update

/-- `message_encrypt` from the loaded record to the writes. -/
def encryptUpdate (store : Store) (address : SignalProtocolAddress) (ptext : P.Bytes) (now : ℕ)
    (random : P.Random) (record : SessionRecord P) :
    Except SignalProtocolError (SessionUpdate P (CiphertextMessage P)) := do
  let state ← okOr record.currentSession (.sessionNotFound address)
  let (message, sent, theirIdentityKey) ← state.encryptMessage address ptext now random
  ensure (isTrustedIdentity store address theirIdentityKey .sending)
    (.untrustedIdentity address)
  .ok ⟨message, { record with currentSession := some sent }, theirIdentityKey, none⟩

def messageEncrypt (store : Store) (address : SignalProtocolAddress) (ptext : P.Bytes) (now : ℕ)
    (random : P.Random) : Except SignalProtocolError (CiphertextMessage P) × Store :=
  commitResult store address
    ((loadExisting store address).bind (encryptUpdate store address ptext now random))

/-- `message_decrypt_signal` from the loaded record to the writes. -/
def decryptSignalUpdate (store : Store) (address : SignalProtocolAddress)
    (ciphertext : SignalMessage P) (ourNewEphemeral : P.PrivateKey) (record : SessionRecord P) :
    Except SignalProtocolError (SessionUpdate P P.Bytes) := do
  let (ptext, decrypted) ← record.decryptMessage ciphertext .whisper ourNewEphemeral
  let theirIdentityKey ←
    okOr (decrypted.currentSession.bind SessionState.remoteIdentityKey)
      (.panicked "successfully decrypted; must have a remote identity key")
  ensure (isTrustedIdentity store address theirIdentityKey .receiving)
    (.untrustedIdentity address)
  .ok ⟨ptext, decrypted, theirIdentityKey, none⟩

def messageDecryptSignal (store : Store) (address : SignalProtocolAddress)
    (ciphertext : SignalMessage P) (ourNewEphemeral : P.PrivateKey) :
    Except SignalProtocolError P.Bytes × Store :=
  commitResult store address
    ((loadExisting store address).bind
      (decryptSignalUpdate store address ciphertext ourNewEphemeral))

/-- The own keys that a prekey message names. -/
def bobParameters (store : Store) (message : PreKeySignalMessage P) :
    Except SignalProtocolError (BobSignalProtocolParameters P) := do
  let ourSignedPreKeyPair ← getSignedPreKey store message.signedPreKeyId
  let payload ←
    okOr message.kyberPayload (.invalidMessage .preKey "missing pq pre-key ID")
  let ourKyberPreKeyPair ← getKyberPreKey store payload.preKeyId
  let ourOneTimePreKeyPair ← message.preKeyId.mapM (getPreKey store)
  let ourIdentityKeyPair ← getIdentityKeyPair store
  .ok
    { ourIdentityKeyPair := ourIdentityKeyPair
      ourSignedPreKeyPair := ourSignedPreKeyPair
      ourOneTimePreKeyPair := ourOneTimePreKeyPair
      ourRatchetKeyPair := ourSignedPreKeyPair
      ourKyberPreKeyPair := ourKyberPreKeyPair
      theirIdentityKey := message.identityKey
      theirBaseKey := message.baseKey
      theirKyberCiphertext := payload.ciphertext }

/-- The session that a prekey message sets up. -/
def sessionFromPreKey (store : Store) (message : PreKeySignalMessage P) :
    Except SignalProtocolError (SessionState P) := do
  ensure (message.messageVersion ≠ CIPHERTEXT_MESSAGE_PRE_KYBER_VERSION)
    (.invalidMessage .preKey "X3DH no longer supported")
  let parameters ← bobParameters store message
  let newSession ← initializeBobSession parameters
  let localRegistrationId ← getLocalRegistrationId store
  .ok
    { newSession with
      localRegistrationId := localRegistrationId
      remoteRegistrationId := message.registrationId }

/-- `process_prekey_impl`: the record with the session of the message as the current one. -/
def processPreKey (store : Store) (message : PreKeySignalMessage P) (record : SessionRecord P) :
    Except SignalProtocolError (Option PreKeysUsed × SessionRecord P) :=
  match record.promoteMatchingSession message.messageVersion message.baseKey with
  | some promoted => .ok (none, promoted)
  | none =>
    (sessionFromPreKey store message).map fun newSession =>
      (some ⟨message.preKeyId, message.signedPreKeyId,
          message.kyberPayload.map KyberPayload.preKeyId⟩,
        record.promoteState newSession)

/-- `message_decrypt_prekey` from the loaded record to the writes. -/
def decryptPreKeyUpdate (store : Store) (address : SignalProtocolAddress)
    (ciphertext : PreKeySignalMessage P) (ourNewEphemeral : P.PrivateKey)
    (record : SessionRecord P) : Except SignalProtocolError (SessionUpdate P P.Bytes) := do
  ensure (isTrustedIdentity store address ciphertext.identityKey .receiving)
    (.untrustedIdentity address)
  let (used, processed) ← processPreKey store ciphertext record
  let (ptext, decrypted) ← processed.decryptMessage ciphertext.message .preKey ourNewEphemeral
  .ok ⟨ptext, decrypted, ciphertext.identityKey, used.map fun keys => (keys, ciphertext.baseKey)⟩

def messageDecryptPreKey (store : Store) (address : SignalProtocolAddress)
    (ciphertext : PreKeySignalMessage P) (ourNewEphemeral : P.PrivateKey) :
    Except SignalProtocolError P.Bytes × Store :=
  commitResult store address
    ((loadOrFresh store address).bind
      (decryptPreKeyUpdate store address ciphertext ourNewEphemeral))

def messageDecrypt (store : Store) (address : SignalProtocolAddress)
    (ciphertext : CiphertextMessage P) (ourNewEphemeral : P.PrivateKey) :
    Except SignalProtocolError P.Bytes × Store :=
  match ciphertext with
  | .signalMessage message => messageDecryptSignal store address message ourNewEphemeral
  | .preKeySignalMessage message => messageDecryptPreKey store address message ourNewEphemeral

/-- What `process_prekey_bundle` draws. -/
structure BundleRandomness (P : Primitives) where
  baseKey : P.PrivateKey
  kyber : P.Random
  ratchetKey : P.PrivateKey

/-- `process_prekey_bundle` from the loaded record to the writes. -/
def preKeyBundleUpdate (store : Store) (address : SignalProtocolAddress)
    (bundle : PreKeyBundle P) (now : ℕ) (random : BundleRandomness P)
    (record : SessionRecord P) : Except SignalProtocolError (SessionUpdate P Unit) := do
  ensure (isTrustedIdentity store address bundle.identityKey .sending)
    (.untrustedIdentity address)
  ensure
    (P.verifySignature bundle.identityKey bundle.signedPreKeyPublic bundle.signedPreKeySignature)
    .signatureValidationFailed
  ensure
    (P.verifyKemSignature bundle.identityKey bundle.kyberPreKeyPublic bundle.kyberPreKeySignature)
    .signatureValidationFailed
  let ourIdentityKeyPair ← getIdentityKeyPair store
  let session ← initializeAliceSession (bundle.parameters ourIdentityKeyPair ⟨random.baseKey⟩)
    random.kyber random.ratchetKey
  let localRegistrationId ← getLocalRegistrationId store
  let pending :=
    session.setUnacknowledged bundle (P.publicKey random.baseKey) now localRegistrationId
  .ok ⟨(), record.promoteState pending, bundle.identityKey, none⟩

def processPreKeyBundle (store : Store) (address : SignalProtocolAddress)
    (bundle : PreKeyBundle P) (now : ℕ) (random : BundleRandomness P) :
    Except SignalProtocolError Unit × Store :=
  commitResult store address
    ((loadOrFresh store address).bind (preKeyBundleUpdate store address bundle now random))

/-- One call of a session operation, with what it draws. -/
inductive SessionCall (P : Primitives) where
  | encrypt (ptext : P.Bytes) (now : ℕ) (random : P.Random)
  | decryptSignal (ciphertext : SignalMessage P) (ourNewEphemeral : P.PrivateKey)
  | decryptPreKey (ciphertext : PreKeySignalMessage P) (ourNewEphemeral : P.PrivateKey)
  | processBundle (bundle : PreKeyBundle P) (now : ℕ) (random : BundleRandomness P)

/-- Whether the call succeeds, and the store that it leaves. -/
def SessionCall.perform (store : Store) (address : SignalProtocolAddress) :
    SessionCall P → Except SignalProtocolError Unit × Store
  | .encrypt ptext now random =>
    (messageEncrypt store address ptext now random).map (Except.map fun _ => ()) id
  | .decryptSignal ciphertext ourNewEphemeral =>
    (messageDecryptSignal store address ciphertext ourNewEphemeral).map
      (Except.map fun _ => ()) id
  | .decryptPreKey ciphertext ourNewEphemeral =>
    (messageDecryptPreKey store address ciphertext ourNewEphemeral).map
      (Except.map fun _ => ()) id
  | .processBundle bundle now random => processPreKeyBundle store address bundle now random

end LegacySignal
