import LegacySignal.Group.SenderKeys

/-!
# Encryption for groups

The functions of `group_cipher.rs` on a store of sender keys. A message or a
distribution message stands for the bytes it is parsed from. Of what a failed
call has changed in the loaded record nothing is stored.
-/

namespace LegacySignal

open Result

structure SenderKeyMessage (P : GroupPrimitives) where
  content : SenderKeyContent P.Bytes
  signature : P.Signature

structure SenderKeyDistributionMessage (P : GroupPrimitives) where
  messageVersion : ℕ
  distributionId : Uuid
  chainId : UInt32
  iteration : UInt32
  chainKey : P.Secret
  signingKey : P.PublicKey

structure SenderKeyDraw (P : GroupPrimitives) where
  chainId : UInt32
  senderKey : P.Secret
  signingKey : P.PrivateKey

class SenderKeyStore (P : outParam GroupPrimitives) (Store : Type) where
  loadSenderKey : Store → SignalProtocolAddress → Uuid → Option (SenderKeyRecord P)
  storeSenderKey : Store → SignalProtocolAddress → Uuid → SenderKeyRecord P → Store

open SenderKeyStore in
/-- The record is what was stored last. -/
class LawfulSenderKeyStore (P : outParam GroupPrimitives) (Store : Type) [SenderKeyStore P Store] :
    Prop where
  loadSenderKey_storeSenderKey (store : Store) (sender : SignalProtocolAddress)
    (distributionId : Uuid) (record : SenderKeyRecord P) :
    loadSenderKey (storeSenderKey store sender distributionId record) sender distributionId =
      some record
  loadSenderKey_storeSenderKey_of_ne (store : Store) {sender other : SignalProtocolAddress}
    {distributionId otherId : Uuid} (record : SenderKeyRecord P)
    (different : (other, otherId) ≠ (sender, distributionId)) :
    loadSenderKey (storeSenderKey store sender distributionId record) other otherId =
      loadSenderKey store other otherId

def InMemSenderKeyStore (P : GroupPrimitives) : Type :=
  SignalProtocolAddress × Uuid → Option (SenderKeyRecord P)

namespace InMemSenderKeyStore

variable {P : GroupPrimitives}

def new : InMemSenderKeyStore P := fun _ => none

instance : SenderKeyStore P (InMemSenderKeyStore P) where
  loadSenderKey := fun store sender distributionId => store (sender, distributionId)
  storeSenderKey := fun store sender distributionId record =>
    Function.update store (sender, distributionId) (some record)

instance : LawfulSenderKeyStore P (InMemSenderKeyStore P) where
  loadSenderKey_storeSenderKey := fun store sender distributionId record =>
    Function.update_self (sender, distributionId) (some record) store
  loadSenderKey_storeSenderKey_of_ne := fun store _ _ _ _ record different =>
    Function.update_of_ne different (some record) store

end InMemSenderKeyStore

variable {P : GroupPrimitives} {Store : Type} [SenderKeyStore P Store]
  {message : SenderKeyMessage P} {ptext : P.Bytes} {store : Store} {sender : SignalProtocolAddress}

open SenderKeyStore

def SenderKeyState.encrypt (state : SenderKeyState P) (distributionId : Uuid) (ptext : P.Bytes)
    (random : P.Random) : Except GroupError (SenderKeyMessage P × SenderKeyState P) := do
  let messageVersion ← okOr
    (if state.messageVersion < 256 then some state.messageVersion else none)
    (.invalidSenderKeySession distributionId)
  let messageKeys := state.senderChainKey.senderMessageKey
  let ciphertext := P.aesCbcEncrypt ptext messageKeys.cipherKey messageKeys.iv
  let signingKey ← okOr state.signingKeyPrivate (.invalidSenderKeySession distributionId)
  let content : SenderKeyContent P.Bytes :=
    ⟨messageVersion % 16, distributionId, state.chainId, messageKeys.iteration, ciphertext⟩
  let nextKey ← state.senderChainKey.next
  return (⟨content, P.calculateSignature signingKey content random⟩,
    { state with senderChainKey := nextKey })

def groupEncrypt (store : Store) (sender : SignalProtocolAddress) (distributionId : Uuid)
    (ptext : P.Bytes) (random : P.Random) : Except GroupError (SenderKeyMessage P) × Store :=
  match loadSenderKey store sender distributionId with
  | none => (.error (.noSenderKeyState distributionId), store)
  | some ⟨[]⟩ => (.error (.invalidSenderKeySession distributionId), store)
  | some ⟨state :: others⟩ =>
    match state.encrypt distributionId ptext random with
    | .error error => (.error error, store)
    | .ok (message, advanced) =>
      (.ok message, storeSenderKey store sender distributionId ⟨advanced :: others⟩)

/-- The loop of `get_sender_key` over the iterations that are skipped. -/
def skipSenderKeys : ℕ → SenderKeyState P → SenderChainKey P →
    Except GroupError (SenderKeyState P × SenderChainKey P)
  | 0, state, chainKey => .ok (state, chainKey)
  | count + 1, state, chainKey => do
      let nextKey ← chainKey.next
      skipSenderKeys count (state.addSenderMessageKey chainKey.senderMessageKey) nextKey

def getSenderKey (state : SenderKeyState P) (iteration : UInt32) :
    Except GroupError (SenderMessageKey P × SenderKeyState P) :=
  let current := state.senderChainKey.iteration
  if iteration < current then
    okOr (state.removeSenderMessageKey iteration) (.duplicatedMessage current iteration)
  else if consts.MAX_FORWARD_JUMPS < iteration.toNat - current.toNat then
    .error (.invalidMessage .senderKey "message from too far into the future")
  else do
    let (skipped, chainKey) ←
      skipSenderKeys (iteration.toNat - current.toNat) state state.senderChainKey
    let nextKey ← chainKey.next
    return (chainKey.senderMessageKey, { skipped with senderChainKey := nextKey })

def SenderKeyState.decrypt (state : SenderKeyState P) (message : SenderKeyMessage P) :
    Except GroupError (P.Bytes × SenderKeyState P) := do
  ensure (message.content.messageVersion = state.messageVersion)
    (.unrecognizedMessageVersion message.content.messageVersion)
  ensure (P.verifySignature state.signingKeyPublic message.content message.signature)
    .signatureValidationFailed
  let (senderKey, advanced) ← getSenderKey state message.content.iteration
  let plaintext ← okOr
    (P.aesCbcDecrypt message.content.ciphertext senderKey.cipherKey senderKey.iv)
    (.invalidMessage .senderKey "decryption failed")
  return (plaintext, advanced)

def SenderKeyRecord.decrypt (record : SenderKeyRecord P) (message : SenderKeyMessage P) :
    Except GroupError (P.Bytes × SenderKeyRecord P) := do
  let state ← okOr (record.senderKeyStateForChainId message.content.chainId)
    (.noSenderKeyState message.content.distributionId)
  let (plaintext, advanced) ← state.decrypt message
  return (plaintext, record.setStateForChainId message.content.chainId advanced)

/-- The version check of `SenderKeyMessage::try_from`. -/
def checkSenderKeyVersion (version : ℕ) : Except GroupError Unit := do
  ensure (SENDERKEY_MESSAGE_CURRENT_VERSION ≤ version) (.legacyCiphertextVersion version)
  ensure (version ≤ SENDERKEY_MESSAGE_CURRENT_VERSION)
    (.unrecognizedCiphertextVersion version)

/-- `group_decrypt` up to the write. -/
def decryptUpdate (store : Store) (sender : SignalProtocolAddress) (message : SenderKeyMessage P) :
    Except GroupError (P.Bytes × SenderKeyRecord P) := do
  checkSenderKeyVersion message.content.messageVersion
  let record ← okOr (loadSenderKey store sender message.content.distributionId)
    (.noSenderKeyState message.content.distributionId)
  record.decrypt message

def groupDecrypt (store : Store) (sender : SignalProtocolAddress) (message : SenderKeyMessage P) :
    Except GroupError P.Bytes × Store :=
  match decryptUpdate store sender message with
  | .error error => (.error error, store)
  | .ok (plaintext, record) =>
    (.ok plaintext, storeSenderKey store sender message.content.distributionId record)

def processSenderKeyDistributionMessage (sender : SignalProtocolAddress)
    (skdm : SenderKeyDistributionMessage P) (store : Store) : Store :=
  let record := (loadSenderKey store sender skdm.distributionId).getD .newEmpty
  storeSenderKey store sender skdm.distributionId
    (record.addSenderKeyState skdm.messageVersion skdm.chainId skdm.iteration skdm.chainKey
      skdm.signingKey none)

/-- The record of the own chain; a chain is made where there is none. -/
def loadOrCreateSenderKey (sender : SignalProtocolAddress) (distributionId : Uuid) (store : Store)
    (draw : SenderKeyDraw P) : SenderKeyRecord P × Store :=
  match loadSenderKey store sender distributionId with
  | some record => (record, store)
  | none =>
    -- Chain ids have 31 bits.
    let record := SenderKeyRecord.newEmpty.addSenderKeyState SENDERKEY_MESSAGE_CURRENT_VERSION
      (draw.chainId >>> 1) 0 draw.senderKey (P.publicKey draw.signingKey) (some draw.signingKey)
    (record, storeSenderKey store sender distributionId record)

def createSenderKeyDistributionMessage (sender : SignalProtocolAddress) (distributionId : Uuid)
    (store : Store) (draw : SenderKeyDraw P) :
    Except GroupError (SenderKeyDistributionMessage P) × Store :=
  let (record, stored) := loadOrCreateSenderKey sender distributionId store draw
  match record.states with
  | [] => (.error (.invalidSenderKeySession distributionId), stored)
  | state :: _ =>
    if state.messageVersion < 256 then
      (.ok ⟨state.messageVersion, distributionId, state.chainId, state.senderChainKey.iteration,
        state.senderChainKey.chainKey, state.signingKeyPublic⟩, stored)
    else (.error (.invalidSenderKeySession distributionId), stored)

theorem SenderKeyState.decrypt_eq_ok {state advanced : SenderKeyState P} :
    state.decrypt message = .ok (ptext, advanced) ↔
      message.content.messageVersion = state.messageVersion ∧
      P.verifySignature state.signingKeyPublic message.content message.signature = true ∧
      ∃ key, getSenderKey state message.content.iteration = .ok (key, advanced) ∧
        P.aesCbcDecrypt message.content.ciphertext key.cipherKey key.iv = some ptext := by
  simp only [SenderKeyState.decrypt, bind_eq_ok, ensure_eq_ok, okOr_eq_ok]
  constructor
  · rintro ⟨_, version, _, verified, ⟨key, next⟩, found, plaintext, opened, result⟩
    cases result
    exact ⟨version, verified, key, found, opened⟩
  · rintro ⟨version, verified, key, found, opened⟩
    exact ⟨(), version, (), verified, (key, advanced), found, ptext, opened, rfl⟩

theorem SenderKeyRecord.decrypt_eq_ok {record updated : SenderKeyRecord P} :
    record.decrypt message = .ok (ptext, updated) ↔
      ∃ state advanced, record.senderKeyStateForChainId message.content.chainId = some state ∧
        state.decrypt message = .ok (ptext, advanced) ∧
        updated = record.setStateForChainId message.content.chainId advanced := by
  simp only [SenderKeyRecord.decrypt, bind_eq_ok, okOr_eq_ok]
  constructor
  · rintro ⟨state, found, ⟨plaintext, advanced⟩, decrypted, result⟩
    cases result
    exact ⟨state, advanced, found, decrypted, rfl⟩
  · rintro ⟨state, advanced, found, decrypted, rfl⟩
    exact ⟨state, found, (ptext, advanced), decrypted, rfl⟩

theorem checkSenderKeyVersion_eq_ok {version : ℕ} {done : Unit} :
    checkSenderKeyVersion version = .ok done ↔ version = SENDERKEY_MESSAGE_CURRENT_VERSION := by
  simp only [checkSenderKeyVersion, bind_eq_ok, ensure_eq_ok]
  constructor
  · rintro ⟨_, least, most⟩
    exact Nat.le_antisymm most least
  · rintro rfl
    exact ⟨(), Nat.le_refl _, Nat.le_refl _⟩

theorem decryptUpdate_eq_ok {updated : SenderKeyRecord P} :
    decryptUpdate store sender message = .ok (ptext, updated) ↔
      message.content.messageVersion = SENDERKEY_MESSAGE_CURRENT_VERSION ∧
      ∃ record, loadSenderKey store sender message.content.distributionId = some record ∧
        record.decrypt message = .ok (ptext, updated) := by
  simp only [decryptUpdate, bind_eq_ok, okOr_eq_ok, checkSenderKeyVersion_eq_ok]
  constructor
  · rintro ⟨_, version, record, loaded, decrypted⟩
    exact ⟨version, record, loaded, decrypted⟩
  · rintro ⟨version, record, loaded, decrypted⟩
    exact ⟨(), version, record, loaded, decrypted⟩

theorem groupDecrypt_eq_ok {store after : Store} :
    groupDecrypt store sender message = (.ok ptext, after) ↔
      ∃ updated, decryptUpdate store sender message = .ok (ptext, updated) ∧
        after = storeSenderKey store sender message.content.distributionId updated := by
  rw [groupDecrypt]
  constructor
  · intro succeeded
    split at succeeded
    · cases succeeded
    · rename_i updated decrypted
      cases succeeded
      exact ⟨_, decrypted, rfl⟩
  · rintro ⟨updated, decrypted, rfl⟩
    rw [decrypted]

theorem groupDecrypt_error {error : GroupError}
    (failed : (groupDecrypt store sender message).1 = .error error) :
    (groupDecrypt store sender message).2 = store := by
  rw [groupDecrypt] at failed ⊢
  split at failed
  · rfl
  · cases failed

theorem groupDecrypt_fails
    (refused : ∀ ptext updated, decryptUpdate store sender message ≠ .ok (ptext, updated)) :
    ∃ error, (groupDecrypt store sender message).1 = .error error := by
  rw [groupDecrypt]
  split
  · exact ⟨_, rfl⟩
  · rename_i decrypted
    exact absurd decrypted (refused _ _)

end LegacySignal
