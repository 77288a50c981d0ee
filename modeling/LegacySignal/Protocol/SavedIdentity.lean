import LegacySignal.Protocol.Delivery
import LegacySignal.Protocol.InMemStore

/-!
# The identity that is saved with a message

A received message is accepted by the state whose keys verify its MAC, and
the MAC covers the remote identity of that state. `message_decrypt_signal`
saves this identity. `message_decrypt_prekey` saves the identity that stands
on the outside of the message, where no MAC covers it, and it does so also
when the session of the message is already there.
-/

namespace LegacySignal

open ProtocolStore

variable {P : Primitives} {Store : Type}

/-- A store with the identities that were saved in it, the newest first. -/
structure WatchedStore (P : Primitives) (Store : Type) where
  store : Store
  saved : List (SignalProtocolAddress × P.PublicKey)

variable [ProtocolStore P Store] {ourNewEphemeral : P.PrivateKey} {store : Store}
  {address : SignalProtocolAddress} {record : SessionRecord P} {update : SessionUpdate P P.Bytes}
  {message : PreKeySignalMessage P}

instance : ProtocolStore P (WatchedStore P Store) where
  loadSession watched := loadSession watched.store
  storeSession watched address record :=
    { watched with store := storeSession watched.store address record }
  deleteSession watched address :=
    { watched with store := deleteSession watched.store address }
  getIdentityKeyPair watched := getIdentityKeyPair watched.store
  getLocalRegistrationId watched := getLocalRegistrationId watched.store
  isTrustedIdentity watched := isTrustedIdentity watched.store
  saveIdentity watched address identity :=
    ⟨saveIdentity watched.store address identity, (address, identity) :: watched.saved⟩
  getPreKey watched := getPreKey watched.store
  removePreKey watched preKeyId := { watched with store := removePreKey watched.store preKeyId }
  getSignedPreKey watched := getSignedPreKey watched.store
  getKyberPreKey watched := getKyberPreKey watched.store
  markKyberPreKeyUsed watched kyberPreKeyId signedPreKeyId baseKey :=
    (markKyberPreKeyUsed watched.store kyberPreKeyId signedPreKeyId baseKey).map fun marked =>
      { watched with store := marked }

def processedRecord (store : Store) (address : SignalProtocolAddress) :
    CiphertextMessage P → Except SignalProtocolError (SessionRecord P)
  | .signalMessage _ => loadExisting store address
  | .preKeySignalMessage message =>
    (loadOrFresh store address).bind fun record =>
      (processPreKey store message record).map Prod.snd

/-- The state whose MAC check accepts the message. -/
def acceptingState (store : Store) (address : SignalProtocolAddress)
    (message : CiphertextMessage P) (ourNewEphemeral : P.PrivateKey) : Option (SessionState P) :=
  match processedRecord store address message with
  | .error _ => none
  | .ok record => record.accepting message.inner (messageTypeOf message) ourNewEphemeral

/-- A prekey message of a session that is already there names the identity of that session. -/
def NamesSessionIdentity (store : Store) (address : SignalProtocolAddress) :
    CiphertextMessage P → Prop
  | .signalMessage _ => True
  | .preKeySignalMessage message =>
    ∀ record state, loadOrFresh store address = .ok record →
      record.matchingSession message.messageVersion message.baseKey = some state →
      state.remoteIdentityKey = some message.identityKey

section Watched

theorem recordPreKeysUsed_watched (watched : WatchedStore P Store) (used : PreKeysUsed)
    (baseKey : P.PublicKey) :
    recordPreKeysUsed watched used baseKey =
      (recordPreKeysUsed watched.store used baseKey).map fun recorded =>
        { watched with store := recorded } := by
  rcases used with ⟨oneTime, signed, _ | kyber⟩
  · cases oneTime <;> rfl
  · simp only [recordPreKeysUsed, markKyberPreKeyUsed]
    cases ProtocolStore.markKyberPreKeyUsed watched.store kyber signed baseKey with
    | error error => rfl
    | ok marked => cases oneTime <;> rfl

variable {Output : Type}

theorem commitResult_watched (watched : WatchedStore P Store) (address : SignalProtocolAddress)
    (result : Except SignalProtocolError (SessionUpdate P Output)) :
    (commitResult watched address result).1 = (commitResult watched.store address result).1 ∧
      (commitResult watched address result).2.store =
        (commitResult watched.store address result).2 := by
  rcases result with error | ⟨output, record, identity, _ | ⟨used, baseKey⟩⟩
  · exact ⟨rfl, rfl⟩
  · exact ⟨rfl, rfl⟩
  · simp only [commitResult, commit, recordPreKeysUsed_watched, saveIdentity]
    cases recordPreKeysUsed (ProtocolStore.saveIdentity watched.store address identity) used
      baseKey <;> exact ⟨rfl, rfl⟩

theorem messageDecrypt_watched (watched : WatchedStore P Store) (address : SignalProtocolAddress)
    (message : CiphertextMessage P) (ourNewEphemeral : P.PrivateKey) :
    (messageDecrypt watched address message ourNewEphemeral).1 =
        (messageDecrypt watched.store address message ourNewEphemeral).1 ∧
      (messageDecrypt watched address message ourNewEphemeral).2.store =
        (messageDecrypt watched.store address message ourNewEphemeral).2 := by
  cases message with
  | signalMessage message => exact commitResult_watched watched address _
  | preKeySignalMessage message => exact commitResult_watched watched address _

theorem saved_commitResult {watched after : WatchedStore P Store} {address : SignalProtocolAddress}
    {result : Except SignalProtocolError (SessionUpdate P Output)} {output : Output}
    (succeeded : commitResult watched address result = (.ok output, after)) :
    ∃ update, result = .ok update ∧ update.output = output ∧
      after.saved = (address, update.identity) :: watched.saved := by
  rcases result with error | ⟨made, record, identity, _ | ⟨used, baseKey⟩⟩
  · cases succeeded
  · cases succeeded
    exact ⟨_, rfl, rfl, rfl⟩
  · simp only [commitResult, commit, recordPreKeysUsed_watched, saveIdentity] at succeeded
    cases recorded : recordPreKeysUsed (ProtocolStore.saveIdentity watched.store address identity)
        used baseKey with
    | error error =>
      rw [recorded] at succeeded
      cases succeeded
    | ok marked =>
      rw [recorded] at succeeded
      cases succeeded
      exact ⟨_, rfl, rfl, rfl⟩

end Watched

theorem remoteIdentityKey_decryptMessage_eq {state updated : SessionState P}
    {ciphertext : SignalMessage P} {messageType : CiphertextMessageType} {ptext : P.Bytes}
    (decrypts : state.decryptMessage ciphertext messageType ourNewEphemeral =
      .ok (ptext, updated)) : updated.remoteIdentityKey = state.remoteIdentityKey :=
  congrArg (fun setup => setup.2.2.1) (SessionState.setup_decryptMessage decrypts)

theorem identity_decryptSignalUpdate {message : SignalMessage P}
    (updates : decryptSignalUpdate store address message ourNewEphemeral record = .ok update) :
    ∃ state, record.accepting message .whisper ourNewEphemeral = some state ∧
      state.remoteIdentityKey = some update.identity := by
  rcases decryptSignalUpdate_eq_ok.mp updates with
    ⟨ptext, decrypted, identity, decrypts, remote, _, rfl⟩
  rcases SessionRecord.decryptMessage_eq_ok decrypts with
    ⟨state, updated, accepts, attempted, place⟩
  have isCurrent : decrypted.currentSession = some updated := by
    rcases place with ⟨_, rfl⟩ | ⟨position, _, rfl, _⟩ <;> rfl
  refine ⟨state, accepts, ?_⟩
  rw [← remoteIdentityKey_decryptMessage_eq attempted]
  rwa [isCurrent] at remote

theorem remoteIdentityKey_sessionFromPreKey {session : SessionState P}
    (makes : sessionFromPreKey store message = .ok session) :
    session.remoteIdentityKey = some message.identityKey := by
  rcases sessionFromPreKey_eq_ok.mp makes with
    ⟨_, parameters, made, _, parametersEq, madeEq, _, rfl⟩
  rcases bobParameters_eq_ok.mp parametersEq with ⟨_, _, _, _, _, _, _, _, _, _, rfl⟩
  rcases initializeBobSession_eq_ok.mp madeEq with ⟨_, _, _, _, _, rfl⟩
  rfl

/-- A prekey message saves the identity that it names. The state that accepts it is the matching
one, or the one that was set up for it. -/
theorem identity_decryptPreKeyUpdate
    (updates : decryptPreKeyUpdate store address message ourNewEphemeral record = .ok update) :
    update.identity = message.identityKey ∧
      ∃ used processed state, processPreKey store message record = .ok (used, processed) ∧
        processed.accepting message.message .preKey ourNewEphemeral = some state ∧
        (record.matchingSession message.messageVersion message.baseKey = some state ∨
        record.matchingSession message.messageVersion message.baseKey = none ∧
          state.remoteIdentityKey = some message.identityKey) := by
  rcases decryptPreKeyUpdate_eq_ok.mp updates with
    ⟨_, used, processed, ptext, decrypted, processes, decrypts, rfl⟩
  refine ⟨rfl, used, processed, ?_⟩
  rcases SessionRecord.decryptMessage_eq_ok decrypts with ⟨state, updated, accepts, _, place⟩
  refine ⟨state, processes, accepts, ?_⟩
  have isCurrent : ∀ current, processed.currentSession = some current → state = current := by
    intro current present
    rcases place with ⟨accepted, _⟩ | ⟨_, _, _, noCurrent⟩
    · exact Option.some.inj (accepted.symm.trans present)
    · cases (noCurrent rfl).symm.trans present
  rcases processPreKey_eq_ok processes with
    ⟨_, found, isMatching, ⟨current, rfl⟩ | ⟨position, _, rfl⟩⟩ | ⟨missing, _, session, makes, rfl⟩
  · exact Or.inl (isCurrent found current ▸ isMatching)
  · exact Or.inl (isCurrent found rfl ▸ isMatching)
  · exact Or.inr ⟨missing, isCurrent session rfl ▸ remoteIdentityKey_sessionFromPreKey makes⟩

/-- A decrypted message leaves the identity of the state that accepted it exactly when a prekey
message of a session that is already there names the identity of that session. -/
theorem saved_accepting_iff {watched after : WatchedStore P Store}
    {address : SignalProtocolAddress} {message : CiphertextMessage P}
    {ourNewEphemeral : P.PrivateKey} {ptext : P.Bytes}
    (decrypted : messageDecrypt watched address message ourNewEphemeral = (.ok ptext, after)) :
    (∃ state identity,
      acceptingState watched.store address message ourNewEphemeral = some state ∧
      state.remoteIdentityKey = some identity ∧
      after.saved = (address, identity) :: watched.saved) ↔
    NamesSessionIdentity watched.store address message := by
  cases message with
  | signalMessage message =>
    refine ⟨fun _ => trivial, fun _ => ?_⟩
    rcases saved_commitResult decrypted with ⟨update, computes, _, saved⟩
    rcases Result.bind_eq_ok.mp computes with ⟨record, loads, updates⟩
    rcases identity_decryptSignalUpdate updates with ⟨state, accepts, remote⟩
    refine ⟨state, update.identity, ?_, remote, saved⟩
    have loaded : loadExisting watched.store address = .ok record := loads
    simp only [acceptingState, processedRecord, loaded]
    exact accepts
  | preKeySignalMessage message =>
    rcases saved_commitResult decrypted with ⟨update, computes, _, saved⟩
    rcases Result.bind_eq_ok.mp computes with ⟨record, loads, updates⟩
    rcases identity_decryptPreKeyUpdate updates with
      ⟨named, used, processed, state, processes, accepts, place⟩
    have loaded : loadOrFresh watched.store address = .ok record := loads
    have processed_eq : processPreKey watched.store message record = .ok (used, processed) :=
      processes
    have accepted : acceptingState watched.store address (.preKeySignalMessage message)
        ourNewEphemeral = some state := by
      simp only [acceptingState, processedRecord, loaded, Except.bind, processed_eq, Except.map]
      exact accepts
    rw [named] at saved
    constructor
    · rintro ⟨other, identity, otherAccepts, remote, otherSaved⟩ other_record other_state
        otherLoaded isMatching
      cases accepted.symm.trans otherAccepts
      cases loaded.symm.trans otherLoaded
      cases saved.symm.trans otherSaved
      rcases place with found | ⟨missing, _⟩
      · cases found.symm.trans isMatching
        exact remote
      · cases missing.symm.trans isMatching
    · intro names
      refine ⟨state, message.identityKey, accepted, ?_, saved⟩
      rcases place with found | ⟨_, remote⟩
      · exact names record state loaded found
      · exact remote

open Symbolic Delivery

namespace Symbolic

/-- What the owner of the bundle has stored once the first message was decrypted. -/
def contactedRecord : SessionRecord symbolic :=
  (contactedMemory.sessions ⟨"alice", 1⟩).getD .newFresh

/-- The app's store with this record. -/
noncomputable def bobStore : AppStore SignalFormats.symbolic :=
  storeSession aliceStore ⟨"alice", 1⟩ contactedRecord

theorem loadOrFresh_bobStore : loadOrFresh bobStore ⟨"alice", 1⟩ = .ok contactedRecord := by
  have loaded : loadSession bobStore ⟨"alice", 1⟩ = .ok (some contactedRecord) :=
    LawfulProtocolStore.loadSession_storeSession _ _ _
  rw [loadOrFresh, loaded]
  rfl

/-- The second message, under whatever identity it is sent. -/
def secondMessageFrom (identity : ℕ) : CiphertextMessage symbolic :=
  .preKeySignalMessage { announced 1 (.plain 8) with identityKey := identity }

theorem messageDecrypt_secondMessageFrom (identity : ℕ) :
    ∃ after, messageDecrypt (⟨bobStore, []⟩ : WatchedStore symbolic _) ⟨"alice", 1⟩
      (secondMessageFrom identity) (13 : ℕ) = (.ok (Text.plain 8), after) ∧
      after.saved = [(⟨"alice", 1⟩, identity)] := by
  have loaded : loadOrFresh (⟨bobStore, []⟩ : WatchedStore symbolic _) ⟨"alice", 1⟩ =
      .ok contactedRecord := loadOrFresh_bobStore
  obtain ⟨updated, decrypts⟩ : ∃ updated, contactedRecord.decryptMessage
      (announced 1 (.plain 8)).message .preKey (13 : ℕ) = .ok (Text.plain 8, updated) := ⟨_, rfl⟩
  have updates : decryptPreKeyUpdate (⟨bobStore, []⟩ : WatchedStore symbolic _) ⟨"alice", 1⟩
      { announced 1 (.plain 8) with identityKey := identity } (13 : ℕ) contactedRecord =
        .ok ⟨Text.plain 8, updated, identity, none⟩ :=
    decryptPreKeyUpdate_eq_ok.mpr
      ⟨rfl, none, contactedRecord, Text.plain 8, updated, rfl, decrypts, rfl⟩
  refine ⟨storeSession (saveIdentity (⟨bobStore, []⟩ : WatchedStore symbolic _) ⟨"alice", 1⟩
    identity) ⟨"alice", 1⟩ updated, ?_, rfl⟩
  simp only [messageDecrypt, secondMessageFrom, messageDecryptPreKey, loaded, Except.bind, updates]
  rfl

end Symbolic

/-- The second message as it was sent leaves the identity of its session. -/
theorem saved_accepting_iff_secondMessage :
    ∃ state identity,
      acceptingState bobStore ⟨"alice", 1⟩ (secondMessageFrom 1) (13 : ℕ) = some state ∧
      state.remoteIdentityKey = some identity ∧
      ∃ after, messageDecrypt (⟨bobStore, []⟩ : WatchedStore symbolic _) ⟨"alice", 1⟩
        (secondMessageFrom 1) (13 : ℕ) = (.ok (Text.plain 8), after) ∧
        after.saved = [(⟨"alice", 1⟩, identity)] := by
  rcases messageDecrypt_secondMessageFrom 1 with ⟨after, decrypts, saved⟩
  have names : NamesSessionIdentity bobStore ⟨"alice", 1⟩ (secondMessageFrom 1) := by
    intro record state loaded isMatching
    cases loadOrFresh_bobStore.symm.trans loaded
    cases isMatching
    rfl
  rcases (saved_accepting_iff decrypts).mpr names with ⟨state, identity, accepts, remote, kept⟩
  exact ⟨state, identity, accepts, remote, after, decrypts, kept⟩

/-- The same message with another identity on its outside is accepted by the same session, and the
other identity is saved in the app's store. -/
theorem rewritten_identity_saved :
    ∃ state after,
      acceptingState bobStore ⟨"alice", 1⟩ (secondMessageFrom 9) (13 : ℕ) = some state ∧
      state.remoteIdentityKey = some ((1 : ℕ) : symbolic.PublicKey) ∧
      messageDecrypt (⟨bobStore, []⟩ : WatchedStore symbolic _) ⟨"alice", 1⟩
        (secondMessageFrom 9) (13 : ℕ) = (.ok (Text.plain 8), after) ∧
      after.saved = [(⟨"alice", 1⟩, (9 : ℕ))] := by
  rcases messageDecrypt_secondMessageFrom 9 with ⟨after, decrypts, saved⟩
  obtain ⟨state, accepts, remote⟩ : ∃ state,
      acceptingState bobStore ⟨"alice", 1⟩ (secondMessageFrom 9) (13 : ℕ) = some state ∧
        state.remoteIdentityKey = some ((1 : ℕ) : symbolic.PublicKey) := by
    simp only [acceptingState, processedRecord, secondMessageFrom, loadOrFresh_bobStore]
    exact ⟨_, rfl, rfl⟩
  exact ⟨state, after, accepts, remote, decrypts, saved⟩

end LegacySignal
