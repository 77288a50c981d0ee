import LegacySignal.Protocol.CipherSpec
import LegacySignal.Protocol.Store

/-!
# What the session operations compute

One lemma for each part of an operation on a store says when it succeeds and
what it then gives: the two setups of a session, the session that a prekey
message leads to, and the update of each operation.
-/

namespace LegacySignal

open Result LawfulProtocolStore

variable {P : Primitives}

/-- The session that the side that starts it sets up. -/
def AliceSignalProtocolParameters.session (parameters : AliceSignalProtocolParameters P)
    (sendingRatchetKey : P.PrivateKey) (sharedSecret : P.Secret)
    (kyberCiphertext : P.KemCiphertext) (pqrState : P.PqState) : SessionState P :=
  let keys := deriveKeys (parameters.secrets sharedSecret)
  let sending := createChain keys.1 parameters.theirRatchetKey sendingRatchetKey
  let session := SessionState.new CIPHERTEXT_MESSAGE_CURRENT_VERSION
    parameters.ourIdentityKeyPair.publicKey parameters.theirIdentityKey sending.1
    parameters.ourBaseKeyPair.publicKey pqrState
  { (session.addReceiverChain parameters.theirRatchetKey keys.2.1).setSenderChain
      ⟨sendingRatchetKey⟩ sending.2 with
    pendingKyberPreKey := some ⟨0xFFFFFFFF, kyberCiphertext⟩ }

/-- The session that the other side sets up from the first message. -/
def BobSignalProtocolParameters.session (parameters : BobSignalProtocolParameters P)
    (sharedSecret : P.Secret) (pqrState : P.PqState) : SessionState P :=
  let keys := deriveKeys (parameters.secrets sharedSecret)
  let session := SessionState.new CIPHERTEXT_MESSAGE_CURRENT_VERSION
    parameters.ourIdentityKeyPair.publicKey parameters.theirIdentityKey keys.1
    parameters.theirBaseKey pqrState
  session.setSenderChain parameters.ourRatchetKeyPair keys.2.1

variable {random : P.Random} {parameters : BobSignalProtocolParameters P} {Store Output : Type}
  {store after : Store} {message : PreKeySignalMessage P} {address : SignalProtocolAddress}
  {record : SessionRecord P} {session updated : SessionState P} {ptext : P.Bytes} {now : ℕ}
  {ourNewEphemeral : P.PrivateKey} {update : SessionUpdate P P.Bytes}

theorem initializeAliceSession_eq_ok {parameters : AliceSignalProtocolParameters P}
    {sendingRatchetKey : P.PrivateKey} :
    initializeAliceSession parameters random sendingRatchetKey = .ok session ↔
      ∃ sharedSecret kyberCiphertext pqrState,
        P.encapsulate parameters.theirKyberPreKey random = some (sharedSecret, kyberCiphertext) ∧
        P.pqInitialState (deriveKeys (parameters.secrets sharedSecret)).2.2 .a2b
          (parameters.ourIdentityKeyPair.publicKey = parameters.theirIdentityKey) =
            some pqrState ∧
        session = parameters.session sendingRatchetKey sharedSecret kyberCiphertext pqrState := by
  simp only [initializeAliceSession, bind_eq_ok, okOr_eq_ok]
  constructor
  · rintro ⟨⟨sharedSecret, ciphertext⟩, encapsulates, pqrState, pqrEq, ⟨⟩⟩
    exact ⟨sharedSecret, ciphertext, pqrState, encapsulates, pqrEq, rfl⟩
  · rintro ⟨sharedSecret, ciphertext, pqrState, encapsulates, pqrEq, rfl⟩
    exact ⟨_, encapsulates, pqrState, pqrEq, rfl⟩

theorem initializeBobSession_eq_ok :
    initializeBobSession parameters = .ok session ↔
      P.isCanonical parameters.theirBaseKey = true ∧
      ∃ sharedSecret pqrState,
        P.decapsulate parameters.ourKyberPreKeyPair parameters.theirKyberCiphertext =
          some sharedSecret ∧
        P.pqInitialState (deriveKeys (parameters.secrets sharedSecret)).2.2 .b2a
          (parameters.ourIdentityKeyPair.publicKey = parameters.theirIdentityKey) =
            some pqrState ∧
        session = parameters.session sharedSecret pqrState := by
  simp only [initializeBobSession, bind_eq_ok, okOr_eq_ok, ensure_eq_ok, exists_const]
  constructor
  · rintro ⟨canonical, sharedSecret, decapsulates, pqrState, pqrEq, ⟨⟩⟩
    exact ⟨canonical, sharedSecret, pqrState, decapsulates, pqrEq, rfl⟩
  · rintro ⟨canonical, sharedSecret, pqrState, decapsulates, pqrEq, rfl⟩
    exact ⟨canonical, sharedSecret, decapsulates, pqrState, pqrEq, rfl⟩

variable [ProtocolStore P Store]

open ProtocolStore

theorem sessionFromPreKey_eq_ok :
    sessionFromPreKey store message = .ok session ↔
      message.messageVersion ≠ CIPHERTEXT_MESSAGE_PRE_KYBER_VERSION ∧
      ∃ parameters made localRegistrationId,
        bobParameters store message = .ok parameters ∧
        initializeBobSession parameters = .ok made ∧
        getLocalRegistrationId store = .ok localRegistrationId ∧
        session = { made with
          localRegistrationId := localRegistrationId
          remoteRegistrationId := message.registrationId } := by
  simp only [sessionFromPreKey, bind_eq_ok, ensure_eq_ok, exists_const]
  constructor
  · rintro ⟨version, parameters, parametersEq, made, madeEq, localId, localEq, ⟨⟩⟩
    exact ⟨version, parameters, made, localId, parametersEq, madeEq, localEq, rfl⟩
  · rintro ⟨version, parameters, made, localId, parametersEq, madeEq, localEq, rfl⟩
    exact ⟨version, parameters, parametersEq, made, madeEq, localId, localEq, rfl⟩

/-- The keys that a prekey message names must all be in the store. -/
theorem bobParameters_eq_ok :
    bobParameters store message = .ok parameters ↔
      ∃ signed payload kyber oneTime identity,
        getSignedPreKey store message.signedPreKeyId = .ok signed ∧
        message.kyberPayload = some payload ∧
        getKyberPreKey store payload.preKeyId = .ok kyber ∧
        message.preKeyId.mapM (getPreKey store) = .ok oneTime ∧
        getIdentityKeyPair store = .ok identity ∧
        parameters =
          { ourIdentityKeyPair := identity
            ourSignedPreKeyPair := signed
            ourOneTimePreKeyPair := oneTime
            ourRatchetKeyPair := signed
            ourKyberPreKeyPair := kyber
            theirIdentityKey := message.identityKey
            theirBaseKey := message.baseKey
            theirKyberCiphertext := payload.ciphertext } := by
  simp only [bobParameters, bind_eq_ok, okOr_eq_ok]
  constructor
  · rintro ⟨signed, signedEq, payload, payloadEq, kyber, kyberEq, oneTime, oneTimeEq, identity,
      identityEq, ⟨⟩⟩
    exact ⟨signed, payload, kyber, oneTime, identity, signedEq, payloadEq, kyberEq, oneTimeEq,
      identityEq, rfl⟩
  · rintro ⟨signed, payload, kyber, oneTime, identity, signedEq, payloadEq, kyberEq, oneTimeEq,
      identityEq, rfl⟩
    exact ⟨signed, signedEq, payload, payloadEq, kyber, kyberEq, oneTime, oneTimeEq, identity,
      identityEq, rfl⟩

/-- A prekey message uses a session of the record that matches it, or a new one made for it. -/
theorem processPreKey_eq_ok {record processed : SessionRecord P} {used : Option PreKeysUsed}
    (processes : processPreKey store message record = .ok (used, processed)) :
    (used = none ∧
      ∃ state, record.matchingSession message.messageVersion message.baseKey = some state ∧
        ((record.currentSession = some state ∧ processed = record) ∨
        ∃ position, record.previousSessions[position]? = some state ∧
          processed = record.promoteOldSession position state)) ∨
    (record.matchingSession message.messageVersion message.baseKey = none ∧
      used = some ⟨message.preKeyId, message.signedPreKeyId,
        message.kyberPayload.map KyberPayload.preKeyId⟩ ∧
      ∃ session, sessionFromPreKey store message = .ok session ∧
        processed = record.promoteState session) := by
  unfold processPreKey at processes
  split at processes
  · rename_i promoted found
    cases processes
    exact Or.inl ⟨rfl, SessionRecord.promoteMatchingSession_eq_some found⟩
  · rename_i missing
    rcases map_eq_ok.mp processes with ⟨session, sessionEq, same⟩
    cases same
    exact Or.inr ⟨SessionRecord.promoteMatchingSession_eq_none missing, rfl, session, sessionEq,
      rfl⟩

/-- A message is encrypted in the current session, for a trusted identity. -/
theorem encryptUpdate_eq_ok {update : SessionUpdate P (CiphertextMessage P)} :
    encryptUpdate store address ptext now random record = .ok update ↔
      ∃ state message sent identity, record.currentSession = some state ∧
        state.encryptMessage address ptext now random = .ok (message, sent, identity) ∧
        isTrustedIdentity store address identity .sending = true ∧
        update = ⟨message, { record with currentSession := some sent }, identity, none⟩ := by
  simp only [encryptUpdate, bind_eq_ok, okOr_eq_ok, ensure_eq_ok, exists_const]
  constructor
  · rintro ⟨state, stateEq, ⟨message, sent, identity⟩, encrypts, trusted, ⟨⟩⟩
    exact ⟨state, message, sent, identity, stateEq, encrypts, trusted, rfl⟩
  · rintro ⟨state, message, sent, identity, stateEq, encrypts, trusted, rfl⟩
    exact ⟨state, stateEq, _, encrypts, trusted, rfl⟩

/-- A message is decrypted for the identity of the session it leaves current. -/
theorem decryptSignalUpdate_eq_ok {message : SignalMessage P} :
    decryptSignalUpdate store address message ourNewEphemeral record = .ok update ↔
      ∃ ptext decrypted identity,
        record.decryptMessage message .whisper ourNewEphemeral = .ok (ptext, decrypted) ∧
        decrypted.currentSession.bind SessionState.remoteIdentityKey = some identity ∧
        isTrustedIdentity store address identity .receiving = true ∧
        update = ⟨ptext, decrypted, identity, none⟩ := by
  simp only [decryptSignalUpdate, bind_eq_ok, okOr_eq_ok, ensure_eq_ok, exists_const]
  constructor
  · rintro ⟨⟨ptext, decrypted⟩, decrypts, identity, remote, trusted, ⟨⟩⟩
    exact ⟨ptext, decrypted, identity, decrypts, remote, trusted, rfl⟩
  · rintro ⟨ptext, decrypted, identity, decrypts, remote, trusted, rfl⟩
    exact ⟨_, decrypts, identity, remote, trusted, rfl⟩

theorem decryptPreKeyUpdate_eq_ok :
    decryptPreKeyUpdate store address message ourNewEphemeral record = .ok update ↔
      isTrustedIdentity store address message.identityKey .receiving = true ∧
      ∃ used processed ptext decrypted,
        processPreKey store message record = .ok (used, processed) ∧
        processed.decryptMessage message.message .preKey ourNewEphemeral =
          .ok (ptext, decrypted) ∧
        update = ⟨ptext, decrypted, message.identityKey,
          used.map fun keys => (keys, message.baseKey)⟩ := by
  simp only [decryptPreKeyUpdate, bind_eq_ok, ensure_eq_ok, exists_const]
  constructor
  · rintro ⟨trusted, ⟨used, processed⟩, processes, ⟨ptext, decrypted⟩, decrypts, ⟨⟩⟩
    exact ⟨trusted, used, processed, ptext, decrypted, processes, decrypts, rfl⟩
  · rintro ⟨trusted, used, processed, ptext, decrypted, processes, decrypts, rfl⟩
    exact ⟨trusted, _, processes, _, decrypts, rfl⟩

/-- What a prekey message makes of a record when its session is set up for it. -/
def newSessionUpdate (message : PreKeySignalMessage P) (record : SessionRecord P)
    (session : SessionState P) (ptext : P.Bytes) (updated : SessionState P) :
    SessionUpdate P P.Bytes where
  output := ptext
  record := { record.promoteState session with currentSession := some updated }
  identity := message.identityKey
  preKeysUsed := some (⟨message.preKeyId, message.signedPreKeyId,
    message.kyberPayload.map KyberPayload.preKeyId⟩, message.baseKey)

/-- A prekey message without a matching session decrypts in the session that it sets up. -/
theorem decryptPreKeyUpdate_of_new
    (trusted : isTrustedIdentity store address message.identityKey .receiving = true)
    (missing : record.matchingSession message.messageVersion message.baseKey = none)
    (makes : sessionFromPreKey store message = .ok session)
    (decrypts : session.decryptMessage message.message .preKey ourNewEphemeral =
      .ok (ptext, updated)) :
    decryptPreKeyUpdate store address message ourNewEphemeral record =
      .ok (newSessionUpdate message record session ptext updated) := by
  have processes : processPreKey store message record =
      .ok (some ⟨message.preKeyId, message.signedPreKeyId,
        message.kyberPayload.map KyberPayload.preKeyId⟩, record.promoteState session) := by
    simp only [processPreKey, SessionRecord.promoteMatchingSession_of_none missing, makes]
    rfl
  apply decryptPreKeyUpdate_eq_ok.mpr
  refine ⟨trusted, _, _, ptext, { record.promoteState session with currentSession := some updated },
    processes, ?_, rfl⟩
  simp only [SessionRecord.decryptMessage, SessionRecord.promoteState, decrypts]

theorem messageDecryptPreKey_of_new {store marked : Store} {payload : KyberPayload P}
    (loads : loadOrFresh store address = .ok record)
    (updates : decryptPreKeyUpdate store address message ourNewEphemeral record =
      .ok (newSessionUpdate message record session ptext updated))
    (hasPayload : message.kyberPayload = some payload)
    (marks : markKyberPreKeyUsed (saveIdentity store address message.identityKey)
      payload.preKeyId message.signedPreKeyId message.baseKey = .ok marked) :
    ∃ stored, messageDecryptPreKey store address message ourNewEphemeral =
      (.ok ptext, stored) := by
  simp only [messageDecryptPreKey, loads, Except.bind, updates, commitResult, commit,
    newSessionUpdate, recordPreKeysUsed, hasPayload, Option.map_some, marks, Except.map]
  exact ⟨_, rfl⟩

/-- Prekeys are used only by a message whose session has been set up for it. -/
theorem decryptPreKeyUpdate_new {used : PreKeysUsed × P.PublicKey}
    (updates : decryptPreKeyUpdate store address message ourNewEphemeral record = .ok update)
    (uses : update.preKeysUsed = some used) :
    isTrustedIdentity store address message.identityKey .receiving = true ∧
      record.matchingSession message.messageVersion message.baseKey = none ∧
      ∃ session ptext updated, sessionFromPreKey store message = .ok session ∧
        session.decryptMessage message.message .preKey ourNewEphemeral = .ok (ptext, updated) ∧
        update = newSessionUpdate message record session ptext updated := by
  rcases decryptPreKeyUpdate_eq_ok.mp updates with
    ⟨trusted, usedKeys, processed, ptext, decrypted, processes, decrypts, rfl⟩
  rcases processPreKey_eq_ok processes with ⟨rfl, _⟩ | ⟨missing, rfl, session, makes, rfl⟩
  · cases uses
  · refine ⟨trusted, missing, session, ptext, ?_⟩
    rcases SessionRecord.decryptMessage_eq_ok decrypts with
      ⟨state, updated, _, attempted, ⟨isCurrent, rfl⟩ | ⟨_, _, _, noCurrent⟩⟩
    · cases isCurrent
      exact ⟨updated, makes, attempted, rfl⟩
    · cases noCurrent rfl

/-- A bundle is processed only if its identity is trusted and has signed its prekeys. -/
theorem preKeyBundleUpdate_eq_ok {bundle : PreKeyBundle P} {random : BundleRandomness P}
    {update : SessionUpdate P Unit} :
    preKeyBundleUpdate store address bundle now random record = .ok update ↔
      isTrustedIdentity store address bundle.identityKey .sending = true ∧
      P.verifySignature bundle.identityKey bundle.signedPreKeyPublic
        bundle.signedPreKeySignature = true ∧
      P.verifyKemSignature bundle.identityKey bundle.kyberPreKeyPublic
        bundle.kyberPreKeySignature = true ∧
      ∃ identity session localRegistrationId,
        getIdentityKeyPair store = .ok identity ∧
        initializeAliceSession (bundle.parameters identity ⟨random.baseKey⟩) random.kyber
          random.ratchetKey = .ok session ∧
        getLocalRegistrationId store = .ok localRegistrationId ∧
        update = ⟨(), record.promoteState (session.setUnacknowledged bundle
          (P.publicKey random.baseKey) now localRegistrationId), bundle.identityKey, none⟩ := by
  simp only [preKeyBundleUpdate, bind_eq_ok, ensure_eq_ok, exists_const]
  constructor
  · rintro ⟨trusted, signed, kyberSigned, identity, identityEq, session, sessionEq, localId,
      localEq, ⟨⟩⟩
    exact ⟨trusted, signed, kyberSigned, identity, session, localId, identityEq, sessionEq,
      localEq, rfl⟩
  · rintro ⟨trusted, signed, kyberSigned, identity, session, localId, identityEq, sessionEq,
      localEq, rfl⟩
    exact ⟨trusted, signed, kyberSigned, identity, identityEq, session, sessionEq, localId,
      localEq, rfl⟩

theorem commitResult_ok {result : Except SignalProtocolError (SessionUpdate P Output)}
    {output : Output} (succeeded : commitResult store address result = (.ok output, after)) :
    ∃ update, result = .ok update ∧ commit store address update = (.ok output, after) := by
  cases result with
  | error error => cases succeeded
  | ok update => exact ⟨update, rfl, succeeded⟩

/-- A commit fails only at the used prekeys, after it has saved the identity. -/
theorem commit_eq_error {update : SessionUpdate P Output} {error : SignalProtocolError} :
    commit store address update = (.error error, after) ↔
      ∃ used baseKey, update.preKeysUsed = some (used, baseKey) ∧
        recordPreKeysUsed (saveIdentity store address update.identity) used baseKey =
          .error error ∧
        after = saveIdentity store address update.identity := by
  rcases update with ⟨output, record, identity, _ | ⟨used, baseKey⟩⟩
  · simp [commit]
  · unfold commit
    dsimp only
    cases recorded : recordPreKeysUsed (saveIdentity store address identity) used baseKey with
    | error failure =>
      constructor
      · intro failed
        cases failed
        exact ⟨used, baseKey, rfl, recorded, rfl⟩
      · rintro ⟨_, _, same, failed, rfl⟩
        cases same
        cases recorded.symm.trans failed
        rfl
    | ok marked =>
      constructor
      · intro failed
        cases failed
      · rintro ⟨_, _, same, failed, _⟩
        cases same
        cases recorded.symm.trans failed

theorem loadOrFresh_congr {store other : Store}
    (same : loadSession other address = loadSession store address) :
    loadOrFresh other address = loadOrFresh store address := by
  unfold loadOrFresh
  rw [same]

theorem loadOrFresh_of_loadExisting (loaded : loadExisting store address = .ok record) :
    loadOrFresh store address = .ok record := by
  rcases bind_eq_ok.mp loaded with ⟨session, sessionEq, present⟩
  have held : session = some record := okOr_eq_ok.mp present
  apply map_eq_ok.mpr
  exact ⟨session, sessionEq, by rw [held]; rfl⟩

section Lawful

variable [LawfulProtocolStore P Store] {other : SignalProtocolAddress}

theorem loadOrFresh_storeSession (store : Store) (address : SignalProtocolAddress)
    (stored : SessionRecord P) :
    loadOrFresh (storeSession store address stored) address = .ok stored := by
  unfold loadOrFresh
  rw [loadSession_storeSession]
  rfl

/-- A commit stores the new record, or it fails and the record stays as it was. -/
theorem commit_cases (store : Store) (address : SignalProtocolAddress)
    (update : SessionUpdate P Output) :
    ((commit store address update).1 = .ok update.output ∧
      loadOrFresh (commit store address update).2 address = .ok update.record) ∨
    ((∃ error, (commit store address update).1 = .error error) ∧
      loadOrFresh (commit store address update).2 address = loadOrFresh store address) := by
  have saved := loadOrFresh_congr
    (loadSession_saveIdentity store address address update.identity)
  unfold commit
  cases update.preKeysUsed with
  | none => exact Or.inl ⟨rfl, loadOrFresh_storeSession _ _ _⟩
  | some used =>
    rcases used with ⟨keys, baseKey⟩
    dsimp only
    cases recordPreKeysUsed (saveIdentity store address update.identity) keys baseKey with
    | error error => exact Or.inr ⟨⟨error, rfl⟩, saved⟩
    | ok recorded => exact Or.inl ⟨rfl, loadOrFresh_storeSession _ _ _⟩

/-- An operation stores its record, or it fails and the record stays as it was. -/
theorem commitResult_cases (store : Store) (address : SignalProtocolAddress)
    (result : Except SignalProtocolError (SessionUpdate P Output)) :
    (∃ update, result = .ok update ∧
      (commitResult store address result).1 = .ok update.output ∧
      loadOrFresh (commitResult store address result).2 address = .ok update.record) ∨
    ((∃ error, (commitResult store address result).1 = .error error) ∧
      loadOrFresh (commitResult store address result).2 address = loadOrFresh store address) := by
  cases result with
  | error error => exact Or.inr ⟨⟨error, rfl⟩, rfl⟩
  | ok update =>
    rcases commit_cases store address update with ⟨returned, stored⟩ | failed
    · exact Or.inl ⟨update, rfl, returned, stored⟩
    · exact Or.inr failed

/-- Used prekeys are recorded apart from the sessions. -/
theorem loadSession_recordPreKeysUsed {store recorded : Store} {used : PreKeysUsed}
    {baseKey : P.PublicKey} (records : recordPreKeysUsed store used baseKey = .ok recorded)
    (address : SignalProtocolAddress) :
    loadSession recorded address = loadSession store address := by
  rcases used with ⟨oneTime, signed, kyber⟩
  rcases map_eq_ok.mp records with ⟨marked, marks, rfl⟩
  have kept : loadSession marked address = loadSession store address := by
    cases kyber with
    | none =>
      cases marks
      rfl
    | some kyberPreKeyId =>
      exact loadSession_markKyberPreKeyUsed address marks
  cases oneTime with
  | none => exact kept
  | some preKeyId => exact (loadSession_removePreKey _ _ _).trans kept

/-- An operation leaves the sessions of the other addresses as they are. -/
theorem loadSession_commitResult_of_ne (store : Store) (different : address ≠ other)
    (result : Except SignalProtocolError (SessionUpdate P Output)) :
    loadSession (commitResult store other result).2 address = loadSession store address := by
  cases result with
  | error error => rfl
  | ok update =>
    have saved := loadSession_saveIdentity store other address
      update.identity
    change loadSession (commit store other update).2 address = _
    unfold commit
    cases update.preKeysUsed with
    | none =>
      exact (loadSession_storeSession_of_ne _ _ different).trans saved
    | some used =>
      rcases used with ⟨keys, baseKey⟩
      dsimp only
      cases records : recordPreKeysUsed (saveIdentity store other update.identity) keys
          baseKey with
      | error error => exact saved
      | ok recorded =>
        have kept := loadSession_recordPreKeysUsed records address
        exact (loadSession_storeSession_of_ne _ _ different).trans
          (kept.trans saved)

theorem loadOrFresh_perform_of_ne (store : Store) (different : address ≠ other)
    (call : SessionCall P) :
    loadOrFresh (call.perform store other).2 address = loadOrFresh store address := by
  apply loadOrFresh_congr
  cases call with
  | encrypt ptext now random =>
    change loadSession (messageEncrypt store other ptext now random).2 address = _
    exact loadSession_commitResult_of_ne store different _
  | decryptSignal ciphertext ourNewEphemeral =>
    change loadSession (messageDecryptSignal store other ciphertext ourNewEphemeral).2 address = _
    exact loadSession_commitResult_of_ne store different _
  | decryptPreKey ciphertext ourNewEphemeral =>
    change loadSession (messageDecryptPreKey store other ciphertext ourNewEphemeral).2 address = _
    exact loadSession_commitResult_of_ne store different _
  | processBundle bundle now random =>
    exact loadSession_commitResult_of_ne store different _

end Lawful

end LegacySignal
