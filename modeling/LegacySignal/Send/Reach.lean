import LegacySignal.Protocol.StoreSpec
import LegacySignal.Send.MessageSender
import LegacySignal.Store.Refinement

/-!
# Reaching every device

A server that knows the devices of the recipient, and when two attempts are
enough to reach all of them. The first attempt goes to the devices that the
server or the store names; the second one starts from the server's bundles
alone. What can go wrong is an exception on the way: from a stored session that
cannot encrypt, or from a bundle without a one-time prekey, which the app does
not build a session from.
-/

namespace LegacySignal

open ProtocolStore Function List

variable {P : Primitives}

/-- What is asked of the post-quantum ratchet: a new one can be made and can send, and whether it
can send does not depend on what is drawn. -/
structure Primitives.RatchetSends (P : Primitives) : Prop where
  initial (key : P.Secret) (direction : PqDirection) (self : Bool) :
    ∃ state, P.pqInitialState key direction self = some state ∧
      ∀ random, (P.pqSend state random).isSome
  draws (state : P.PqState) (random other : P.Random) :
    (P.pqSend state random).isSome → (P.pqSend state other).isSome

def SessionState.Stale (state : SessionState P) (now : ℕ) : Prop :=
  ∃ items, state.pendingPreKey = some items ∧
    (items.timestamp + consts.MAX_UNACKNOWLEDGED_SESSION_AGE) * 10 ^ 9 < now

structure SessionState.CanSend (state : SessionState P) (now : ℕ) : Prop where
  senderChain : state.senderChain.isSome
  ratchet (random : P.Random) : (P.pqSend state.pqRatchetState random).isSome
  version : state.sessionVersion < 256
  identity : state.remoteIdentityKey.isSome
  fresh : ¬state.Stale now

def SessionRecord.CanSend (record : SessionRecord P) (now : ℕ) : Prop :=
  ∃ state, record.currentSession = some state ∧ state.CanSend now

variable {session : SessionState P} {now : ℕ}

theorem SessionState.wrapMessage_eq_ok {address : SignalProtocolAddress}
    {message : SignalMessage P} :
    (∃ wrapped, session.wrapMessage address now message = .ok wrapped) ↔ ¬session.Stale now := by
  unfold SessionState.wrapMessage SessionState.Stale
  cases pending : session.pendingPreKey with
  | none => simp
  | some items =>
    simp only [Option.some.injEq, exists_eq_left']
    split_ifs with late
    · exact iff_of_false (fun ⟨_, wrong⟩ => nomatch wrong) (not_not_intro late)
    · exact iff_of_true ⟨_, rfl⟩ late

theorem SessionState.encryptMessage_ok_iff (sends : P.RatchetSends)
    (address : SignalProtocolAddress) (ptext : P.Bytes) (random : P.Random) :
    (∃ result, session.encryptMessage address ptext now random = .ok result) ↔
      session.CanSend now := by
  simp only [encryptMessage, Result.bind_eq_ok, requireSenderChain_eq_ok, Result.okOr_eq_ok,
    Result.ensure_eq_ok, exists_const]
  constructor
  · rintro ⟨_, chain, chainEq, ⟨pqState, pqrMsg, pqrKey⟩, sent, _, _, version, identity, identityEq,
      wrapped, wraps, _⟩
    refine ⟨?_, ?_, version, ?_, wrapMessage_eq_ok.mp ⟨wrapped, wraps⟩⟩
    · rw [chainEq]
      rfl
    · intro other
      exact sends.draws _ random other (by rw [sent]; rfl)
    · rw [identityEq]
      rfl
  · rintro ⟨senderChain, ratchet, version, identity, fresh⟩
    rcases Option.isSome_iff_exists.mp senderChain with ⟨chain, chainEq⟩
    rcases Option.isSome_iff_exists.mp (ratchet random) with ⟨⟨pqState, pqrMsg, pqrKey⟩, pqEq⟩
    rcases Option.isSome_iff_exists.mp identity with ⟨theirs, theirsEq⟩
    exact ⟨_, chain, chainEq, _, pqEq, _, rfl, version, theirs, theirsEq, _,
      (wrapMessage_eq_ok.mpr fresh).choose_spec, rfl⟩

theorem SessionState.not_stale_setUnacknowledged (session : SessionState P)
    (bundle : PreKeyBundle P) (baseKey : P.PublicKey) (now : ℕ) (localRegistrationId : UInt32) :
    ¬(session.setUnacknowledged bundle baseKey now localRegistrationId).Stale now := by
  rintro ⟨items, pending, late⟩
  cases pending
  simp only [consts.MAX_UNACKNOWLEDGED_SESSION_AGE] at late
  omega

theorem canSend_of_bundle (sends : P.RatchetSends) {parameters : AliceSignalProtocolParameters P}
    {random : P.Random} {ratchetKey : P.PrivateKey} {session : SessionState P}
    (made : initializeAliceSession parameters random ratchetKey = .ok session)
    (bundle : PreKeyBundle P) (baseKey : P.PublicKey) (now : ℕ) (localRegistrationId : UInt32) :
    (session.setUnacknowledged bundle baseKey now localRegistrationId).CanSend now := by
  rcases initializeAliceSession_eq_ok.mp made with ⟨secret, ciphertext, pqrState, _, pqrEq, rfl⟩
  rcases sends.initial _ _ _ with ⟨initial, initialEq, canSend⟩
  rw [initialEq, Option.some.injEq] at pqrEq
  subst pqrEq
  refine ⟨rfl, canSend, (by decide : 4 < 256), rfl, ?_⟩
  exact SessionState.not_stale_setUnacknowledged _ bundle baseKey now localRegistrationId

namespace MessageSender

open SharedPrefsStore Steps

variable {formats : SignalFormats P} {sender : SenderFormats P}

/-- The entry of a device stands for the bundle, and a session can be set up from that. -/
structure Announces (formats : SignalFormats P) (sender : SenderFormats P)
    (response : PreKeyResponse) (device : PreKeyResponseItem) (bundle : PreKeyBundle P) :
    Prop where
  deviceId : 1 ≤ device.deviceId ∧ device.deviceId ≤ 127
  registrationId : nonNegative device.registrationId = .ok bundle.registrationId
  identityKey : decodePublicKey formats sender response.identityKey = .ok bundle.identityKey
  signedPreKey : ∃ entry bytes, device.signedPreKey = some entry ∧
    decodePublicKey formats sender entry.publicKey = .ok bundle.signedPreKeyPublic ∧
    decodeText formats entry.signature = .ok bytes ∧
    sender.signature bytes = bundle.signedPreKeySignature ∧
    nonNegative entry.keyId = .ok bundle.signedPreKeyId
  kyberPreKey : ∃ entry keyBytes bytes, device.pqPreKey = some entry ∧
    decodeText formats entry.publicKey = .ok keyBytes ∧
    sender.kemPublicKey keyBytes = some bundle.kyberPreKeyPublic ∧
    decodeText formats entry.signature = .ok bytes ∧
    sender.signature bytes = bundle.kyberPreKeySignature ∧
    nonNegative entry.keyId = .ok bundle.kyberPreKeyId
  /-- A bundle may do without a one-time prekey. -/
  preKey : match device.preKey with
    | none => bundle.preKeyId = none ∧ bundle.preKeyPublic = none
    | some entry => ∃ id key, decodePublicKey formats sender entry.publicKey = .ok key ∧
        nonNegative entry.keyId = .ok id ∧ bundle.preKeyId = some id ∧
        bundle.preKeyPublic = some key
  signed : P.verifySignature bundle.identityKey bundle.signedPreKeyPublic
    bundle.signedPreKeySignature = true
  kyberSigned : P.verifyKemSignature bundle.identityKey bundle.kyberPreKeyPublic
    bundle.kyberPreKeySignature = true
  encapsulates (random : P.Random) : (P.encapsulate bundle.kyberPreKeyPublic random).isSome

theorem nonNegative_eq_ok {value : Int32} {result : UInt32} :
    nonNegative value = .ok result ↔ 0 ≤ value ∧ value.toUInt32 = result := by
  unfold nonNegative
  split_ifs with fits <;> simp [fits]

theorem signalProtocolAddress_of_valid {name : String} {deviceId : Int32}
    (valid : 1 ≤ deviceId ∧ deviceId ≤ 127) :
    signalProtocolAddress name deviceId = .ok ⟨name, deviceId⟩ := if_pos valid

variable {response : PreKeyResponse} {device : PreKeyResponseItem}

theorem preKeyBundle_of_announces {bundle : PreKeyBundle P}
    (announces : Announces formats sender response device bundle) (oneTime : device.preKey.isSome) :
    preKeyBundle formats sender response device = .ok bundle := by
  rcases Option.isSome_iff_exists.mp oneTime with ⟨preKey, preKeyEq⟩
  have preKeyParts := announces.preKey
  rw [preKeyEq] at preKeyParts
  rcases preKeyParts with ⟨id, key, keyEq, idEq, bundleId, bundleKey⟩
  rcases announces.signedPreKey with
    ⟨signed, signature, signedEq, signedKey, decoded, made, signedId⟩
  rcases announces.kyberPreKey with ⟨kyber, kyberBytes, kyberSignature, kyberEq, kyberDecoded,
    kyberKey, kyberSignatureDecoded, kyberMade, kyberId⟩
  have optional : optionalId preKey.keyId = some id := by
    rcases nonNegative_eq_ok.mp idEq with ⟨fits, rfl⟩
    exact if_pos fits
  have address := @signalProtocolAddress_of_valid "" _ announces.deviceId
  unfold preKeyBundle
  rw [announces.identityKey, signedEq, preKeyEq, kyberEq, announces.registrationId, address]
  simp only [Result.okOr, bind, Except.bind, signedKey, decoded, Option.mapM, keyEq,
    Option.map_some, Option.getD_some, kyberDecoded, kyberKey, kyberSignatureDecoded, signedId,
    kyberId, oneTimePreKey, optional, made, kyberMade]
  cases bundle
  cases bundleId
  cases bundleKey
  rfl

/-- It throws on an entry without one: the number it passes for a missing key is not negative. -/
theorem preKeyBundle_without_preKey (missing : device.preKey = none) :
    ∃ exception, preKeyBundle formats sender response device = .error exception := by
  cases built : preKeyBundle formats sender response device with
  | error exception => exact ⟨exception, rfl⟩
  | ok bundle =>
    simp only [preKeyBundle, missing, Result.bind_eq_ok] at built
    rcases built with ⟨_, _, _, _, _, _, _, _, key, keyEq, _, _, _, _, _, _, _, _, _, _, _, _, _, _,
      _, oneTime, _⟩
    cases keyEq
    cases oneTime

/-- The preferences represent the maps, with the own identity among them. -/
structure Registered (pair : P.KeyPair) (maps : StoreMaps formats.store)
    (store : AppStore formats) : Prop where
  represented : maps.RepresentedBy store.prefs
  identity : maps.identityKeyPair = some pair

section registered

variable {pair : P.KeyPair} {maps : StoreMaps formats.store} {store : AppStore formats}
  {address : SignalProtocolAddress} {record : SessionRecord P}

theorem Registered.write (registered : Registered pair maps store)
    (write : StoreWrite formats.store)
    (clear : StorePair.Clear ⟨store.prefs, maps⟩ (.write write))
    (kept : (write.onMaps maps).identityKeyPair = maps.identityKeyPair) :
    Registered pair (write.onMaps maps) ⟨write.onPrefs store.prefs⟩ :=
  ⟨StorePair.representedBy_write registered.represented clear, kept.trans registered.identity⟩

def committed (maps : StoreMaps formats.store) (address : SignalProtocolAddress)
    (identity : P.PublicKey) (record : SessionRecord P) : StoreMaps formats.store :=
  (StoreWrite.storeSession address record).onMaps
    ((StoreWrite.saveIdentity address identity).onMaps maps)

section

variable (registered : Registered pair maps store)

include registered

theorem Registered.commit (separate : address.name ≠ "key_pair") (identity : P.PublicKey)
    (record : SessionRecord P) :
    Registered pair (committed maps address identity record)
      (storeSession (saveIdentity store address identity) address
        record) := by
  have saved := registered.write (.saveIdentity address identity) separate rfl
  exact saved.write (.storeSession address record) trivial rfl

theorem Registered.loadSession (address : SignalProtocolAddress) :
    loadSession store address =
      .ok (some ((maps.sessions address).getD SessionRecord.newFresh)) := by
  simp only [ProtocolStore.loadSession, registered.represented.loadSession_eq address]
  rfl

theorem Registered.loadExisting {address : SignalProtocolAddress} {record : SessionRecord P}
    (stored : maps.sessions address = some record) : loadExisting store address = .ok record := by
  unfold LegacySignal.loadExisting
  rw [registered.loadSession address, stored]
  rfl

theorem Registered.messageEncrypt_ok (sends : P.RatchetSends)
    (stored : maps.sessions address = some record) (canSend : record.CanSend now)
    (content : P.Bytes) (random : P.Random) :
    ∃ message identity sent,
      messageEncrypt store address content now random =
        (.ok message, storeSession (saveIdentity store address identity)
          address sent) ∧
      sent.remoteRegistrationId = record.remoteRegistrationId := by
  rcases canSend with ⟨state, current, canSend⟩
  rcases (SessionState.encryptMessage_ok_iff sends address content random).mpr canSend with
    ⟨⟨message, after, identity⟩, encrypts⟩
  rcases SessionState.encryptMessage_frame encrypts with ⟨pqState, chain, rfl⟩
  have updates := encryptUpdate_eq_ok.mpr
    ⟨state, message, _, identity, current, encrypts,
      (TrustingProtocolStore.isTrustedIdentity_eq store address identity .sending), rfl⟩
  refine ⟨message, identity, { record with
    currentSession := some { state with pqRatchetState := pqState, senderChain := chain } }, ?_, ?_⟩
  · unfold messageEncrypt
    rw [registered.loadExisting stored]
    exact congrArg (commitResult store address) updates
  · simp only [SessionRecord.remoteRegistrationId, current]
    rfl

theorem Registered.messageEncrypt_error (sends : P.RatchetSends)
    (stored : maps.sessions address = some record) (cannot : ¬record.CanSend now)
    (content : P.Bytes) (random : P.Random) :
    ∃ error, (messageEncrypt store address content now random).1 = .error error := by
  cases updates : encryptUpdate store address content now random record with
  | error error =>
    refine ⟨error, ?_⟩
    unfold messageEncrypt
    rw [registered.loadExisting stored]
    exact congrArg (fun result => (commitResult store address result).1) updates
  | ok update =>
    rcases encryptUpdate_eq_ok.mp updates with
      ⟨state, message, sent, identity, current, encrypts, _⟩
    exact absurd ⟨state, current, (SessionState.encryptMessage_ok_iff sends _ _ _).mp ⟨_, encrypts⟩⟩
      cannot

theorem Registered.processPreKeyBundle_ok (sends : P.RatchetSends) {response : PreKeyResponse}
    {device : PreKeyResponseItem} {bundle : PreKeyBundle P}
    (announces : Announces formats sender response device bundle)
    (absent : maps.sessions address = none) (now : ℕ) (random : BundleRandomness P) :
    ∃ record,
      processPreKeyBundle store address bundle now random =
        (.ok (), storeSession
          (saveIdentity store address bundle.identityKey) address record) ∧
      record.CanSend now ∧ record.remoteRegistrationId = some bundle.registrationId := by
  rcases Option.isSome_iff_exists.mp (announces.encapsulates random.kyber) with
    ⟨⟨secret, ciphertext⟩, encapsulates⟩
  have identityEq : getIdentityKeyPair store = .ok pair := by
    simp only [ProtocolStore.getIdentityKeyPair, registered.represented.getIdentityKeyPair_eq,
      registered.identity]
    rfl
  have localEq : ∃ localId, getLocalRegistrationId store = .ok localId := by
    simp only [ProtocolStore.getLocalRegistrationId,
      registered.represented.getLocalRegistrationId_eq]
    exact ⟨_, rfl⟩
  rcases localEq with ⟨localId, localEq⟩
  let parameters := bundle.parameters pair ⟨random.baseKey⟩
  rcases sends.initial (deriveKeys (parameters.secrets secret)).2.2 .a2b
    (parameters.ourIdentityKeyPair.publicKey = parameters.theirIdentityKey) with
    ⟨pqrState, pqrEq, _⟩
  let session := parameters.session random.ratchetKey secret ciphertext pqrState
  have made : initializeAliceSession parameters random.kyber random.ratchetKey = .ok session :=
    initializeAliceSession_eq_ok.mpr ⟨secret, ciphertext, pqrState, encapsulates, pqrEq, rfl⟩
  have updates : preKeyBundleUpdate store address bundle now random SessionRecord.newFresh =
      .ok ⟨(), SessionRecord.newFresh.promoteState (session.setUnacknowledged bundle
        (P.publicKey random.baseKey) now localId), bundle.identityKey, none⟩ :=
    preKeyBundleUpdate_eq_ok.mpr
    ⟨TrustingProtocolStore.isTrustedIdentity_eq store address bundle.identityKey .sending,
      announces.signed, announces.kyberSigned, pair, _, localId, identityEq, made, localEq, rfl⟩
  have loaded : loadOrFresh store address = .ok SessionRecord.newFresh := by
    unfold loadOrFresh
    rw [registered.loadSession address, absent]
    rfl
  refine ⟨SessionRecord.newFresh.promoteState (session.setUnacknowledged bundle
    (P.publicKey random.baseKey) now localId), ?_,
    ⟨_, rfl, canSend_of_bundle sends made bundle _ now localId⟩, rfl⟩
  unfold processPreKeyBundle
  rw [loaded]
  exact congrArg (commitResult store address) updates

end

end registered

section device

variable {Remote : Type} {pair : P.KeyPair}

/-- A step for one address: the account stays registered, the server is not asked, and no other
session changes. -/
structure StepsFor (pair : P.KeyPair) (address : SignalProtocolAddress)
    (maps : StoreMaps formats.store) (state : SendState formats sender Remote)
    (after : SendState formats sender Remote) (mapsAfter : StoreMaps formats.store) : Prop where
  registered : Registered pair mapsAfter after.store
  server : after.server = state.server
  others : ∀ other, other ≠ address → mapsAfter.sessions other = maps.sessions other

variable {address : SignalProtocolAddress} {Value : Type}
  {operation : AppStore formats → Except SignalProtocolError Value × AppStore formats}
  {maps : StoreMaps formats.store} {record : SessionRecord P}
  {certificate : Option sender.Certificate}

theorem StepsFor.trans {maps mapsBetween mapsAfter : StoreMaps formats.store}
    {state between after : SendState formats sender Remote}
    (first : StepsFor pair address maps state between mapsBetween)
    (second : StepsFor pair address mapsBetween between after mapsAfter) :
    StepsFor pair address maps state after mapsAfter where
  registered := second.registered
  server := second.server.trans first.server
  others other different := (second.others other different).trans (first.others other different)

theorem stepsFor_commit (separate : address.name ≠ "key_pair") {maps : StoreMaps formats.store}
    {state : SendState formats sender Remote} (registered : Registered pair maps state.store)
    (identity : P.PublicKey) (record : SessionRecord P) :
    StepsFor pair address maps state
      { state with
        store := storeSession
          (saveIdentity state.store address identity) address record }
      (committed maps address identity record) where
  registered := registered.commit separate identity record
  server := rfl
  others _ different := update_of_ne different _ _

theorem onStore_of_ok {state : SendState formats sender Remote} {value : Value}
    {after : AppStore formats} (ran : operation state.store = (.ok value, after)) :
    (onStore operation : Sends formats sender Remote Value) state =
      (.ok value, { state with store := after }) := by
  unfold onStore
  rw [ran]
  rfl

theorem onStore_of_error {state : SendState formats sender Remote} {error : SignalProtocolError}
    (failed : (operation state.store).1 = .error error) :
    ∃ exception after, (onStore operation : Sends formats sender Remote Value) state =
      (.error (.thrown exception), after) := by
  unfold onStore
  rw [failed]
  exact ⟨_, _, rfl⟩

variable {state : SendState formats sender Remote}

def sentTo (record : SessionRecord P) : Int32 :=
  record.remoteRegistrationId.elim 0 UInt32.toInt32

theorem remoteRegistrationId_eq (registered : Registered pair maps state.store)
    (stored : maps.sessions address = some record) :
    remoteRegistrationId state.store address = sentTo record := by
  unfold remoteRegistrationId
  rw [registered.represented.loadSession_eq address, stored]
  rfl

theorem sealingIdentity_committed (separate : address.name ≠ "key_pair") {identity : P.PublicKey}
    (registered : Registered pair (committed maps address identity record) state.store) :
    sealingIdentity address state = (.ok identity, state) := by
  have saved : (committed maps address identity record).identities address.name =
      some identity := update_self _ _ _
  unfold sealingIdentity
  simp only [bind, Steps.get, ofResult, Steps.ofExcept, registered.identity, saved,
    registered.represented.getIdentityKeyPair_eq, registered.represented.getIdentity_eq separate]
  rfl

def Issued (certificate : Option sender.Certificate) : Prop :=
  ∀ used, certificate = some used → sender.isUuid (sender.senderUuid used) = true

theorem encrypt_ok (separate : address.name ≠ "key_pair") (sends : P.RatchetSends)
    (registered : Registered pair maps state.store) (stored : maps.sessions address = some record)
    (canSend : record.CanSend (nanoseconds now))
    (issued : Issued certificate)
    (content : P.Bytes) (random : P.Random) :
    ∃ result after mapsAfter,
      encrypt now certificate content random address state = (.ok result, after) ∧
      StepsFor pair address maps state after mapsAfter ∧
      remoteRegistrationId after.store address = sentTo record := by
  rcases registered.messageEncrypt_ok sends stored canSend content random with
    ⟨message, identity, sent, encrypts, sameId⟩
  have steps := stepsFor_commit separate registered identity sent
  have kept : (committed maps address identity sent).sessions address = some sent :=
    update_self _ _ _
  have sameSentTo : sentTo sent = sentTo record := by
    unfold sentTo
    rw [sameId]
  have id := (remoteRegistrationId_eq steps.registered kept).trans sameSentTo
  have ran := @onStore_of_ok _ _ sender Remote _
    (fun store => messageEncrypt store address content (nanoseconds now) random) state _ _ encrypts
  cases certificate with
  | none =>
    refine ⟨(if messageTypeOf message = .preKey then 3 else 1, .session message), _, _, ?_,
      steps, id⟩
    unfold encrypt
    dsimp only
    rw [bind_of_ok ran]
    rfl
  | some used =>
    refine ⟨(6, .sealed used message identity), _, _, ?_, steps, id⟩
    unfold encrypt
    dsimp only
    rw [Result.ensure, if_pos (issued used rfl)]
    change (onStore _ >>= _) state = _
    rw [bind_of_ok ran, bind_of_ok (sealingIdentity_committed separate steps.registered)]
    rfl

theorem encrypt_error (sends : P.RatchetSends) (registered : Registered pair maps state.store)
    (stored : maps.sessions address = some record) (cannot : ¬record.CanSend (nanoseconds now))
    (issued : Issued certificate) (content : P.Bytes) (random : P.Random) :
    ∃ exception after,
      encrypt now certificate content random address state =
        (.error (.thrown exception), after) := by
  rcases registered.messageEncrypt_error sends stored cannot content random with ⟨error, failed⟩
  rcases @onStore_of_error _ _ sender Remote _
    (fun store => messageEncrypt store address content (nanoseconds now) random) state _ failed with
    ⟨exception, after, ran⟩
  refine ⟨exception, after, ?_⟩
  unfold encrypt
  cases certificate with
  | none => exact bind_of_error ran
  | some used =>
    dsimp only
    rw [Result.ensure, if_pos (issued used rfl)]
    change (onStore _ >>= _) state = _
    exact bind_of_error ran

def entryOf (response : PreKeyResponse) (deviceId : Int32) : Option PreKeyResponseItem :=
  response.devices.find? fun device => device.deviceId = deviceId

structure Serves (formats : SignalFormats P) (sender : SenderFormats P)
    (response : PreKeyResponse) : Prop where
  nodup : (response.devices.map PreKeyResponseItem.deviceId).Nodup
  bundles : ∀ device ∈ response.devices, ∃ bundle, Announces formats sender response device bundle

variable {deviceId : Int32} {fetched : Option PreKeyResponse} {destination : String}
  {other : StoreMaps formats.store}

theorem entryOf_of_mem {response : PreKeyResponse}
    (listed : deviceId ∈ response.devices.map PreKeyResponseItem.deviceId) :
    ∃ device ∈ response.devices, device.deviceId = deviceId ∧
      entryOf response deviceId = some device := by
  cases found : entryOf response deviceId with
  | none =>
    rcases mem_map.mp listed with ⟨device, isListed, same⟩
    have different := find?_eq_none.mp found device isListed
    exact absurd (decide_eq_true same) different
  | some device =>
    refine ⟨device, mem_of_find?_eq_some found, ?_, rfl⟩
    unfold entryOf at found
    simpa using find?_some found

/-- A message for the device can be made: with its session, or with a new one. -/
def Ready (response : PreKeyResponse) (now : ℕ) (maps : StoreMaps formats.store)
    (address : SignalProtocolAddress) : Prop :=
  match maps.sessions address with
  | some record => record.CanSend (nanoseconds now)
  | none => ∀ device, entryOf response address.deviceId = some device → device.preKey.isSome

/-- The registration id that the message is then sent to. -/
def expectedId (response : PreKeyResponse) (maps : StoreMaps formats.store)
    (address : SignalProtocolAddress) : Int32 :=
  match maps.sessions address with
  | some record => sentTo record
  | none => (entryOf response address.deviceId).elim 0 PreKeyResponseItem.registrationId

/-- A device without a session is one of those that were fetched. -/
def Known (response : PreKeyResponse) (fetched : Option PreKeyResponse)
    (maps : StoreMaps formats.store) (address : SignalProtocolAddress) : Prop :=
  maps.sessions address = none →
    fetched = some response ∧
      address.deviceId ∈ response.devices.map PreKeyResponseItem.deviceId

theorem ensureSession_stored (registered : Registered pair maps state.store)
    (stored : (maps.sessions address).isSome) (random : BundleRandomness P) :
    ensureSession now fetched random address state = (.ok true, state) := by
  have contained := registered.represented.containsSession_eq address
  rw [stored] at contained
  change (ite (containsSession state.store.prefs address = true) _ _ :
    Sends formats sender Remote Bool) state = _
  rw [if_pos contained]
  rfl

theorem ensureSession_absent (registered : Registered pair maps state.store)
    (absent : maps.sessions address = none) {device : PreKeyResponseItem}
    (found : entryOf response address.deviceId = some device) (random : BundleRandomness P) :
    (ensureSession now (some response) random address : Sends formats sender Remote Bool) state =
      (do
        let bundle ← ofResult (preKeyBundle formats sender response device)
        onStore fun store => processPreKeyBundle store address bundle (nanoseconds now) random
        pure true : Sends formats sender Remote Bool) state := by
  have contained := registered.represented.containsSession_eq address
  rw [absent] at contained
  unfold entryOf at found
  change (ite (containsSession state.store.prefs address = true) _ _ :
    Sends formats sender Remote Bool) state = _
  rw [if_neg (by simp [contained]), found]

theorem ensureSession_ready (separate : address.name ≠ "key_pair") (sends : P.RatchetSends)
    (serves : Serves formats sender response) (registered : Registered pair maps state.store)
    (known : Known response fetched maps address) (ready : Ready response now maps address)
    (random : BundleRandomness P) :
    ∃ after mapsAfter record,
      ensureSession now fetched random address state = (.ok true, after) ∧
      StepsFor pair address maps state after mapsAfter ∧
      mapsAfter.sessions address = some record ∧ record.CanSend (nanoseconds now) ∧
      sentTo record = expectedId response maps address := by
  unfold Ready at ready
  cases stored : maps.sessions address with
  | some record =>
    rw [stored] at ready
    refine ⟨state, maps, record, ?_, ⟨registered, rfl, fun _ _ => rfl⟩, stored, ready, ?_⟩
    · exact ensureSession_stored registered (by rw [stored]; rfl) random
    · simp only [expectedId, stored]
  | none =>
    rw [stored] at ready
    rcases known stored with ⟨rfl, listed⟩
    rcases entryOf_of_mem listed with ⟨device, isDevice, same, found⟩
    rcases serves.bundles device isDevice with ⟨bundle, announces⟩
    rcases registered.processPreKeyBundle_ok sends announces stored (nanoseconds now) random with
      ⟨record, processes, canSend, id⟩
    have ran := @onStore_of_ok _ _ sender Remote _
      (fun store => processPreKeyBundle store address bundle (nanoseconds now) random) state _ _
      processes
    refine ⟨_, _, record, ?_, stepsFor_commit separate registered bundle.identityKey record,
      update_self _ _ _, canSend, ?_⟩
    · rw [ensureSession_absent registered stored found,
        preKeyBundle_of_announces announces (ready device found)]
      change (onStore _ >>= _) state = _
      rw [bind_of_ok ran]
      rfl
    · rcases nonNegative_eq_ok.mp announces.registrationId with ⟨_, registrationId⟩
      simp only [sentTo, id, expectedId, stored, found, Option.elim_some, ← registrationId]
      rfl

def addressed (header : PushHeader) : Int32 × Int32 :=
  (header.destinationDeviceId, header.destinationRegistrationId)

theorem pushMessage_cases (separate : destination ≠ "key_pair") (sends : P.RatchetSends)
    (serves : Serves formats sender response) (issued : Issued certificate)
    (registered : Registered pair maps state.store) (valid : 1 ≤ deviceId ∧ deviceId ≤ 127)
    (known : Known response fetched maps ⟨destination, deviceId⟩) (content : P.Bytes)
    (random : DeviceDraws P) :
    (Ready response now maps ⟨destination, deviceId⟩ ∧ ∃ message after mapsAfter,
      pushMessage now destination fetched certificate content random deviceId state =
        (.ok (some message), after) ∧
      addressed message.header = (deviceId, expectedId response maps ⟨destination, deviceId⟩) ∧
      StepsFor pair ⟨destination, deviceId⟩ maps state after mapsAfter) ∨
    ¬Ready response now maps ⟨destination, deviceId⟩ ∧ ∃ exception after,
      pushMessage now destination fetched certificate content random deviceId state =
        (.error (.thrown exception), after) := by
  unfold pushMessage
  rw [signalProtocolAddress_of_valid valid]
  by_cases ready : Ready response now maps ⟨destination, deviceId⟩
  · refine .inl ⟨ready, ?_⟩
    rcases ensureSession_ready separate sends serves registered known ready random.bundle with
      ⟨between, mapsBetween, record, ensures, first, stored, canSend, id⟩
    rcases encrypt_ok separate sends first.registered stored canSend issued content random.message
      with ⟨⟨type, encrypted⟩, after, mapsAfter, encrypts, second, idAfter⟩
    refine ⟨⟨⟨type, deviceId, remoteRegistrationId after.store ⟨destination, deviceId⟩⟩, encrypted⟩,
      after, mapsAfter, ?_, Prod.ext rfl (idAfter.trans id), first.trans second⟩
    change (ensureSession _ _ _ _ >>= _) state = _
    rw [bind_of_ok ensures]
    change (encrypt _ _ _ _ _ >>= _) between = _
    rw [bind_of_ok encrypts]
    rfl
  · refine .inr ⟨ready, ?_⟩
    change ∃ exception after, (ensureSession _ _ _ _ >>= _) state = _
    unfold Ready at ready
    cases stored : maps.sessions ⟨destination, deviceId⟩ with
    | some record =>
      rw [stored] at ready
      rw [bind_of_ok (ensureSession_stored registered (by rw [stored]; rfl) random.bundle)]
      rcases encrypt_error sends registered stored ready issued content random.message with
        ⟨exception, after, failed⟩
      exact ⟨exception, after, bind_of_error failed⟩
    | none =>
      rw [stored] at ready
      simp only [not_forall, Option.not_isSome_iff_eq_none] at ready
      rcases ready with ⟨device, found, missing⟩
      rcases known stored with ⟨rfl, _⟩
      rcases @preKeyBundle_without_preKey _ formats sender response device missing with
        ⟨exception, failed⟩
      refine ⟨exception, state, bind_of_error ?_⟩
      rw [ensureSession_absent registered stored found, failed]
      rfl

theorem ready_congr (same : other.sessions address = maps.sessions address) :
    Ready response now other address ↔ Ready response now maps address := by
  unfold Ready
  rw [same]

theorem expectedId_congr (same : other.sessions address = maps.sessions address) :
    expectedId response other address = expectedId response maps address := by
  unfold expectedId
  rw [same]

theorem Known.congr (known : Known response fetched maps address)
    (same : other.sessions address = maps.sessions address) :
    Known response fetched other address := by
  intro absent
  rw [same] at absent
  exact known absent

end device

section devices

variable {Remote : Type} {pair : P.KeyPair} {fetched : Option PreKeyResponse} {destination : String}

def expected (response : PreKeyResponse) (destination : String) (maps : StoreMaps formats.store)
    (deviceIds : List Int32) : List (Int32 × Int32) :=
  deviceIds.map fun deviceId => (deviceId, expectedId response maps ⟨destination, deviceId⟩)

/-- The devices of a list are different ones that the app can address. -/
structure Addressable (response : PreKeyResponse) (fetched : Option PreKeyResponse)
    (destination : String) (maps : StoreMaps formats.store) (deviceIds : List Int32) : Prop where
  nodup : deviceIds.Nodup
  valid : ∀ deviceId ∈ deviceIds, 1 ≤ deviceId ∧ deviceId ≤ 127
  known : ∀ deviceId ∈ deviceIds, Known response fetched maps ⟨destination, deviceId⟩

variable {maps mapsAfter : StoreMaps formats.store} {deviceId : Int32} {rest : List Int32}

theorem Addressable.tail
    (addressable : Addressable response fetched destination maps (deviceId :: rest))
    (others : ∀ other ∈ rest,
      mapsAfter.sessions ⟨destination, other⟩ = maps.sessions ⟨destination, other⟩) :
    Addressable response fetched destination mapsAfter rest where
  nodup := (nodup_cons.mp addressable.nodup).2
  valid other isOther := addressable.valid other (mem_cons_of_mem _ isOther)
  known other isOther :=
    (addressable.known other (mem_cons_of_mem _ isOther)).congr (others other isOther)

theorem StepsFor.others_of_nodup {state after : SendState formats sender Remote}
    (steps : StepsFor pair ⟨destination, deviceId⟩ maps state after mapsAfter)
    (nodup : (deviceId :: rest).Nodup) :
    ∀ other ∈ rest,
      mapsAfter.sessions ⟨destination, other⟩ = maps.sessions ⟨destination, other⟩ := by
  intro other isOther
  apply steps.others
  intro same
  cases same
  exact (nodup_cons.mp nodup).1 isOther

/-- What the loop leaves: the account is registered, and only sessions of the list changed. -/
structure StepsForAll (pair : P.KeyPair) (destination : String) (deviceIds : List Int32)
    (maps : StoreMaps formats.store) (state after : SendState formats sender Remote)
    (mapsAfter : StoreMaps formats.store) : Prop where
  registered : Registered pair mapsAfter after.store
  server : after.server = state.server
  others : ∀ address, (∀ deviceId ∈ deviceIds, address ≠ ⟨destination, deviceId⟩) →
    mapsAfter.sessions address = maps.sessions address

variable {certificate : Option sender.Certificate} {deviceIds : List Int32}

theorem pushMessages_cases (now : ℕ) (separate : destination ≠ "key_pair") (sends : P.RatchetSends)
    (serves : Serves formats sender response) (issued : Issued certificate) (content : P.Bytes)
    (random : ℕ → DeviceDraws P) {state : SendState formats sender Remote}
    (registered : Registered pair maps state.store)
    (addressable : Addressable response fetched destination maps deviceIds) :
    ((∀ deviceId ∈ deviceIds, Ready response now maps ⟨destination, deviceId⟩) ∧
      ∃ messages after mapsAfter,
        pushMessages now destination fetched certificate content random deviceIds state =
          (.ok messages, after) ∧
        messages.map (fun message => addressed message.header) =
          expected response destination maps deviceIds ∧
        StepsForAll pair destination deviceIds maps state after mapsAfter) ∨
    (¬∀ deviceId ∈ deviceIds, Ready response now maps ⟨destination, deviceId⟩) ∧
      ∃ exception after,
        pushMessages now destination fetched certificate content random deviceIds state =
          (.error (.thrown exception), after) := by
  induction deviceIds generalizing random maps state with
  | nil => exact .inl ⟨nofun, [], state, maps, rfl, rfl, registered, rfl, fun _ _ => rfl⟩
  | cons deviceId rest ih =>
    have here := mem_cons_self (a := deviceId) (l := rest)
    simp only [pushMessages, forall_mem_cons]
    rcases pushMessage_cases separate sends serves issued registered
      (addressable.valid deviceId here) (addressable.known deviceId here) content (random 0) with
      ⟨ready, message, between, mapsBetween, pushes, isAddressed, first⟩ |
      ⟨unready, exception, after, failed⟩
    · have others := first.others_of_nodup addressable.nodup
      have sameReady : (∀ other ∈ rest, Ready response now mapsBetween ⟨destination, other⟩) ↔
          ∀ other ∈ rest, Ready response now maps ⟨destination, other⟩ :=
        forall₂_congr fun other isOther => ready_congr (others other isOther)
      have sameRest : expected response destination mapsBetween rest =
          expected response destination maps rest := by
        apply map_congr_left
        intro other isOther
        rw [expectedId_congr (others other isOther)]
      rw [bind_of_ok pushes, ← sameReady]
      rcases ih (fun number => random (number + 1)) first.registered (addressable.tail others) with
        ⟨restReady, messages, after, mapsAfter, pushesRest, restExpected, second⟩ |
        ⟨restUnready, exception, after, failed⟩
      · refine .inl ⟨⟨ready, restReady⟩, message :: messages, after, mapsAfter, ?_, ?_,
          second.registered, second.server.trans first.server, ?_⟩
        · rw [bind_of_ok pushesRest]
          rfl
        · rw [map_cons, restExpected, sameRest, isAddressed]
          rfl
        · intro address different
          rw [second.others address fun other isOther =>
            different other (mem_cons_of_mem _ isOther)]
          exact first.others address (different deviceId here)
      · exact .inr ⟨fun all => restUnready all.2, exception, after, bind_of_error failed⟩
    · exact .inr ⟨fun all => unready all.1, exception, after, bind_of_error failed⟩

theorem deleteSessions_ok (valid : ∀ deviceId ∈ deviceIds, 1 ≤ deviceId ∧ deviceId ≤ 127)
    {state : SendState formats sender Remote} (registered : Registered pair maps state.store) :
    ∃ after mapsAfter, deleteSessions destination deviceIds state = (.ok (), after) ∧
      Registered pair mapsAfter after.store ∧ after.server = state.server ∧
      (∀ deviceId ∈ deviceIds, mapsAfter.sessions ⟨destination, deviceId⟩ = none) ∧
      ∀ address, maps.sessions address = none → mapsAfter.sessions address = none := by
  induction deviceIds generalizing maps state with
  | nil => exact ⟨state, maps, rfl, registered, rfl, nofun, fun _ absent => absent⟩
  | cons deviceId rest ih =>
    let address : SignalProtocolAddress := ⟨destination, deviceId⟩
    let deleted : SendState formats sender Remote :=
      { state with
        store := deleteSession state.store address
        trace := state.trace ++ [.deleteSession address] }
    let deletedMaps := (StoreWrite.deleteSession address).onMaps maps
    have deletedRegistered : Registered pair deletedMaps deleted.store :=
      registered.write (.deleteSession address) trivial rfl
    rcases ih (fun other isOther => valid other (mem_cons_of_mem _ isOther))
      deletedRegistered with ⟨after, mapsAfter, deletes, afterRegistered, server, gone, absent⟩
    have goneHere : deletedMaps.sessions address = none := update_self _ _ _
    refine ⟨after, mapsAfter, ?_, afterRegistered, server, ?_, ?_⟩
    · rw [deleteSessions,
        signalProtocolAddress_of_valid (valid deviceId mem_cons_self)]
      exact deletes
    · intro other isOther
      rcases mem_cons.mp isOther with rfl | inRest
      · exact absent address goneHere
      · exact gone other inRest
    · intro other absentBefore
      apply absent
      by_cases same : other = address
      · rw [same]
        exact goneHere
      · exact (update_of_ne same _ _).trans absentBefore

def devicesOf (response : PreKeyResponse) : List (Int32 × Int32) :=
  response.devices.map fun device => (device.deviceId, device.registrationId)

/-- A server that accepts a list exactly if it is addressed to the devices, and keeps the lists
that it accepted. -/
def deviceServer (response : PreKeyResponse) (certificate : String) (code : ℕ) :
    Server (List (List PushHeader)) where
  getPreKeys := fun _ accepted => (.successful (some response), accepted)
  getDeliveryCertificate := fun accepted => (.successful (some ⟨some certificate⟩), accepted)
  sendMessage := fun list accepted =>
    if (list.messages.map addressed).Perm (devicesOf response) then
      (.successful none, accepted ++ [list.messages])
    else (.unsuccessful code, accepted)

end devices

section attempts

variable {pair : P.KeyPair} {fetched : Option PreKeyResponse} {destination : String} {code : ℕ}
  {certB64 : String} {certBytes : List UInt8}

theorem textCertificate_ok (decoded : formats.base64.decode certB64 = some certBytes)
    {maps : StoreMaps formats.store}
    {state : SendState formats sender (List (List PushHeader))}
    (registered : Registered pair maps state.store) :
    ∃ result after mapsAfter,
      textCertificate (deviceServer response certB64 code) now state = (.ok result, after) ∧
      Registered pair mapsAfter after.store ∧ mapsAfter.sessions = maps.sessions ∧
      after.server = state.server := by
  have stored : storedCertificate state = (.ok maps.deliveryCertificate, state) := by
    unfold storedCertificate
    simp only [bind, Steps.get, registered.represented.getDeliveryCertificate_eq]
    rfl
  unfold textCertificate
  rw [bind_of_ok stored]
  cases maps.deliveryCertificate.filter (isUsable now sender) with
  | some usable => exact ⟨some usable, state, maps, rfl, registered, rfl, rfl⟩
  | none =>
    let after : SendState formats sender (List (List PushHeader)) :=
      { state with
        store := ⟨saveDeliveryCertificate formats.store state.store.prefs certBytes⟩
        trace := state.trace ++ [.getDeliveryCertificate] }
    refine ⟨some certBytes, after, (StoreWrite.saveDeliveryCertificate certBytes).onMaps maps, ?_,
      registered.write (.saveDeliveryCertificate certBytes) trivial rfl, rfl, rfl⟩
    simp only [fetchCertificate, bind, record, ask, deviceServer, Option.bind_some, decodeText,
      decoded]
    rfl

theorem preKeyResponse_eq (number : ℕ)
    (state : SendState formats sender (List (List PushHeader))) :
    ∃ reached,
      preKeyResponse (deviceServer response certB64 code) destination number state =
        (.ok (if 1 < number ∨ containsSession state.store.prefs ⟨destination, 1⟩ = false then
          some response else none), reached) ∧
      reached.store = state.store ∧ reached.server = state.server := by
  by_cases fetches : 1 < number ∨ containsSession state.store.prefs ⟨destination, 1⟩ = false
  · refine ⟨{ state with trace := state.trace ++ [.getPreKeys destination] }, ?_, rfl, rfl⟩
    unfold preKeyResponse
    simp only [bind, Steps.get, if_pos fetches]
    rfl
  · refine ⟨state, ?_, rfl, rfl⟩
    unfold preKeyResponse
    simp only [bind, Steps.get, if_neg fetches]
    rfl

/-- The assumptions about the account, the server and the primitives. -/
structure Setting (formats : SignalFormats P) (sender : SenderFormats P)
    (response : PreKeyResponse) (certB64 : String) (code : ℕ) (destination : String) : Prop where
  sends : P.RatchetSends
  serves : Serves formats sender response
  /-- The certificate can be fetched. -/
  decodes : ∃ certBytes, formats.base64.decode certB64 = some certBytes
  /-- Certificates name their owner by a UUID. -/
  issued : ∀ certBytes certificate, sender.certificate certBytes = some certificate →
    sender.isUuid (sender.senderUuid certificate) = true
  code : code = 410 ∨ code = 409
  /-- The recipient's name is not the word of another item of the store. -/
  separate : destination ≠ "key_pair"

variable (setting : Setting formats sender response certB64 code destination)

include setting in
theorem attempt_eq (now : ℕ) {number : ℕ}
    {state reached : SendState formats sender (List (List PushHeader))}
    (ran : preKeyResponse (deviceServer response certB64 code) destination number state =
      (.ok fetched, reached))
    {maps : StoreMaps formats.store} (registered : Registered pair maps reached.store)
    (timestamp : ℤ) (content : P.Bytes) (random : ℕ → DeviceDraws P) :
    ∃ certificate between mapsBetween,
      Issued certificate ∧
      Registered pair mapsBetween between.store ∧ mapsBetween.sessions = maps.sessions ∧
      between.server = reached.server ∧
      attempt (deviceServer response certB64 code) now destination
          (textCertificate (deviceServer response certB64 code) now) timestamp content random number
          state =
        sendToDevices (deviceServer response certB64 code) now destination timestamp content random
          fetched (activeDeviceIds destination reached.store fetched) certificate between := by
  rcases setting.decodes with ⟨certBytes, decoded⟩
  rcases @textCertificate_ok _ now _ sender response _ code _ _ decoded _ _ registered with
    ⟨result, after, mapsAfter, gets, afterRegistered, sessions, server⟩
  let certificate := result.bind sender.certificate
  refine ⟨certificate, { after with trace := after.trace ++ [.useCertificate certificate] },
    mapsAfter, ?_, afterRegistered, sessions, server, ?_⟩
  · intro used isUsed
    rcases Option.bind_eq_some_iff.mp isUsed with ⟨bytes, _, parsed⟩
    exact setting.issued bytes used parsed
  · unfold attempt
    rw [bind_of_ok ran]
    change (textCertificate _ _ >>= _) reached = _
    rw [bind_of_ok gets]
    rfl

/-- The list that was accepted last has a message for each of the devices. -/
def Reached (response : PreKeyResponse)
    (ended : Except SendStop Unit × SendState formats sender (List (List PushHeader)))
    (accepted : List (List PushHeader)) : Prop :=
  wasSent ended.1 = true ∧
    ∃ headers, ended.2.server = accepted ++ [headers] ∧
      (headers.map addressed).Perm (devicesOf response)

/-- What an attempt with its list of devices ends in. -/
inductive Outcome (pair : P.KeyPair) (response : PreKeyResponse) (destination : String) (now : ℕ)
    (maps : StoreMaps formats.store) (state : SendState formats sender (List (List PushHeader)))
    (deviceIds : List Int32) :
    Except SendStop Unit × SendState formats sender (List (List PushHeader)) → Prop where
  | nobody (none : deviceIds = []) {after} :
    Outcome pair response destination now maps state deviceIds (.error (.returned false), after)
  | unready (unready : ¬∀ deviceId ∈ deviceIds, Ready response now maps ⟨destination, deviceId⟩)
      {exception after} :
    Outcome pair response destination now maps state deviceIds (.error (.thrown exception), after)
  | accepted (nonempty : deviceIds ≠ [])
      (ready : ∀ deviceId ∈ deviceIds, Ready response now maps ⟨destination, deviceId⟩)
      (current : (expected response destination maps deviceIds).Perm (devicesOf response))
      {after headers} (server : after.server = state.server ++ [headers])
      (accepts : (headers.map addressed).Perm (devicesOf response)) :
    Outcome pair response destination now maps state deviceIds (.error (.returned true), after)
  | refused (nonempty : deviceIds ≠ [])
      (ready : ∀ deviceId ∈ deviceIds, Ready response now maps ⟨destination, deviceId⟩)
      (stale : ¬(expected response destination maps deviceIds).Perm (devicesOf response))
      {after mapsAfter} (registered : Registered pair mapsAfter after.store)
      (server : after.server = state.server)
      (gone : ∀ deviceId, deviceId ∈ deviceIds ∨ maps.sessions ⟨destination, deviceId⟩ = none →
        mapsAfter.sessions ⟨destination, deviceId⟩ = none) :
    Outcome pair response destination now maps state deviceIds (.ok (), after)

section outcome

variable {certificate : Option sender.Certificate} {maps : StoreMaps formats.store}
  {state : SendState formats sender (List (List PushHeader))} {deviceIds : List Int32}

theorem Outcome.reached_iff
    {ended : Except SendStop Unit × SendState formats sender (List (List PushHeader))}
    (outcome : Outcome pair response destination now maps state deviceIds ended) :
    Reached response ended state.server ↔
      deviceIds ≠ [] ∧
      (∀ deviceId ∈ deviceIds, Ready response now maps ⟨destination, deviceId⟩) ∧
      (expected response destination maps deviceIds).Perm (devicesOf response) := by
  cases outcome with
  | nobody none => exact iff_of_false (fun reached => nomatch reached.1) (fun all => all.1 none)
  | unready unready =>
    exact iff_of_false (fun reached => nomatch reached.1) (fun all => unready all.2.1)
  | accepted nonempty ready current server accepts =>
    exact iff_of_true ⟨rfl, _, server, accepts⟩ ⟨nonempty, ready, current⟩
  | refused _ _ stale =>
    exact iff_of_false (fun reached => nomatch reached.1) (fun all => stale all.2.2)

include setting in
theorem sendToDevices_outcome (issued : Issued certificate)
    (registered : Registered pair maps state.store)
    (addressable : Addressable response fetched destination maps deviceIds)
    (timestamp : ℤ) (content : P.Bytes) (random : ℕ → DeviceDraws P) :
    Outcome pair response destination now maps state deviceIds
      (sendToDevices (deviceServer response certB64 code) now destination timestamp content random
        fetched deviceIds certificate state) := by
  rcases pushMessages_cases now setting.separate setting.sends setting.serves issued content
    random registered addressable with
    ⟨ready, messages, between, mapsBetween, pushes, headers, steps⟩ |
    ⟨unready, exception, after, failed⟩
  swap
  · rw [sendToDevices, bind_of_error failed]
    exact .unready unready
  rw [sendToDevices, bind_of_ok pushes]
  by_cases empty : messages.isEmpty = true
  · rw [if_pos empty]
    rw [isEmpty_iff.mp empty] at headers
    exact .nobody (map_eq_nil_iff.mp headers.symm)
  rw [if_neg empty]
  have nonempty : deviceIds ≠ [] := by
    rintro rfl
    exact empty (by rw [map_eq_nil_iff.mp headers]; rfl)
  have sameList : (messages.map OutgoingPushMessage.header).map addressed =
      expected response destination maps deviceIds := by
    rw [map_map]
    exact headers
  by_cases current : (expected response destination maps deviceIds).Perm (devicesOf response)
  · have accepts := sameList ▸ current
    simp only [post, bind, record, ask, deviceServer, OutgoingPushMessageList.map, if_pos accepts]
    exact .accepted nonempty ready current (by rw [steps.server]) accepts
  · have refuses := sameList ▸ current
    have pushed : messages.map (fun message => message.header.destinationDeviceId) = deviceIds := by
      have devices := congrArg (map Prod.fst) headers
      simpa [expected, addressed, comp_def] using devices
    let answered : SendState formats sender (List (List PushHeader)) :=
      { between with
        trace := between.trace ++ [.sendMessage ⟨destination, timestamp, messages, false, true⟩] }
    have answeredRegistered : Registered pair mapsBetween answered.store := steps.registered
    rcases deleteSessions_ok addressable.valid answeredRegistered with
      ⟨after, mapsAfter, deletes, afterRegistered, server, gone, absent⟩
    simp only [post, bind, record, ask, deviceServer, OutgoingPushMessageList.map, if_neg refuses,
      if_pos setting.code, pushed]
    rw [show deleteSessions destination deviceIds _ = _ from deletes]
    refine .refused nonempty ready current afterRegistered (server.trans steps.server) ?_
    intro deviceId cases
    by_cases listed : deviceId ∈ deviceIds
    · exact gone deviceId listed
    · apply absent
      rw [steps.others]
      · exact cases.resolve_left listed
      · rintro other isOther same
        cases same
        exact listed isOther

end outcome

def deviceIdsOf (response : PreKeyResponse) : List Int32 :=
  response.devices.map PreKeyResponseItem.deviceId

theorem entryOf_deviceId (serves : Serves formats sender response) {device : PreKeyResponseItem}
    (isDevice : device ∈ response.devices) :
    entryOf response device.deviceId = some device := by
  rcases entryOf_of_mem (mem_map_of_mem isDevice) with ⟨other, isOther, same, found⟩
  rw [found, inj_on_of_nodup_map serves.nodup isOther isDevice same]

include setting in
theorem addressable_response (maps : StoreMaps formats.store) :
    Addressable response (some response) destination maps (deviceIdsOf response) where
  nodup := setting.serves.nodup
  valid deviceId listed := by
    rcases mem_map.mp listed with ⟨device, isDevice, rfl⟩
    rcases setting.serves.bundles device isDevice with ⟨_, announces⟩
    exact announces.deviceId
  known _ listed _ := ⟨rfl, listed⟩

def firstDevices (response : PreKeyResponse) (destination : String) (store : AppStore formats) :
    List Int32 :=
  activeDeviceIds destination store
    (if containsSession store.prefs ⟨destination, 1⟩ = false then some response else none)

/-- The ids of the stored sessions are ones that the type of addresses has. -/
def StoredValid (destination : String) (maps : StoreMaps formats.store) : Prop :=
  ∀ deviceId, (maps.sessions ⟨destination, deviceId⟩).isSome → 1 ≤ deviceId ∧ deviceId ≤ 127

include setting in
theorem addressable_first {maps : StoreMaps formats.store} {store : AppStore formats}
    (registered : Registered pair maps store) (valid : StoredValid destination maps) :
    Addressable response
      (if containsSession store.prefs ⟨destination, 1⟩ = false then some response else none)
      destination maps (firstDevices response destination store) := by
  unfold firstDevices
  by_cases absent : containsSession store.prefs ⟨destination, 1⟩ = false
  · rw [if_pos absent]
    exact addressable_response setting maps
  · rw [if_neg absent]
    have listed := StoreMaps.mem_getSubDeviceSessions registered.represented destination
    have contained := registered.represented.containsSession_eq ⟨destination, 1⟩
    have filled : ¬(getSubDeviceSessions formats.store store.prefs destination).isEmpty = true := by
      intro empty
      have first := (listed 1).mpr (by rw [← contained]; simpa using absent)
      rw [isEmpty_iff.mp empty] at first
      cases first
    simp only [activeDeviceIds, if_neg filled]
    refine ⟨StoreMaps.getSubDeviceSessions_nodup registered.represented destination, ?_, ?_⟩
    · intro deviceId isListed
      exact valid deviceId ((listed deviceId).mp isListed)
    · intro deviceId isListed missing
      have stored := (listed deviceId).mp isListed
      rw [missing] at stored
      cases stored

section absent

variable {maps : StoreMaps formats.store}
  (absent : ∀ deviceId ∈ deviceIdsOf response, maps.sessions ⟨destination, deviceId⟩ = none)

include setting absent

theorem expected_absent :
    expected response destination maps (deviceIdsOf response) = devicesOf response := by
  unfold expected deviceIdsOf devicesOf
  rw [map_map]
  apply map_congr_left
  intro device isDevice
  have missing := absent device.deviceId (mem_map_of_mem isDevice)
  simp only [comp_apply, expectedId, missing, entryOf_deviceId setting.serves isDevice,
    Option.elim_some]

theorem ready_absent :
    (∀ deviceId ∈ deviceIdsOf response, Ready response now maps ⟨destination, deviceId⟩) ↔
      ∀ device ∈ response.devices, device.preKey.isSome := by
  constructor
  · intro ready device isDevice
    have readyHere := ready device.deviceId (mem_map_of_mem isDevice)
    unfold Ready at readyHere
    rw [absent device.deviceId (mem_map_of_mem isDevice)] at readyHere
    exact readyHere device (entryOf_deviceId setting.serves isDevice)
  · intro oneTime deviceId listed
    unfold Ready
    rw [absent deviceId listed]
    intro device found
    exact oneTime device (mem_of_find?_eq_some found)

end absent

variable {maps : StoreMaps formats.store}
  {state : SendState formats sender (List (List PushHeader))} {store : AppStore formats}

include setting in
theorem second_reached_iff (now : ℕ) (registered : Registered pair maps state.store)
    (absent : ∀ deviceId ∈ deviceIdsOf response, maps.sessions ⟨destination, deviceId⟩ = none)
    (timestamp : ℤ) (content : P.Bytes) (random : ℕ → DeviceDraws P) :
    Reached response
        (attempt (deviceServer response certB64 code) now destination
          (textCertificate (deviceServer response certB64 code) now) timestamp content random 2
          state) state.server ↔
      response.devices ≠ [] ∧ ∀ device ∈ response.devices, device.preKey.isSome := by
  rcases @preKeyResponse_eq _ formats sender response destination code certB64 2 state with
    ⟨reached, ran, store, server⟩
  rw [if_pos (Or.inl (by decide))] at ran
  rw [← store] at registered
  rcases attempt_eq setting now ran registered timestamp content random with
    ⟨certificate, between, mapsBetween, issued, betweenRegistered, sessions, betweenServer, sends⟩
  have absentBetween : ∀ deviceId ∈ deviceIdsOf response,
      mapsBetween.sessions ⟨destination, deviceId⟩ = none := by
    rw [sessions]
    exact absent
  rw [sends, ← server, ← betweenServer]
  change Reached response (sendToDevices _ _ _ _ _ _ _ (deviceIdsOf response) _ _) _ ↔ _
  rw [(sendToDevices_outcome setting issued betweenRegistered
    (addressable_response setting mapsBetween) timestamp content random).reached_iff,
    expected_absent setting absentBetween, ready_absent setting absentBetween]
  simp [deviceIdsOf]

theorem Addressable.congr {maps other : StoreMaps formats.store} {deviceIds : List Int32}
    (addressable : Addressable response fetched destination maps deviceIds)
    (sessions : other.sessions = maps.sessions) :
    Addressable response fetched destination other deviceIds where
  nodup := addressable.nodup
  valid := addressable.valid
  known deviceId listed := (addressable.known deviceId listed).congr (congrFun sessions _)

theorem devices_eq_nil_of_first (none : firstDevices response destination store = []) :
    response.devices = [] := by
  unfold firstDevices activeDeviceIds at none
  split_ifs at none with absent
  · exact map_eq_nil_iff.mp none
  · dsimp only at none
    split_ifs at none with empty
    rw [none] at empty
    exact absurd rfl empty

theorem first_or_absent (registered : Registered pair maps store) {deviceId : Int32}
    (listed : deviceId ∈ deviceIdsOf response) :
    deviceId ∈ firstDevices response destination store ∨
      maps.sessions ⟨destination, deviceId⟩ = none := by
  unfold firstDevices
  by_cases absent : containsSession store.prefs ⟨destination, 1⟩ = false
  · rw [if_pos absent]
    exact Or.inl listed
  · rw [if_neg absent]
    cases stored : maps.sessions ⟨destination, deviceId⟩ with
    | none => exact Or.inr rfl
    | some record =>
      have isSession := (StoreMaps.mem_getSubDeviceSessions registered.represented destination
        deviceId).mpr (by rw [stored]; rfl)
      refine Or.inl ?_
      unfold activeDeviceIds
      dsimp only
      rw [if_neg]
      · exact isSession
      · intro empty
        rw [isEmpty_iff.mp empty] at isSession
        cases isSession

include setting in
theorem first_attempt_eq (now : ℕ) (registered : Registered pair maps state.store)
    (valid : StoredValid destination maps) (timestamp : ℤ) (content : P.Bytes)
    (random : ℕ → DeviceDraws P) :
    ∃ fetched certificate between mapsBetween,
      Issued certificate ∧
      Registered pair mapsBetween between.store ∧ mapsBetween.sessions = maps.sessions ∧
      between.server = state.server ∧
      Addressable response fetched destination mapsBetween
        (firstDevices response destination state.store) ∧
      attempt (deviceServer response certB64 code) now destination
          (textCertificate (deviceServer response certB64 code) now) timestamp content random 1
          state =
        sendToDevices (deviceServer response certB64 code) now destination timestamp content random
          fetched (firstDevices response destination state.store) certificate between := by
  have addressable := addressable_first setting registered valid
  rcases @preKeyResponse_eq _ formats sender response destination code certB64 1 state with
    ⟨reached, ran, store, server⟩
  simp only [lt_self_iff_false, false_or] at ran
  rw [← store] at registered
  rcases attempt_eq setting now ran registered timestamp content random with
    ⟨certificate, between, mapsBetween, issued, betweenRegistered, sessions, betweenServer, sends⟩
  rw [store] at sends
  exact ⟨_, certificate, between, mapsBetween, issued, betweenRegistered, sessions,
    betweenServer.trans server, addressable.congr sessions, sends⟩

include setting in
theorem attempts_reached_iff (registered : Registered pair maps state.store)
    (valid : StoredValid destination maps) (timestamp : ℤ) (content : P.Bytes)
    (random : ℕ → ℕ → DeviceDraws P) :
    Reached response
        (attempts (deviceServer response certB64 code) now destination
          (textCertificate (deviceServer response certB64 code) now) timestamp content random
          state) state.server ↔
      response.devices ≠ [] ∧
      (∀ deviceId ∈ firstDevices response destination state.store,
        Ready response now maps ⟨destination, deviceId⟩) ∧
      ((expected response destination maps
          (firstDevices response destination state.store)).Perm (devicesOf response) ∨
        ∀ device ∈ response.devices, device.preKey.isSome) := by
  rcases first_attempt_eq setting now registered valid timestamp content (random 1) with
    ⟨fetched, certificate, between, mapsBetween, issued, betweenRegistered, sessions, server,
      addressable, sends⟩
  have sameReady : ∀ address, Ready response now maps address ↔
      Ready response now mapsBetween address :=
    fun address => (ready_congr (congrFun sessions address)).symm
  have sameExpected : expected response destination maps
      (firstDevices response destination state.store) =
        expected response destination mapsBetween
          (firstDevices response destination state.store) := by
    apply map_congr_left
    intro deviceId _
    rw [expectedId_congr (congrFun sessions _)]
  have outcome := sends ▸ sendToDevices_outcome setting issued betweenRegistered addressable
    timestamp content (random 1)
  simp only [sameReady, sameExpected]
  rw [← server]
  unfold attempts
  revert outcome
  generalize first : attempt _ _ _ _ _ _ _ _ state = ended
  intro outcome
  cases outcome with
  | nobody none =>
    rw [bind_of_error first]
    exact iff_of_false (fun reached => nomatch reached.1)
      fun all => all.1 (devices_eq_nil_of_first none)
  | unready unready =>
    rw [bind_of_error first]
    exact iff_of_false (fun reached => nomatch reached.1) fun all => unready all.2.1
  | accepted nonempty ready current afterServer accepts =>
    rw [bind_of_error first]
    refine iff_of_true ⟨rfl, _, afterServer, accepts⟩ ⟨?_, ready, .inl current⟩
    intro empty
    apply nonempty
    have nothing : devicesOf response = [] := by rw [devicesOf, empty]; rfl
    rw [nothing] at current
    exact map_eq_nil_iff.mp current.eq_nil
  | refused nonempty ready stale afterRegistered afterServer gone =>
    rw [bind_of_ok first, ← afterServer, second_reached_iff setting now afterRegistered _ timestamp
      content (random 2)]
    · constructor
      · rintro ⟨nonempty, oneTime⟩
        exact ⟨nonempty, ready, Or.inr oneTime⟩
      · rintro ⟨nonempty, _, isCurrent | oneTime⟩
        · exact absurd isCurrent stale
        · exact ⟨nonempty, oneTime⟩
    · intro deviceId listed
      apply gone
      rw [sessions]
      exact first_or_absent registered listed

/-- A text message reaches every device of the recipient, with one message each, exactly if the
recipient has a device, every device that the first attempt goes to has a session that can encrypt
or an entry with a one-time prekey, and, unless the first list is already addressed to the devices
with their registration ids, all of them have an entry with a one-time prekey. -/
theorem sendMessage_reaches_iff
    (setting : Setting formats sender response certB64 code destination) {store : AppStore formats}
    (registered : Registered pair maps store)
    (valid : ∀ deviceId, (maps.sessions ⟨destination, deviceId⟩).isSome →
      1 ≤ deviceId ∧ deviceId ≤ 127)
    (messageBody : String) (timestamp : ℤ) (profileKey : Option (List UInt8))
    (random : ℕ → ℕ → DeviceDraws P) :
    let start : SendState formats sender (List (List PushHeader)) := ⟨store, [], []⟩
    let ended := sendMessage (deviceServer response certB64 code) now destination messageBody
      timestamp profileKey random start
    (ended.1 = true ∧ ∃ headers, ended.2.server = [headers] ∧
        (headers.map addressed).Perm (devicesOf response)) ↔
      response.devices ≠ [] ∧
      (∀ deviceId ∈ firstDevices response destination store,
        Ready response now maps ⟨destination, deviceId⟩) ∧
      ((expected response destination maps (firstDevices response destination store)).Perm
          (devicesOf response) ∨
        ∀ device ∈ response.devices, device.preKey.isSome) := by
  intro start ended
  have startRegistered : Registered pair maps start.store := registered
  exact attempts_reached_iff setting startRegistered valid timestamp _ random

end attempts

def zeroDevice : PreKeyResponseItem where
  deviceId := 1
  registrationId := 5
  signedPreKey := some ⟨0, "", ""⟩
  preKey := some ⟨0, ""⟩
  pqPreKey := some ⟨0, "", ""⟩

def zeroResponse : PreKeyResponse := ⟨"", [zeroDevice]⟩

def zeroBundle : PreKeyBundle symbolic where
  registrationId := 5
  preKeyId := some 0
  preKeyPublic := some (0 : ℕ)
  signedPreKeyId := 0
  signedPreKeyPublic := (0 : ℕ)
  signedPreKeySignature := ((0, 0) : ℕ × ℕ)
  identityKey := (0 : ℕ)
  kyberPreKeyId := 0
  kyberPreKeyPublic := (0 : ℕ)
  kyberPreKeySignature := ((0, 0) : ℕ × ℕ)

theorem decodeText_empty : decodeText SignalFormats.symbolic "" = .ok [] := rfl

theorem decodePublicKey_empty :
    decodePublicKey SignalFormats.symbolic SenderFormats.symbolic "" = .ok (0 : ℕ) := rfl

theorem announces_zeroBundle :
    Announces SignalFormats.symbolic SenderFormats.symbolic zeroResponse zeroDevice zeroBundle where
  deviceId := by decide
  registrationId := rfl
  identityKey := decodePublicKey_empty
  signedPreKey := ⟨_, [], rfl, decodePublicKey_empty, decodeText_empty, rfl, rfl⟩
  kyberPreKey := ⟨_, [], [], rfl, decodeText_empty, rfl, decodeText_empty, rfl, rfl⟩
  preKey := ⟨0, (0 : ℕ), decodePublicKey_empty, rfl, rfl, rfl⟩
  signed := rfl
  kyberSigned := rfl
  encapsulates _ := rfl

theorem setting_zeroResponse :
    Setting SignalFormats.symbolic SenderFormats.symbolic zeroResponse "" 409 "bob" where
  sends := ⟨fun _ _ _ => ⟨_, rfl, fun _ => rfl⟩, fun _ _ _ _ => rfl⟩
  serves := by
    refine ⟨by decide, ?_⟩
    intro device isDevice
    cases mem_singleton.mp isDevice
    exact ⟨zeroBundle, announces_zeroBundle⟩
  decodes := ⟨[], rfl⟩
  issued _ _ _ := rfl
  code := Or.inr rfl
  separate := by decide

noncomputable def ownMaps : StoreMaps SignalFormats.symbolic.store :=
  (StoreWrite.saveIdentityKeyPair (⟨(1 : ℕ)⟩ : symbolic.KeyPair)).onMaps .empty

theorem registered_aliceStore : Registered ⟨(1 : ℕ)⟩ ownMaps Symbolic.aliceStore :=
  ⟨@StorePair.representedBy_write SignalFormats.symbolic.store ⟨∅, .empty⟩
    StoreMaps.representedBy_empty (.saveIdentityKeyPair (⟨(1 : ℕ)⟩ : symbolic.KeyPair)) trivial,
    rfl⟩

def zeroDraws : ℕ → ℕ → DeviceDraws symbolic := fun _ _ => ⟨Symbolic.aliceDraw, (0 : ℕ)⟩

/-- The first message to the device. -/
theorem sendMessage_reaches_iff_first :
    let start : SendState SignalFormats.symbolic SenderFormats.symbolic (List (List PushHeader)) :=
      ⟨Symbolic.aliceStore, [], []⟩
    let ended := sendMessage (deviceServer zeroResponse "" 409) 0 "bob" "hello" 0 none zeroDraws
      start
    ended.1 = true ∧ ∃ headers, ended.2.server = [headers] ∧
      (headers.map addressed).Perm (devicesOf zeroResponse) := by
  apply (sendMessage_reaches_iff setting_zeroResponse registered_aliceStore nofun "hello" 0 none
    zeroDraws).mpr
  refine ⟨by decide, ?_, Or.inr ?_⟩
  · intro deviceId _ device found
    have isDevice := mem_of_find?_eq_some found
    cases mem_singleton.mp isDevice
    rfl
  · intro device isDevice
    cases mem_singleton.mp isDevice
    rfl

noncomputable def archivedStore : AppStore SignalFormats.symbolic :=
  storeSession Symbolic.aliceStore ⟨"bob", 1⟩ ⟨none, [Symbolic.aliceSession]⟩

/-- The message does not arrive, although the server has a bundle for the device. -/
theorem sendMessage_archived_not_reaches :
    let start : SendState SignalFormats.symbolic SenderFormats.symbolic (List (List PushHeader)) :=
      ⟨archivedStore, [], []⟩
    let ended := sendMessage (deviceServer zeroResponse "" 409) 0 "bob" "hello" 0 none zeroDraws
      start
    ¬(ended.1 = true ∧ ∃ headers, ended.2.server = [headers] ∧
      (headers.map addressed).Perm (devicesOf zeroResponse)) := by
  intro start ended reached
  let record : SessionRecord symbolic := ⟨none, [Symbolic.aliceSession]⟩
  let maps : StoreMaps SignalFormats.symbolic.store :=
    (StoreWrite.storeSession ⟨"bob", 1⟩ record).onMaps ownMaps
  have registered : Registered ⟨(1 : ℕ)⟩ maps start.store :=
    registered_aliceStore.write (.storeSession ⟨"bob", 1⟩ record) trivial rfl
  have stored : ∀ deviceId, (maps.sessions ⟨"bob", deviceId⟩).isSome → deviceId = 1 := by
    intro deviceId isStored
    by_contra different
    have apart : (⟨"bob", deviceId⟩ : SignalProtocolAddress) ≠ ⟨"bob", 1⟩ := by
      intro same
      cases same
      exact different rfl
    have missing : maps.sessions ⟨"bob", deviceId⟩ = none := update_of_ne apart _ _
    rw [missing] at isStored
    cases isStored
  have valid : ∀ deviceId, (maps.sessions ⟨"bob", deviceId⟩).isSome →
      1 ≤ deviceId ∧ deviceId ≤ 127 := by
    intro deviceId isStored
    cases stored deviceId isStored
    decide
  have here : maps.sessions ⟨"bob", 1⟩ = some record := by
    simp only [maps, StoreWrite.onMaps, update_self]
    rfl
  have listed : (1 : Int32) ∈ deviceIdsOf zeroResponse := by decide
  have first : (1 : Int32) ∈ firstDevices zeroResponse "bob" start.store := by
    rcases first_or_absent registered listed with first | absent
    · exact first
    · rw [here] at absent
      cases absent
  have ready := ((attempts_reached_iff setting_zeroResponse registered valid 0 _ zeroDraws).mp
    reached).2.1 1 first
  unfold Ready at ready
  rw [here] at ready
  rcases ready with ⟨state, current, _⟩
  cases current

end MessageSender

end LegacySignal
