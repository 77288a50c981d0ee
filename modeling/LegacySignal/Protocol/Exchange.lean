import LegacySignal.Protocol.Correspondence
import LegacySignal.Protocol.StoreSpec

/-!
# Two parties that exchange messages

Two parties have set up a session with matching parameters. They send each
other messages, which arrive late, repeatedly, in any order or not at all.

What a party has received is recorded in its inbox: a message that was
accepted is received there too. The inbox says which chains and which skipped
keys are still there. A world is represented by a state of the whole session;
the one after the setup is.
-/

namespace LegacySignal

open ProtocolStore ReceiveWindow List

variable {P : Primitives} {Store : Type} [ProtocolStore P Store]

section Operations

variable {store : Store} {address : SignalProtocolAddress} {record : SessionRecord P}
  {state updated : SessionState P} {ciphertext : SignalMessage P}
  {messageType : CiphertextMessageType} {ourNewEphemeral : P.PrivateKey} {ptext : P.Bytes}
  {message : CiphertextMessage P}

theorem loadExisting_of_some (loaded : loadSession store address = .ok (some record)) :
    loadExisting store address = .ok record := by
  rw [loadExisting, loaded]
  rfl

theorem loadOrFresh_of_some (loaded : loadSession store address = .ok (some record)) :
    loadOrFresh store address = .ok record := by
  rw [loadOrFresh, loaded]
  rfl

theorem decryptMessage_single_ok
    (decrypts : state.decryptMessage ciphertext messageType ourNewEphemeral =
      .ok (ptext, updated)) :
    SessionRecord.decryptMessage ⟨some state, []⟩ ciphertext messageType ourNewEphemeral =
      .ok (ptext, ⟨some updated, []⟩) := by
  simp only [SessionRecord.decryptMessage, decrypts]

theorem decryptMessage_single_error
    (fails : ∀ ptext updated, state.decryptMessage ciphertext messageType ourNewEphemeral ≠
      .ok (ptext, updated)) :
    ∃ error, SessionRecord.decryptMessage ⟨some state, []⟩ ciphertext messageType
      ourNewEphemeral = .error error := by
  cases decrypted : SessionRecord.decryptMessage ⟨some state, []⟩ ciphertext messageType
      ourNewEphemeral with
  | error error => exact ⟨error, rfl⟩
  | ok result =>
    exfalso
    unfold SessionRecord.decryptMessage at decrypted
    dsimp only at decrypted
    split at decrypted
    · rename_i ptext updated attempt
      exact fails ptext updated attempt
    · cases decrypted
    · split at decrypted <;> cases decrypted

theorem remoteIdentityKey_decryptMessage
    (decrypts : state.decryptMessage ciphertext messageType ourNewEphemeral =
      .ok (ptext, updated)) : ∃ identity, updated.remoteIdentityKey = some identity := by
  rcases SessionState.decrypts_of_eq_ok decrypts with ⟨steps⟩
  exact ⟨steps.theirIdentityKey,
    (congrArg SessionState.remoteIdentityKey steps.updated_eq).trans steps.identity⟩

/-- The message is one that the session of the record was set up for. -/
def Addressed (state : SessionState P) : CiphertextMessage P → Prop
  | .signalMessage _ => True
  | .preKeySignalMessage message =>
    SessionRecord.Matches message.messageVersion message.baseKey state = true

theorem processPreKey_single {message : PreKeySignalMessage P}
    (matching : SessionRecord.Matches message.messageVersion message.baseKey state = true) :
    processPreKey store message ⟨some state, []⟩ = .ok (none, ⟨some state, []⟩) := by
  simp only [processPreKey, SessionRecord.promoteMatchingSession, Option.any_some, matching,
    if_true]

theorem commitResult_error {Output : Type}
    {result : Except SignalProtocolError (SessionUpdate P Output)}
    (fails : ∀ update, result ≠ .ok update) :
    ∃ error, commitResult store address result = (.error error, store) := by
  cases result with
  | error error => exact ⟨error, rfl⟩
  | ok update => exact absurd rfl (fails update)

theorem messageDecrypt_error (loaded : loadSession store address = .ok (some ⟨some state, []⟩))
    (addressed : Addressed state message)
    (fails : ∀ ptext updated, state.decryptMessage message.inner (messageTypeOf message)
      ourNewEphemeral ≠ .ok (ptext, updated)) :
    ∃ error, messageDecrypt store address message ourNewEphemeral = (.error error, store) := by
  rcases decryptMessage_single_error fails with ⟨error, failed⟩
  cases message with
  | signalMessage inner =>
    apply commitResult_error
    rw [loadExisting_of_some loaded]
    intro update updates
    rcases decryptSignalUpdate_eq_ok.mp updates with ⟨_, _, _, decrypts, _⟩
    cases decrypts.symm.trans failed
  | preKeySignalMessage outer =>
    apply commitResult_error
    rw [loadOrFresh_of_some loaded]
    intro update updates
    rcases decryptPreKeyUpdate_eq_ok.mp updates with ⟨_, _, _, _, _, processes, decrypts, _⟩
    cases (processPreKey_single addressed).symm.trans processes
    cases decrypts.symm.trans failed

variable [LawfulProtocolStore P Store]

theorem messageEncrypt_cases (ptext : P.Bytes) (now : ℕ) (random : P.Random)
    (loaded : loadSession store address = .ok (some ⟨some state, []⟩)) :
    (∃ error, messageEncrypt store address ptext now random = (.error error, store)) ∨
      ∃ message sent theirIdentityKey stored,
        state.encryptMessage address ptext now random = .ok (message, sent, theirIdentityKey) ∧
        messageEncrypt store address ptext now random = (.ok message, stored) ∧
        loadSession stored address = .ok (some ⟨some sent, []⟩) := by
  unfold messageEncrypt
  rw [loadExisting_of_some loaded]
  change (∃ error, commitResult store address
    (encryptUpdate store address ptext now random ⟨some state, []⟩) = (.error error, store)) ∨ _
  cases updated : encryptUpdate store address ptext now random ⟨some state, []⟩ with
  | error error => exact Or.inl ⟨error, rfl⟩
  | ok update =>
    rcases encryptUpdate_eq_ok.mp updated with
      ⟨_, message, sent, theirIdentityKey, ⟨⟩, encrypts, _, rfl⟩
    refine Or.inr ⟨message, sent, theirIdentityKey,
      storeSession (saveIdentity store address theirIdentityKey) address ⟨some sent, []⟩,
      encrypts, ?_, LawfulProtocolStore.loadSession_storeSession _ _ _⟩
    change commitResult store address (encryptUpdate store address ptext now random
      ⟨some state, []⟩) = _
    rw [updated]
    rfl

variable [TrustingProtocolStore P Store]

theorem messageDecrypt_ok (loaded : loadSession store address = .ok (some ⟨some state, []⟩))
    (addressed : Addressed state message)
    (decrypts : state.decryptMessage message.inner (messageTypeOf message) ourNewEphemeral =
      .ok (ptext, updated)) :
    ∃ stored, messageDecrypt store address message ourNewEphemeral = (.ok ptext, stored) ∧
      loadSession stored address = .ok (some ⟨some updated, []⟩) := by
  cases message with
  | signalMessage inner =>
    rcases remoteIdentityKey_decryptMessage decrypts with ⟨identity, remote⟩
    have updates : decryptSignalUpdate store address inner ourNewEphemeral ⟨some state, []⟩ =
        .ok ⟨ptext, ⟨some updated, []⟩, identity, none⟩ :=
      decryptSignalUpdate_eq_ok.mpr ⟨ptext, _, identity, decryptMessage_single_ok decrypts,
        remote, TrustingProtocolStore.isTrustedIdentity_eq _ _ _ _, rfl⟩
    refine ⟨storeSession (saveIdentity store address identity) address ⟨some updated, []⟩, ?_,
      LawfulProtocolStore.loadSession_storeSession _ _ _⟩
    simp only [messageDecrypt, messageDecryptSignal, loadExisting_of_some loaded,
      Except.bind, updates]
    rfl
  | preKeySignalMessage outer =>
    have updates : decryptPreKeyUpdate store address outer ourNewEphemeral ⟨some state, []⟩ =
        .ok ⟨ptext, ⟨some updated, []⟩, outer.identityKey, none⟩ :=
      decryptPreKeyUpdate_eq_ok.mpr ⟨TrustingProtocolStore.isTrustedIdentity_eq _ _ _ _, none, _,
        ptext, _, processPreKey_single addressed, decryptMessage_single_ok decrypts, rfl⟩
    refine ⟨storeSession (saveIdentity store address outer.identityKey) address
      ⟨some updated, []⟩, ?_, LawfulProtocolStore.loadSession_storeSession _ _ _⟩
    simp only [messageDecrypt, messageDecryptPreKey, loadOrFresh_of_some loaded,
      Except.bind, updates]
    rfl

end Operations

namespace Delivery

/-- Two parties, with the parameters that their session is set up from. -/
structure Parties (P : Primitives) where
  address : Side → SignalProtocolAddress
  alice : AliceSignalProtocolParameters P
  bob : BobSignalProtocolParameters P
  /-- What Alice draws at the setup. -/
  kyber : P.Random
  ratchetKey : P.PrivateKey

namespace Parties

def setting (parties : Parties P) : Setting P where
  identity
    | .alice => parties.alice.ourIdentityKeyPair.publicKey
    | .bob => parties.bob.ourIdentityKeyPair.publicKey
  baseKey := parties.alice.ourBaseKeyPair.publicKey

/-- Each side was given the public keys of the other, and both have the secret of Kyber. -/
structure Matching (parties : Parties P) : Prop where
  aliceIdentity : parties.alice.theirIdentityKey = parties.bob.ourIdentityKeyPair.publicKey
  bobIdentity : parties.bob.theirIdentityKey = parties.alice.ourIdentityKeyPair.publicKey
  signedPreKey : parties.alice.theirSignedPreKey = parties.bob.ourSignedPreKeyPair.publicKey
  oneTimePreKey : parties.alice.theirOneTimePreKey =
    parties.bob.ourOneTimePreKeyPair.map Primitives.KeyPair.publicKey
  ratchetKey : parties.alice.theirRatchetKey = parties.bob.ourRatchetKeyPair.publicKey
  baseKey : parties.bob.theirBaseKey = parties.alice.ourBaseKeyPair.publicKey
  kyber : ∀ secret ciphertext,
    P.encapsulate parties.alice.theirKyberPreKey parties.kyber = some (secret, ciphertext) →
      parties.bob.theirKyberCiphertext = ciphertext ∧
        P.decapsulate parties.bob.ourKyberPreKeyPair ciphertext = some secret

end Parties

structure World (P : Primitives) (Store : Type) where
  store : Side → Store
  sent : List (Sent P)
  inbox : Side → Inbox P.PublicKey
  /-- The ratchet keys drawn so far. -/
  ratchetKeys : List P.PublicKey

inductive Event (P : Primitives) where
  | encrypt (side : Side) (ptext : P.Bytes) (now : ℕ) (random : P.Random)
  | deliver (position : ℕ) (ourNewEphemeral : P.PrivateKey)

/-- At first Alice follows the chain of Bob's ratchet key, and Bob follows none. -/
def Parties.inbox (parties : Parties P) : Side → Inbox P.PublicKey
  | .alice => ⟨[(parties.alice.theirRatchetKey, Window.new)], []⟩
  | .bob => ⟨[], []⟩

def Parties.initial (parties : Parties P) (store : Side → Store) : World P Store where
  store := store
  sent := []
  inbox := parties.inbox
  ratchetKeys := [P.publicKey parties.ratchetKey, parties.bob.ourRatchetKeyPair.publicKey]

def World.encrypt (parties : Parties P) (world : World P Store) (side : Side) (ptext : P.Bytes)
    (now : ℕ) (random : P.Random) : World P Store :=
  let result :=
    messageEncrypt (world.store side) (parties.address side.other) ptext now random
  { world with
    store := Function.update world.store side result.2
    sent :=
      match result.1 with
      | .ok message => world.sent ++ [⟨side, message, ptext, false⟩]
      | .error _ => world.sent }

def World.decrypt (parties : Parties P) (world : World P Store) (sent : Sent P)
    (ourNewEphemeral : P.PrivateKey) : Except SignalProtocolError P.Bytes × Store :=
  messageDecrypt (world.store sent.sender.other) (parties.address sent.sender) sent.message
    ourNewEphemeral

def World.deliver (parties : Parties P) (world : World P Store) (position : ℕ) (sent : Sent P)
    (ourNewEphemeral : P.PrivateKey) : World P Store :=
  let receiver := sent.sender.other
  let result := world.decrypt parties sent ourNewEphemeral
  let stored :=
    { world with
      store := Function.update world.store receiver result.2
      ratchetKeys := P.publicKey ourNewEphemeral :: world.ratchetKeys }
  match result.1 with
  | .error _ => stored
  | .ok _ =>
    { stored with
      sent := world.sent.set position sent.accept
      inbox := Function.update world.inbox receiver
        (((world.inbox receiver).receive parties.setting.limits sent.ratchetKey
          sent.number).getD (world.inbox receiver)) }

def step (parties : Parties P) (world : World P Store) : Event P → Option (World P Store)
  | .encrypt side ptext now random => some (world.encrypt parties side ptext now random)
  | .deliver position ourNewEphemeral =>
    (world.sent[position]?).map fun sent => world.deliver parties position sent ourNewEphemeral

def Fresh (world : World P Store) : Event P → Prop
  | .encrypt _ _ _ _ => True
  | .deliver _ ourNewEphemeral => P.publicKey ourNewEphemeral ∉ world.ratchetKeys

def BelowLast (parties : Parties P) (world : World P Store) : Event P → Prop
  | .encrypt side _ _ _ =>
    ∀ record state chain,
      loadSession (world.store side) (parties.address side.other) = .ok (some record) →
      record.currentSession = some state → state.senderChain = some chain →
      chain.chainKey.index ≠ 0xFFFFFFFF
  | .deliver _ _ => True

/-- The stores hold the session as both sides have set it up, and no other one. Alice may still
have to tell Bob of it. -/
structure Established (parties : Parties P) (store : Side → Store) : Prop where
  matching : parties.Matching
  ratchetKey_ne : P.publicKey parties.ratchetKey ≠ parties.bob.ourRatchetKeyPair.publicKey
  alice : ∃ made items kyberItems localId remoteId,
    initializeAliceSession parties.alice parties.kyber parties.ratchetKey = .ok made ∧
    (∀ pending, items = some pending →
      pending.baseKey = parties.alice.ourBaseKeyPair.publicKey) ∧
    loadSession (store .alice) (parties.address .bob) =
      .ok (some ⟨some { made with
        pendingPreKey := items
        pendingKyberPreKey := kyberItems
        localRegistrationId := localId
        remoteRegistrationId := remoteId }, []⟩)
  bob : ∃ made localId remoteId,
    initializeBobSession parties.bob = .ok made ∧
    loadSession (store .bob) (parties.address .alice) =
      .ok (some ⟨some { made with
        localRegistrationId := localId
        remoteRegistrationId := remoteId }, []⟩)

structure Represents (parties : Parties P) (link : P.PqLink) (world : World P Store)
    (ghost : Ghost P) : Prop where
  synced : ghost.Synced parties.setting link world.ratchetKeys
  sent : world.sent = ghost.entries.map Entry.sent
  inbox : world.inbox = ghost.inbox
  loaded : ∀ side, loadSession (world.store side) (parties.address side.other) =
    .ok (some ⟨some (ghost.states side), []⟩)

section Setup

variable {parties : Parties P} {made : SessionState P} {sharedSecret : P.Secret}

theorem secrets_eq (ideal : P.Ideal) (matching : parties.Matching) (sharedSecret : P.Secret) :
    parties.alice.secrets sharedSecret = parties.bob.secrets sharedSecret := by
  have comm := ideal.agreement_comm
  have oneTime : parties.alice.theirOneTimePreKey.map
      (P.calculateAgreement parties.alice.ourBaseKeyPair.privateKey) =
        parties.bob.ourOneTimePreKeyPair.map fun pair =>
          P.calculateAgreement pair.privateKey parties.bob.theirBaseKey := by
    rw [matching.oneTimePreKey, Option.map_map, matching.baseKey]
    congr 1
    funext pair
    exact comm _ _
  simp only [AliceSignalProtocolParameters.secrets, BobSignalProtocolParameters.secrets, oneTime]
  rw [matching.signedPreKey, matching.aliceIdentity, matching.bobIdentity, matching.baseKey]
  simp only [Primitives.KeyPair.publicKey]
  rw [comm parties.alice.ourIdentityKeyPair.privateKey, comm _
    parties.bob.ourIdentityKeyPair.privateKey,
    comm _ parties.bob.ourSignedPreKeyPair.privateKey]

/-- The rung that the setup gives to Bob. -/
def baseRung (parties : Parties P) (sharedSecret : P.Secret) : Rung P where
  owner := .bob
  key := parties.bob.ourRatchetKeyPair.privateKey
  root := P.hkdf none (parties.bob.secrets sharedSecret) .whisperText 0
  chain := P.hkdf none (parties.bob.secrets sharedSecret) .whisperText 1

def baseStart (parties : Parties P) (sharedSecret : P.Secret) (key : P.PublicKey) : P.Secret :=
  if key = (baseRung parties sharedSecret).publicKey then (baseRung parties sharedSecret).chain
  else ((baseRung parties sharedSecret).next parties.ratchetKey).chain

theorem publicKey_baseRung (matching : parties.Matching) (sharedSecret : P.Secret) :
    parties.alice.theirRatchetKey = (baseRung parties sharedSecret).publicKey :=
  matching.ratchetKey

theorem inbox_sound (parties : Parties P) (side : Side) :
    (parties.inbox side).Sound parties.setting.limits := by
  cases side with
  | alice =>
    refine ⟨nodup_singleton _, ?_, ?_⟩
    · intro entry member
      rw [mem_singleton.mp member]
      exact Window.sound_new _
    · intro stream member
      cases member
  | bob =>
    refine ⟨nodup_nil, ?_, ?_⟩ <;> intro entry member <;> cases member

theorem inbox_small (parties : Parties P) (side : Side) :
    ∀ entry ∈ (parties.inbox side).windows, entry.2.next < UInt32.size := by
  cases side with
  | alice =>
    intro entry member
    rw [mem_singleton.mp member]
    exact (by decide : 0 < UInt32.size)
  | bob =>
    intro entry member
    cases member

theorem alice_endpoint (ideal : P.Ideal) (matching : parties.Matching)
    (makes : initializeAliceSession parties.alice parties.kyber parties.ratchetKey = .ok made) :
    ∃ sharedSecret ciphertext,
      P.encapsulate parties.alice.theirKyberPreKey parties.kyber =
        some (sharedSecret, ciphertext) ∧
      P.pqInitialState (P.hkdf none (parties.bob.secrets sharedSecret) .whisperText 2) .a2b
        parties.setting.withSelf = some made.pqRatchetState ∧
      ∀ items kyberItems localId remoteId,
        (∀ pending, items = some pending →
          pending.baseKey = parties.alice.ourBaseKeyPair.publicKey) →
        Endpoint parties.setting (baseStart parties sharedSecret) .alice
          ((baseRung parties sharedSecret).next parties.ratchetKey) 0 (parties.inbox .alice)
          { made with
            pendingPreKey := items
            pendingKyberPreKey := kyberItems
            localRegistrationId := localId
            remoteRegistrationId := remoteId } := by
  rcases initializeAliceSession_eq_ok.mp makes with
    ⟨sharedSecret, ciphertext, pqState, encapsulates, pqInitial, rfl⟩
  have secrets := secrets_eq ideal matching sharedSecret
  have ratchet := publicKey_baseRung matching sharedSecret
  simp only [secrets, matching.aliceIdentity] at pqInitial
  refine ⟨sharedSecret, ciphertext, encapsulates, pqInitial, ?_⟩
  intro items kyberItems localId remoteId base
  refine ⟨rfl, rfl, congrArg some matching.aliceIdentity, rfl, ?_, ?_, ?_, ?_,
    inbox_sound parties .alice, inbox_small parties .alice⟩
  · intro pending found
    exact ⟨rfl, base pending found⟩
  · change (createChain (deriveKeys (parties.alice.secrets sharedSecret)).1
      parties.alice.theirRatchetKey parties.ratchetKey).1 = _
    rw [secrets, ratchet]
    rfl
  · change some (⟨_, (createChain (deriveKeys (parties.alice.secrets sharedSecret)).1
      parties.alice.theirRatchetKey parties.ratchetKey).2⟩ : SenderChain P) = _
    rw [secrets, ratchet]
    rfl
  · change [(⟨parties.alice.theirRatchetKey,
      (deriveKeys (parties.alice.secrets sharedSecret)).2.1, []⟩ : ReceiverChain P)] = _
    simp only [Parties.inbox, map_cons, map_nil, chainOf, baseStart, ratchet, if_true,
      secrets]
    rfl

theorem bob_endpoint (matching : parties.Matching) {ciphertext : P.KemCiphertext}
    (encapsulates : P.encapsulate parties.alice.theirKyberPreKey parties.kyber =
      some (sharedSecret, ciphertext))
    (makes : initializeBobSession parties.bob = .ok made) :
    P.pqInitialState (P.hkdf none (parties.bob.secrets sharedSecret) .whisperText 2) .b2a
        parties.setting.withSelf = some made.pqRatchetState ∧
      ∀ localId remoteId,
        Endpoint parties.setting (baseStart parties sharedSecret) .bob
          (baseRung parties sharedSecret) 0 (parties.inbox .bob)
          { made with
            localRegistrationId := localId
            remoteRegistrationId := remoteId } := by
  rcases initializeBobSession_eq_ok.mp makes with ⟨_, _, pqState, shared, pqInitial, rfl⟩
  rcases matching.kyber sharedSecret ciphertext encapsulates with ⟨sameCiphertext, agreed⟩
  rw [sameCiphertext, agreed] at shared
  cases shared
  simp only [matching.bobIdentity] at pqInitial
  refine ⟨?_, ?_⟩
  · rw [← parties.setting.withSelf_eq .alice]
    exact pqInitial
  · intro localId remoteId
    refine ⟨rfl, rfl, congrArg some matching.bobIdentity, matching.baseKey, ?_, rfl, rfl, rfl,
      inbox_sound parties .bob, inbox_small parties .bob⟩
    intro pending found
    cases found

theorem inbox_known (matching : parties.Matching) (sharedSecret : P.Secret) (side : Side)
    (key : P.PublicKey) :
    (parties.inbox side).Known key ↔
      ∃ rung ∈ [baseRung parties sharedSecret], rung.owner = side.other ∧
        rung.publicKey = key := by
  have ratchet := publicKey_baseRung matching sharedSecret
  cases side with
  | alice =>
    simp only [Inbox.Known, Parties.inbox, Inbox.streams, map_cons, map_nil,
      mem_singleton, not_mem_nil, or_false, exists_eq_left, ratchet]
    exact ⟨fun same => ⟨rfl, same.symm⟩, fun same => same.2.symm⟩
  | bob =>
    simp only [Inbox.Known, Parties.inbox, Inbox.streams, map_nil, not_mem_nil,
      or_false, mem_singleton, exists_eq_left, false_iff]
    rintro ⟨owner, _⟩
    cases owner

theorem inbox_taken {side : Side} {key : P.PublicKey} {window : Window}
    (found : (parties.inbox side).find key = some window) : window.taken = [] := by
  have member := Inbox.mem_of_find found
  cases side with
  | alice => exact congrArg (fun entry => entry.2.taken) (mem_singleton.mp member)
  | bob => cases member

theorem represents_initial (ideal : P.Ideal) (link : P.PqLink) {store : Side → Store}
    (established : Established parties store) :
    ∃ ghost, Represents parties link (parties.initial store) ghost := by
  rcases established.alice with
    ⟨aliceMade, items, kyberItems, aliceId, peerOfAlice, makesAlice, base, aliceLoaded⟩
  rcases established.bob with ⟨bobMade, bobId, peerOfBob, makesBob, bobLoaded⟩
  rcases alice_endpoint ideal established.matching makesAlice with
    ⟨sharedSecret, ciphertext, encapsulates, alicePq, aliceEndpoint⟩
  rcases bob_endpoint established.matching encapsulates makesBob with ⟨bobPq, bobEndpoint⟩
  have aliceEnd := aliceEndpoint items kyberItems aliceId peerOfAlice base
  have bobEnd := bobEndpoint bobId peerOfBob
  let ghost : Ghost P :=
    { states := fun
        | .alice => { aliceMade with
            pendingPreKey := items
            pendingKyberPreKey := kyberItems
            localRegistrationId := aliceId
            remoteRegistrationId := peerOfAlice }
        | .bob => { bobMade with localRegistrationId := bobId, remoteRegistrationId := peerOfBob }
      inbox := parties.inbox
      counts := fun _ => 0
      start := baseStart parties sharedSecret
      ahead := .alice
      top := (baseRung parties sharedSecret).next parties.ratchetKey
      second := baseRung parties sharedSecret
      older := []
      entries := [] }
  have different : (baseRung parties sharedSecret).publicKey ≠ P.publicKey parties.ratchetKey :=
    established.ratchetKey_ne.symm
  refine ⟨ghost, ⟨?_, rfl, ?_, ?_, ?_, inbox_known established.matching sharedSecret, ?_, ?_,
    ?_, ?_⟩, rfl, rfl, ?_⟩
  · apply (Ladder.base .bob _ _).climb
    intro rung member
    rw [mem_singleton.mp member]
    exact different
  · intro side
    cases side with
    | alice => exact aliceEnd
    | bob => exact bobEnd
  · intro side
    exact (by decide : 0 < UInt32.size)
  · intro rung member
    rcases mem_cons.mp member with rfl | last
    · exact if_neg different.symm
    · rw [mem_singleton.mp last]
      exact if_pos rfl
  · intro rung member
    rcases mem_cons.mp member with rfl | last
    · exact mem_cons_self
    · rw [mem_singleton.mp last]
      exact mem_cons_of_mem _ mem_cons_self
  · refine ⟨?_, nodup_nil, ?_, ?_, ?_⟩
    · intro entry member
      cases member
    · intro entry member
      cases member
    · intro entry member
      cases member
    · intro side key window found number taken
      rw [inbox_taken found] at taken
      cases taken
  · intro entry member
    cases member
  · exact Ghost.linked_of_side .alice (link.initial alicePq bobPq)
  · intro side
    cases side with
    | alice => exact aliceLoaded
    | bob => exact bobLoaded

end Setup

end Delivery

end LegacySignal
