import LegacySignal.Protocol.Delivery
import LegacySignal.Protocol.InMemStore

/-!
# First contact

One side processes the bundle of the other and sends messages before it gets
an answer. Whichever of them arrives first sets up the session on the other
side, and is decrypted.

Until the answer comes, the session of the side that processed the bundle only
sends. So its state is the first one with a chain key and a post-quantum
ratchet that are some messages further, whatever else happens in the store.
-/

namespace LegacySignal

open ChainKey ProtocolStore ReceiveWindow Transition SessionState

variable {P : Primitives}

namespace FirstContact

/-- The first states of the two sides of a session. Bob's ratchet key is his signed prekey. -/
structure Mirrors (signedPreKey : P.PublicKey) (alice bob : SessionState P) : Prop where
  version : alice.version = bob.version
  baseKey : alice.aliceBaseKey = bob.aliceBaseKey
  aliceIdentity : bob.remoteIdentityKey = some alice.localIdentityKey
  bobIdentity : alice.remoteIdentityKey = some bob.localIdentityKey
  chains : ∃ aliceChain bobChain,
    alice.senderChain = some aliceChain ∧ bob.senderChain = some bobChain ∧
    bobChain.ratchetKey.publicKey = signedPreKey ∧
    createChain bob.rootKey aliceChain.ratchetKey.publicKey bobChain.ratchetKey.privateKey =
      (alice.rootKey, aliceChain.chainKey) ∧
    alice.receiverChains = [⟨signedPreKey, bobChain.chainKey, []⟩] ∧
    bob.receiverChains = []
  pqRatchet : ∃ key withSelf,
    P.pqInitialState key .a2b withSelf = some alice.pqRatchetState ∧
    P.pqInitialState key .b2a withSelf = some bob.pqRatchetState

section Sending

def afterSending (made : SessionState P) (count : ℕ) (pqState : P.PqState) : SessionState P :=
  { made with
    senderChain := made.senderChain.map fun chain =>
      { chain with chainKey := keyAt chain.chainKey.key count }
    pqRatchetState := pqState }

def Unanswered (link : P.PqLink) (made state : SessionState P) : Prop :=
  ∃ count pqState outgoing, count < UInt32.size ∧ state = afterSending made count pqState ∧
    ∀ other, link.Linked made.pqRatchetState other [] [] → link.Linked pqState other outgoing []

variable {link : P.PqLink} {made state sent : SessionState P}

theorem unanswered_made {chain : SenderChain P} (sender : made.senderChain = some chain)
    (first : chain.chainKey.index = 0) : Unanswered link made made := by
  refine ⟨0, made.pqRatchetState, [], by decide, ?_, fun _ linked => linked⟩
  rcases chain with ⟨ratchetKey, key, index⟩
  cases first
  rcases made with ⟨_, _, _, _, _, _, _, _, _, _, _, _, _⟩
  cases sender
  rfl

theorem Unanswered.encryptMessage (unanswered : Unanswered link made state)
    (notLast : ∀ chain, state.senderChain = some chain → chain.chainKey.index ≠ 0xFFFFFFFF)
    {address : SignalProtocolAddress} {ptext : P.Bytes} {now : ℕ} {random : P.Random}
    {message : CiphertextMessage P} {identity : P.PublicKey}
    (encrypts : state.encryptMessage address ptext now random = .ok (message, sent, identity)) :
    Unanswered link made sent := by
  rcases unanswered with ⟨count, pqState, outgoing, small, rfl, linked⟩
  rcases encryptMessage_eq_ok encrypts with
    ⟨chain, next, pqrMsg, pqrKey, keys, sender, sends, _, _, _, rfl⟩
  rcases Option.map_eq_some_iff.mp sender with ⟨first, firstEq, rfl⟩
  have index := notLast _ sender
  change UInt32.ofNat count ≠ 0xFFFFFFFF at index
  have notEnd : count + 1 ≠ UInt32.size := by
    intro atEnd
    apply index
    change count + 1 = 4294967296 at atEnd
    obtain rfl : count = 4294967295 := by omega
    rfl
  refine ⟨count + 1, next, outgoing ++ [(pqrMsg, pqrKey)], by omega, ?_, ?_⟩
  · simp only [afterSending, firstEq, Option.map_some, nextChainKey_keyAt]
  · intro other linkedFirst
    exact link.send (linked other linkedFirst) sends

end Sending

section Record

/-- Every session of the record that still announces the base key has only sent. -/
def Waiting (link : P.PqLink) (made : SessionState P) (baseKey : P.PublicKey)
    (record : SessionRecord P) : Prop :=
  ∀ state ∈ record.states, ∀ items, state.pendingPreKey = some items →
    items.baseKey = baseKey → Unanswered link made state

variable {link : P.PqLink} {made : SessionState P} {baseKey : P.PublicKey}
  {record : SessionRecord P} {state : SessionState P} {ourNewEphemeral : P.PrivateKey}
  {Store : Type} {store : Store} {address : SignalProtocolAddress}

/-- The session does not announce the base key, or has only sent. -/
def Waiting.Fits (link : P.PqLink) (made : SessionState P) (baseKey : P.PublicKey)
    (state : SessionState P) : Prop :=
  ∀ items, state.pendingPreKey = some items → items.baseKey = baseKey →
    Unanswered link made state

section

variable (waiting : Waiting link made baseKey record) (fits : Waiting.Fits link made baseKey state)

include waiting fits

theorem Waiting.current :
    Waiting link made baseKey { record with currentSession := some state } := by
  intro other member
  rcases List.mem_cons.mp member with rfl | archived
  · exact fits
  · exact waiting other (List.mem_append_right _ archived)

theorem Waiting.promoteState : Waiting link made baseKey (record.promoteState state) := by
  intro other member
  rcases List.mem_cons.mp member with rfl | archived
  · exact fits
  · rcases record with ⟨_ | current, previous⟩
    · exact waiting other archived
    · rcases List.mem_cons.mp archived with rfl | kept
      · intro items pending
        cases pending
      · apply waiting other
        apply List.mem_append_right
        dsimp only at kept
        split at kept
        · exact List.mem_of_mem_dropLast kept
        · exact kept

theorem Waiting.promoteOldSession {position : ℕ} :
    Waiting link made baseKey (record.promoteOldSession position state) := by
  apply Waiting.promoteState _ fits
  intro other member
  apply waiting other
  rcases List.mem_append.mp member with current | archived
  · exact List.mem_append_left _ current
  · exact List.mem_append_right _ (List.mem_of_mem_eraseIdx archived)

end

theorem fits_of_acknowledged (none : state.pendingPreKey = none) :
    Waiting.Fits link made baseKey state := by
  intro items pending
  cases none.symm.trans pending

theorem Waiting.decryptMessage (waiting : Waiting link made baseKey record)
    {decrypted : SessionRecord P} {ciphertext : SignalMessage P}
    {messageType : CiphertextMessageType} {ptext : P.Bytes}
    (decrypts : record.decryptMessage ciphertext messageType ourNewEphemeral =
      .ok (ptext, decrypted)) : Waiting link made baseKey decrypted := by
  rcases SessionRecord.decryptMessage_eq_ok decrypts with ⟨state, updated, _, attempted, place⟩
  rcases decrypts_of_eq_ok attempted with ⟨steps⟩
  have acknowledged : updated.pendingPreKey = none :=
    congrArg pendingPreKey steps.updated_eq
  rcases place with ⟨_, rfl⟩ | ⟨position, _, rfl, _⟩
  · exact waiting.current (fits_of_acknowledged acknowledged)
  · exact waiting.promoteOldSession (fits_of_acknowledged acknowledged)

variable [ProtocolStore P Store]

theorem Waiting.decryptPreKeyUpdate (waiting : Waiting link made baseKey record)
    {message : PreKeySignalMessage P} {update : SessionUpdate P P.Bytes}
    (updates : decryptPreKeyUpdate store address message ourNewEphemeral record = .ok update) :
    Waiting link made baseKey update.record := by
  rcases decryptPreKeyUpdate_eq_ok.mp updates with
    ⟨_, used, processed, ptext, decrypted, processes, decrypts, rfl⟩
  apply Waiting.decryptMessage _ decrypts
  rcases processPreKey_eq_ok processes with
    ⟨_, found, isMatching, ⟨_, rfl⟩ | ⟨position, archived, rfl⟩⟩ | ⟨_, _, session, makes, rfl⟩
  · exact waiting
  · apply waiting.promoteOldSession
    exact waiting found (List.mem_append_right _ (List.mem_of_getElem? archived))
  · apply waiting.promoteState
    rcases sessionFromPreKey_eq_ok.mp makes with ⟨_, _, _, _, _, madeEq, _, rfl⟩
    rcases initializeBobSession_eq_ok.mp madeEq with ⟨_, _, _, _, _, rfl⟩
    exact fits_of_acknowledged rfl

end Record

section Calls

variable {Store : Type} [ProtocolStore P Store] [LawfulProtocolStore P Store] {link : P.PqLink}
  {made : SessionState P} {baseKey : P.PublicKey} {address : SignalProtocolAddress} {store : Store}

/-- The calls on a store, each with its address. A failed call is a step too. -/
def step (store : Store) (event : SignalProtocolAddress × SessionCall P) : Option Store :=
  some (event.2.perform store event.1).2

def Fresh (baseKey : P.PublicKey) (_ : Store) (event : SignalProtocolAddress × SessionCall P) :
    Prop :=
  match event.2 with
  | .processBundle _ _ random => P.publicKey random.baseKey ≠ baseKey
  | _ => True

def BelowLast (address : SignalProtocolAddress) (baseKey : P.PublicKey) (store : Store)
    (event : SignalProtocolAddress × SessionCall P) : Prop :=
  match event.2 with
  | .encrypt _ _ _ =>
    event.1 = address → ∀ record state items chain, loadOrFresh store address = .ok record →
      record.currentSession = some state → state.pendingPreKey = some items →
      items.baseKey = baseKey → state.senderChain = some chain →
      chain.chainKey.index ≠ 0xFFFFFFFF
  | _ => True

def Allowed (address : SignalProtocolAddress) (baseKey : P.PublicKey) (store : Store)
    (event : SignalProtocolAddress × SessionCall P) : Prop :=
  Fresh baseKey store event ∧ BelowLast address baseKey store event

/-- What is true of the record of the address, if it can be loaded. -/
def Waits (link : P.PqLink) (made : SessionState P) (address : SignalProtocolAddress)
    (baseKey : P.PublicKey) (store : Store) : Prop :=
  ∀ record, loadOrFresh store address = .ok record → Waiting link made baseKey record

theorem waits_commitResult {Output : Type} {load : Except SignalProtocolError (SessionRecord P)}
    {operation : SessionRecord P → Except SignalProtocolError (SessionUpdate P Output)}
    (waits : Waits link made address baseKey store)
    (updates : ∀ record update, load = .ok record → operation record = .ok update →
      Waiting link made baseKey update.record) :
    Waits link made address baseKey (commitResult store address (load >>= operation)).2 := by
  intro record loads
  rcases commitResult_cases store address (load >>= operation) with
    ⟨update, computes, _, stored⟩ | ⟨_, unchanged⟩
  · cases stored.symm.trans loads
    rcases Result.bind_eq_ok.mp computes with ⟨loaded, loadEq, operates⟩
    exact updates loaded update loadEq operates
  · exact waits record (unchanged.symm.trans loads)

theorem waits_step (event : SignalProtocolAddress × SessionCall P) {next : Store}
    (waits : Waits link made address baseKey store)
    (allowed : Allowed address baseKey store event)
    (stepped : step store event = some next) : Waits link made address baseKey next := by
  rcases event with ⟨other, call⟩
  cases stepped
  by_cases same : other = address
  · subst same
    rcases allowed with ⟨fresh, belowLast⟩
    cases call with
    | encrypt ptext now random =>
      change Waits link made other baseKey (messageEncrypt store other ptext now random).2
      apply waits_commitResult waits
      intro record update loads updates
      have loaded := loadOrFresh_of_loadExisting loads
      rcases encryptUpdate_eq_ok.mp updates with
        ⟨state, message, sent, identity, isCurrent, encrypts, _, rfl⟩
      apply (waits record loaded).current
      intro items pending sameKey
      have before : state.pendingPreKey = some items := by
        rcases encryptMessage_frame encrypts with ⟨_, _, rfl⟩
        exact pending
      have present : state ∈ record.states := by
        simp [SessionRecord.states, isCurrent]
      refine (waits record loaded state present items before sameKey).encryptMessage ?_ encrypts
      intro chain sender
      exact belowLast rfl record state items chain loaded isCurrent before sameKey sender
    | decryptSignal ciphertext ourNewEphemeral =>
      change Waits link made other baseKey
        (messageDecryptSignal store other ciphertext ourNewEphemeral).2
      apply waits_commitResult waits
      intro record update loads updates
      have waiting := waits record (loadOrFresh_of_loadExisting loads)
      rcases decryptSignalUpdate_eq_ok.mp updates with
        ⟨ptext, decrypted, identity, decrypts, _, _, rfl⟩
      exact waiting.decryptMessage decrypts
    | decryptPreKey ciphertext ourNewEphemeral =>
      change Waits link made other baseKey
        (messageDecryptPreKey store other ciphertext ourNewEphemeral).2
      apply waits_commitResult waits
      intro record update loads updates
      exact (waits record loads).decryptPreKeyUpdate updates
    | processBundle bundle now random =>
      change Waits link made other baseKey
        (processPreKeyBundle store other bundle now random).2
      apply waits_commitResult waits
      intro record update loads updates
      rcases preKeyBundleUpdate_eq_ok.mp updates with
        ⟨_, _, _, _, session, _, _, _, _, rfl⟩
      apply (waits record loads).promoteState
      intro items pending sameKey
      cases pending
      exact absurd sameKey fresh
  · intro record loads
    exact waits record ((loadOrFresh_perform_of_ne store (Ne.symm same) call).symm.trans loads)

end Calls

section Responder

variable {Store : Type} [ProtocolStore P Store]

/-- The store holds the private keys of the bundle, and Kyber works with them. -/
structure Holds (store : Store) (bundle : PreKeyBundle P) : Prop where
  identity : ∃ pair, getIdentityKeyPair store = .ok pair ∧ bundle.identityKey = pair.publicKey
  registrationId : ∃ id, getLocalRegistrationId store = .ok id
  signedPreKey : ∃ pair, getSignedPreKey store bundle.signedPreKeyId = .ok pair ∧
    bundle.signedPreKeyPublic = pair.publicKey
  preKey : ∃ pair, bundle.preKeyId.mapM (getPreKey store) = .ok pair ∧
    bundle.preKeyPublic = pair.map Primitives.KeyPair.publicKey
  kyberPreKey : ∃ key, getKyberPreKey store bundle.kyberPreKeyId = .ok key ∧
    ∀ random, ∃ secret ciphertext,
      P.encapsulate bundle.kyberPreKeyPublic random = some (secret, ciphertext) ∧
      P.decapsulate key ciphertext = some secret

/-- The store can take the prekey message as the first one of its session. -/
structure CanAnswer (store : Store) (address : SignalProtocolAddress) (bundle : PreKeyBundle P)
    (message : PreKeySignalMessage P) : Prop where
  holds : Holds store bundle
  trusted : isTrustedIdentity store address message.identityKey .receiving = true
  first : ∃ record, loadOrFresh store address = .ok record ∧
    record.matchingSession message.messageVersion message.baseKey = none
  unmarked : ∃ marked, markKyberPreKeyUsed (saveIdentity store address message.identityKey)
    bundle.kyberPreKeyId bundle.signedPreKeyId message.baseKey = .ok marked

/-- What a prekey message says of the bundle that its session was made from. -/
structure Announces (bundle : PreKeyBundle P) (identity baseKey : P.PublicKey)
    (ciphertext : P.KemCiphertext) (message : PreKeySignalMessage P) : Prop where
  version : message.messageVersion = CIPHERTEXT_MESSAGE_CURRENT_VERSION
  preKeyId : message.preKeyId = bundle.preKeyId
  signedPreKeyId : message.signedPreKeyId = bundle.signedPreKeyId
  kyberPayload : message.kyberPayload = some ⟨bundle.kyberPreKeyId, ciphertext⟩
  baseKey : message.baseKey = baseKey
  identityKey : message.identityKey = identity

variable {store : Store} {bundle : PreKeyBundle P} {message : PreKeySignalMessage P}
  {identity : P.KeyPair} {random : BundleRandomness P} {sharedSecret : P.Secret}
  {ciphertext : P.KemCiphertext}

theorem exists_parties (holds : Holds store bundle) (address : Side → SignalProtocolAddress)
    (encapsulates : P.encapsulate bundle.kyberPreKeyPublic random.kyber =
      some (sharedSecret, ciphertext))
    (announces : Announces bundle identity.publicKey (P.publicKey random.baseKey) ciphertext
      message) :
    ∃ parties : Delivery.Parties P, parties.Matching ∧
      parties.alice = bundle.parameters identity ⟨random.baseKey⟩ ∧
      parties.kyber = random.kyber ∧ parties.ratchetKey = random.ratchetKey ∧
      bobParameters store message = .ok parties.bob := by
  rcases holds with ⟨⟨own, ownEq, ownPublic⟩, _, ⟨signed, signedEq, signedPublic⟩,
    ⟨oneTime, oneTimeEq, oneTimePublic⟩, ⟨kyber, kyberEq, works⟩⟩
  let bob : BobSignalProtocolParameters P :=
    { ourIdentityKeyPair := own
      ourSignedPreKeyPair := signed
      ourOneTimePreKeyPair := oneTime
      ourRatchetKeyPair := signed
      ourKyberPreKeyPair := kyber
      theirIdentityKey := message.identityKey
      theirBaseKey := message.baseKey
      theirKyberCiphertext := ciphertext }
  let parties : Delivery.Parties P :=
    { address := address
      alice := bundle.parameters identity ⟨random.baseKey⟩
      bob := bob
      kyber := random.kyber
      ratchetKey := random.ratchetKey }
  have finds : bobParameters store message = .ok bob := by
    apply bobParameters_eq_ok.mpr
    refine ⟨signed, ⟨bundle.kyberPreKeyId, ciphertext⟩, kyber, oneTime, own, ?_,
      announces.kyberPayload, kyberEq, ?_, ownEq, rfl⟩
    · rw [announces.signedPreKeyId]
      exact signedEq
    · rw [announces.preKeyId]
      exact oneTimeEq
  refine ⟨parties, ⟨ownPublic, announces.identityKey, signedPublic, oneTimePublic, signedPublic,
    announces.baseKey, ?_⟩, rfl, rfl, rfl, finds⟩
  intro secret other encapsulated
  cases encapsulates.symm.trans encapsulated
  rcases works random.kyber with ⟨_, _, again, decapsulates⟩
  cases encapsulates.symm.trans again
  exact ⟨rfl, decapsulates⟩

end Responder

section Sessions

open Delivery

variable {parties : Parties P} {session bobSession : SessionState P}
  {items : Option (PendingPreKey P)} {kyberItems : Option (PendingKyberPreKey P)}
  {localId remoteId bobLocalId bobRemoteId : UInt32}

theorem mirrors_of_matching (ideal : P.Ideal) (matching : parties.Matching)
    (aliceMakes : initializeAliceSession parties.alice parties.kyber parties.ratchetKey =
      .ok session)
    (bobMakes : initializeBobSession parties.bob = .ok bobSession)
    (announced : ∀ pending, items = some pending →
      pending.baseKey = parties.alice.ourBaseKeyPair.publicKey) :
    Mirrors parties.alice.theirRatchetKey
      { session with
        pendingPreKey := items
        pendingKyberPreKey := kyberItems
        localRegistrationId := localId
        remoteRegistrationId := remoteId }
      { bobSession with
        localRegistrationId := bobLocalId
        remoteRegistrationId := bobRemoteId } := by
  rcases alice_endpoint ideal matching aliceMakes with
    ⟨sharedSecret, ciphertext, encapsulates, alicePq, aliceEndpoint⟩
  rcases bob_endpoint matching encapsulates bobMakes with ⟨bobPq, bobEndpoint⟩
  have alice := aliceEndpoint items kyberItems localId remoteId announced
  have bob := bobEndpoint bobLocalId bobRemoteId
  refine ⟨alice.version.trans bob.version.symm, alice.baseKey.trans bob.baseKey.symm, ?_, ?_,
    ⟨_, _, alice.sender, bob.sender, matching.ratchetKey.symm, ?_, ?_, bob.chains⟩,
    ⟨_, _, alicePq, bobPq⟩⟩
  · rw [alice.localIdentity]
    exact bob.remoteIdentity
  · rw [bob.localIdentity]
    exact alice.remoteIdentity
  · rw [bob.root, alice.root]
    exact (baseRung parties sharedSecret).createChain_next ideal parties.ratchetKey
  · rw [alice.chains]
    simp only [Parties.inbox, List.map_cons, List.map_nil, chainOf, baseStart,
      publicKey_baseRung matching sharedSecret, if_true]
    rfl

theorem endpoint_afterSending {setting : Setting P} {start : P.PublicKey → P.Secret} {side : Side}
    {rung : Rung P} {inbox : Inbox P.PublicKey} {made : SessionState P}
    (endpoint : Endpoint setting start side rung 0 inbox made) (count : ℕ) (pqState : P.PqState) :
    Endpoint setting start side rung count inbox (afterSending made count pqState) := by
  refine { endpoint with sender := ?_ }
  simp only [afterSending, endpoint.sender, Option.map_some]
  rfl

theorem decryptMessage_unanswered (ideal : P.Ideal) {link : P.PqLink} (matching : parties.Matching)
    (aliceMakes : initializeAliceSession parties.alice parties.kyber parties.ratchetKey =
      .ok session)
    (bobMakes : initializeBobSession parties.bob = .ok bobSession)
    (announced : ∀ pending, items = some pending →
      pending.baseKey = parties.alice.ourBaseKeyPair.publicKey)
    {state sent : SessionState P}
    (unanswered : Unanswered link
      { session with
        pendingPreKey := items
        pendingKyberPreKey := kyberItems
        localRegistrationId := localId
        remoteRegistrationId := remoteId } state)
    {address : SignalProtocolAddress} {ptext : P.Bytes} {now : ℕ} {random : P.Random}
    {message : CiphertextMessage P} {identity : P.PublicKey}
    (encrypts : state.encryptMessage address ptext now random = .ok (message, sent, identity))
    (near : message.inner.content.counter.toNat ≤ consts.MAX_FORWARD_JUMPS)
    (ourNewEphemeral : P.PrivateKey) :
    ∃ updated, decryptMessage
      { bobSession with
        localRegistrationId := bobLocalId
        remoteRegistrationId := bobRemoteId } message.inner .preKey ourNewEphemeral =
        .ok (ptext, updated) := by
  rcases alice_endpoint ideal matching aliceMakes with
    ⟨sharedSecret, ciphertext, encapsulates, alicePq, aliceEndpoint⟩
  rcases bob_endpoint matching encapsulates bobMakes with ⟨bobPq, bobEndpoint⟩
  rcases unanswered with ⟨count, pqState, outgoing, small, rfl, linked⟩
  have alice := endpoint_afterSending
    (aliceEndpoint items kyberItems localId remoteId announced) count pqState
  rcases alice.encryptMessage encrypts with
    ⟨letter, ratchetKey, number, rfl, _, inner, sends, _⟩
  let rung := (baseRung parties sharedSecret).next parties.ratchetKey
  -- Bob follows no chain yet, so every chain may be taken to start where Alice's does.
  let start : P.PublicKey → P.Secret := fun _ => rung.chain
  have anyStart : ∀ entry ∈ (parties.inbox .bob).windows,
      baseStart parties sharedSecret entry.1 = start entry.1 := by
    intro entry member
    cases member
  have bob := (bobEndpoint bobLocalId bobRemoteId).congr_start anyStart
  have unknown : ¬(parties.inbox .bob).Known letter.ratchetKey := by
    rintro (followed | dropped)
    · cases followed
    · cases dropped
  have counted : message.inner.content.counter.toNat = letter.number := by
    rw [inner]
    apply UInt32.toNat_ofNat_of_lt'
    rwa [number]
  rw [counted] at near
  have numberSmall : letter.number + 1 < UInt32.size := by
    simp only [consts.MAX_FORWARD_JUMPS] at near
    change letter.number + 1 < 4294967296
    omega
  have bound : ∀ jump ∈ parties.setting.limits.maxJump, letter.number ≤ 0 + jump := by
    intro jump member
    simp only [Setting.limits, receivingLimits] at member
    split at member
    · cases member
    · cases member
      omega
  have isSome := (Window.sound_new parties.setting.limits.capacity).receive_isSome
    List.not_mem_nil List.not_mem_nil bound
  rcases Option.isSome_iff_exists.mp isSome with ⟨received, taken⟩
  have sentLinked := link.send (linked _ (link.initial alicePq bobPq)) sends
  rcases link.receive sentLinked with ⟨next, recv, _⟩
  rcases bob.decryptMessage_new ideal ratchetKey rfl unknown numberSmall taken recv with
    ⟨updated, decrypts, _⟩
  rw [inner]
  exact ⟨updated, decrypts⟩

end Sessions

section Contact

variable {Store Peer : Type} [ProtocolStore P Store] [ProtocolStore P Peer]

/-- The store can process the bundle, and the drawn base key is a new one. -/
structure CanContact (store : Store) (address : SignalProtocolAddress) (bundle : PreKeyBundle P)
    (baseKey : P.PublicKey) : Prop where
  signed : P.verifySignature bundle.identityKey bundle.signedPreKeyPublic
    bundle.signedPreKeySignature = true
  kyberSigned : P.verifyKemSignature bundle.identityKey bundle.kyberPreKeyPublic
    bundle.kyberPreKeySignature = true
  trusted : isTrustedIdentity store address bundle.identityKey .sending = true
  identity : ∃ pair, getIdentityKeyPair store = .ok pair
  registrationId : ∃ id, getLocalRegistrationId store = .ok id
  unused : ∃ record, loadOrFresh store address = .ok record ∧
    ∀ state ∈ record.states, ∀ items, state.pendingPreKey = some items → items.baseKey ≠ baseKey

/-- A session from a bundle, as its messages announce it. -/
structure MadeFrom (bundle : PreKeyBundle P) (random : BundleRandomness P) (identity : P.KeyPair)
    (sharedSecret : P.Secret) (ciphertext : P.KemCiphertext) (made : SessionState P) : Prop where
  encapsulates : P.encapsulate bundle.kyberPreKeyPublic random.kyber =
    some (sharedSecret, ciphertext)
  makes : ∃ session now localId,
    initializeAliceSession (bundle.parameters identity ⟨random.baseKey⟩) random.kyber
      random.ratchetKey = .ok session ∧
    made = session.setUnacknowledged bundle (P.publicKey random.baseKey) now localId ∧
    session.pendingKyberPreKey = some ⟨0xFFFFFFFF, ciphertext⟩

theorem processPreKeyBundle_ok {origin : Peer} {bundle : PreKeyBundle P}
    (held : Holds origin bundle)
    (pqStarts : ∀ key direction withSelf, ∃ state,
      P.pqInitialState key direction withSelf = some state)
    {store : Store} [LawfulProtocolStore P Store] {address : SignalProtocolAddress}
    {random : BundleRandomness P} (link : P.PqLink)
    (contact : CanContact store address bundle (P.publicKey random.baseKey)) (now : ℕ) :
    ∃ opened record made identity sharedSecret ciphertext,
      processPreKeyBundle store address bundle now random = (.ok (), opened) ∧
      loadOrFresh opened address = .ok record ∧ record.currentSession = some made ∧
      MadeFrom bundle random identity sharedSecret ciphertext made ∧
      Waits link made address (P.publicKey random.baseKey) opened := by
  rcases contact with ⟨signed, kyberSigned, trusted, ⟨identity, identityEq⟩, ⟨localId, localEq⟩,
    record, loads, unused⟩
  rcases held.kyberPreKey with ⟨kyber, _, works⟩
  rcases works random.kyber with ⟨sharedSecret, ciphertext, encapsulates, _⟩
  let parameters := bundle.parameters identity ⟨random.baseKey⟩
  rcases pqStarts (deriveKeys (parameters.secrets sharedSecret)).2.2 .a2b
    (parameters.ourIdentityKeyPair.publicKey = parameters.theirIdentityKey) with ⟨pqState, pqEq⟩
  let session := parameters.session random.ratchetKey sharedSecret ciphertext pqState
  have makes : initializeAliceSession parameters random.kyber random.ratchetKey = .ok session :=
    initializeAliceSession_eq_ok.mpr ⟨sharedSecret, ciphertext, pqState, encapsulates, pqEq, rfl⟩
  let made := session.setUnacknowledged bundle (P.publicKey random.baseKey) now localId
  have updates : preKeyBundleUpdate store address bundle now random record =
      .ok ⟨(), record.promoteState made, bundle.identityKey, none⟩ :=
    preKeyBundleUpdate_eq_ok.mpr ⟨trusted, signed, kyberSigned, identity, session, localId,
      identityEq, makes, localEq, rfl⟩
  have processes : processPreKeyBundle store address bundle now random =
      (.ok (), storeSession (saveIdentity store address bundle.identityKey) address
        (record.promoteState made)) := by
    simp only [processPreKeyBundle, loads, Except.bind, updates]
    rfl
  have stored := loadOrFresh_storeSession (saveIdentity store address bundle.identityKey) address
    (record.promoteState made)
  refine ⟨_, record.promoteState made, made, identity, sharedSecret, ciphertext, processes,
    stored, rfl, ⟨encapsulates, session, now, localId, makes, rfl, rfl⟩, ?_⟩
  intro other otherLoads
  cases stored.symm.trans otherLoads
  have waiting : Waiting link made (P.publicKey random.baseKey) record := by
    intro state member items pending same
    exact absurd same (unused state member items pending)
  apply waiting.promoteState
  intro items _ _
  exact unanswered_made rfl rfl

variable {bundle : PreKeyBundle P} {random : BundleRandomness P} {identity : P.KeyPair}
  {sharedSecret : P.Secret} {ciphertext : P.KemCiphertext} {made state sent : SessionState P}
  {link : P.PqLink} {address : SignalProtocolAddress} {ptext : P.Bytes} {now : ℕ}
  {randomness : P.Random} {message : PreKeySignalMessage P} {theirIdentityKey : P.PublicKey}
  {peer : Peer}

theorem MadeFrom.announces
    (madeFrom : MadeFrom bundle random identity sharedSecret ciphertext made)
    (unanswered : Unanswered link made state)
    (encrypts : state.encryptMessage address ptext now randomness =
      .ok (.preKeySignalMessage message, sent, theirIdentityKey)) :
    Announces bundle identity.publicKey (P.publicKey random.baseKey) ciphertext message := by
  rcases madeFrom.makes with ⟨session, time, localId, makes, rfl, kyber⟩
  rcases initializeAliceSession_eq_ok.mp makes with ⟨_, _, _, _, _, rfl⟩
  rcases unanswered with ⟨count, pqState, outgoing, _, rfl, _⟩
  rcases encryptMessage_eq_ok encrypts with
    ⟨_, _, _, _, _, _, _, _, _, wraps, _⟩
  unfold wrapMessage at wraps
  split at wraps
  · cases wraps
  · rename_i items pending
    cases pending
    split at wraps
    · cases wraps
    · cases wraps
      cases kyber
      exact ⟨rfl, rfl, rfl, rfl, rfl, rfl⟩

theorem pending_of_encryptMessage
    (encrypts : state.encryptMessage address ptext now randomness =
      .ok (.preKeySignalMessage message, sent, theirIdentityKey)) :
    ∃ items, state.pendingPreKey = some items ∧ items.baseKey = message.baseKey := by
  rcases encryptMessage_eq_ok encrypts with
    ⟨_, _, _, _, _, _, _, _, _, wraps, _⟩
  unfold wrapMessage at wraps
  split at wraps
  · cases wraps
  · rename_i items pending
    split at wraps
    · cases wraps
    · cases wraps
      exact ⟨items, pending, rfl⟩

theorem MadeFrom.exists_session (pqStarts : ∀ key direction withSelf, ∃ state,
      P.pqInitialState key direction withSelf = some state)
    (canonical : P.isCanonical (P.publicKey random.baseKey) = true)
    (madeFrom : MadeFrom bundle random identity sharedSecret ciphertext made)
    (announces : Announces bundle identity.publicKey (P.publicKey random.baseKey) ciphertext
      message) (holds : Holds peer bundle) :
    ∃ parties : Delivery.Parties P, ∃ bobMade localId, parties.Matching ∧
      parties.alice = bundle.parameters identity ⟨random.baseKey⟩ ∧
      parties.kyber = random.kyber ∧ parties.ratchetKey = random.ratchetKey ∧
      initializeBobSession parties.bob = .ok bobMade ∧
      sessionFromPreKey peer message = .ok { bobMade with
        localRegistrationId := localId
        remoteRegistrationId := message.registrationId } := by
  rcases exists_parties holds (fun _ => ⟨"", 0⟩) madeFrom.encapsulates announces with
    ⟨parties, matching, isAlice, isKyber, isRatchetKey, finds⟩
  have encapsulates := madeFrom.encapsulates
  have theirs : parties.alice.theirKyberPreKey = bundle.kyberPreKeyPublic := by
    rw [isAlice]
    rfl
  rw [← theirs, ← isKyber] at encapsulates
  rcases matching.kyber _ _ encapsulates with ⟨sameCiphertext, decapsulates⟩
  rw [← sameCiphertext] at decapsulates
  rcases pqStarts (deriveKeys (parties.bob.secrets sharedSecret)).2.2 .b2a
    (parties.bob.ourIdentityKeyPair.publicKey = parties.bob.theirIdentityKey) with
    ⟨pqState, pqEq⟩
  have baseKey : parties.bob.theirBaseKey = P.publicKey random.baseKey := by
    rw [matching.baseKey, isAlice]
    rfl
  have bobMakes : initializeBobSession parties.bob =
      .ok (parties.bob.session sharedSecret pqState) :=
    initializeBobSession_eq_ok.mpr ⟨by rwa [baseKey], _, _, decapsulates, pqEq, rfl⟩
  rcases holds.registrationId with ⟨localId, registered⟩
  have version : message.messageVersion ≠ CIPHERTEXT_MESSAGE_PRE_KYBER_VERSION := by
    rw [announces.version]
    decide
  exact ⟨parties, _, localId, matching, isAlice, isKyber, isRatchetKey, bobMakes,
    sessionFromPreKey_eq_ok.mpr ⟨version, _, _, _, finds, bobMakes, registered, rfl⟩⟩

theorem MadeFrom.answered (ideal : P.Ideal) (pqStarts : ∀ key direction withSelf, ∃ state,
      P.pqInitialState key direction withSelf = some state)
    (canonical : P.isCanonical (P.publicKey random.baseKey) = true)
    (madeFrom : MadeFrom bundle random identity sharedSecret ciphertext made)
    (unanswered : Unanswered link made state)
    (encrypts : state.encryptMessage address ptext now randomness =
      .ok (.preKeySignalMessage message, sent, theirIdentityKey))
    (near : message.message.content.counter.toNat ≤ consts.MAX_FORWARD_JUMPS)
    {peerAddress : SignalProtocolAddress} (answer : CanAnswer peer peerAddress bundle message)
    (ourNewEphemeral : P.PrivateKey) :
    ∃ session stored, sessionFromPreKey peer message = .ok session ∧
      Mirrors bundle.signedPreKeyPublic made session ∧
      messageDecryptPreKey peer peerAddress message ourNewEphemeral = (.ok ptext, stored) := by
  have announces := madeFrom.announces unanswered encrypts
  rcases madeFrom.exists_session pqStarts canonical announces answer.holds with
    ⟨parties, bobMade, localId, matching, isAlice, isKyber, isRatchetKey, bobMakes, sets⟩
  rcases madeFrom.makes with ⟨aliceMade, time, aliceId, makes, rfl, _⟩
  rw [← isAlice, ← isKyber, ← isRatchetKey] at makes
  have announced : ∀ pending, some (⟨bundle.preKeyId, bundle.signedPreKeyId,
      P.publicKey random.baseKey, time / 10 ^ 9⟩ : PendingPreKey P) = some pending →
      pending.baseKey = parties.alice.ourBaseKeyPair.publicKey := by
    intro pending found
    cases found
    rw [isAlice]
    rfl
  have signedPreKey : parties.alice.theirRatchetKey = bundle.signedPreKeyPublic := by
    rw [isAlice]
    rfl
  have mirrors : Mirrors bundle.signedPreKeyPublic
      (aliceMade.setUnacknowledged bundle (P.publicKey random.baseKey) time aliceId)
      { bobMade with
        localRegistrationId := localId
        remoteRegistrationId := message.registrationId } := by
    rw [← signedPreKey]
    exact mirrors_of_matching ideal matching makes bobMakes announced
  rcases decryptMessage_unanswered ideal matching makes bobMakes announced unanswered encrypts near
    ourNewEphemeral with ⟨updated, decrypts⟩
  rcases answer.first with ⟨record, loads, missing⟩
  have updates := decryptPreKeyUpdate_of_new answer.trusted missing sets decrypts
  rcases answer.unmarked with ⟨marked, marks⟩
  rw [← announces.signedPreKeyId] at marks
  rcases messageDecryptPreKey_of_new loads updates announces.kyberPayload marks with
    ⟨stored, decrypted⟩
  exact ⟨_, stored, sets, mirrors, decrypted⟩

/-- First contact succeeds: a bundle whose keys are held can be processed, and whichever prekey
message of the session arrives first is decrypted, by a session whose first state mirrors the
initiator's. The initiator may make any other calls in the meantime, as long as the session does
not send at the last counter. -/
theorem first_contact (ideal : P.Ideal) (link : P.PqLink)
    (pqStarts : ∀ key direction withSelf, ∃ state,
      P.pqInitialState key direction withSelf = some state)
    [LawfulProtocolStore P Store] {origin : Peer} {bundle : PreKeyBundle P}
    (held : Holds origin bundle) {store : Store} {address : SignalProtocolAddress}
    {random : BundleRandomness P}
    (canonical : P.isCanonical (P.publicKey random.baseKey) = true)
    (contact : CanContact store address bundle (P.publicKey random.baseKey)) (now : ℕ) :
    ∃ opened record made,
      processPreKeyBundle store address bundle now random = (.ok (), opened) ∧
      loadOrFresh opened address = .ok record ∧ record.currentSession = some made ∧
      ∀ events later,
        Meets step (Allowed address (P.publicKey random.baseKey)) opened events →
        run step opened events = some later →
        ∀ ptext time randomness message after,
          messageEncrypt later address ptext time randomness =
            (.ok (.preKeySignalMessage message), after) →
          message.baseKey = P.publicKey random.baseKey →
          message.message.content.counter.toNat ≤ consts.MAX_FORWARD_JUMPS →
          ∀ (peer : Peer) peerAddress ourNewEphemeral,
            CanAnswer peer peerAddress bundle message →
            ∃ session stored, sessionFromPreKey peer message = .ok session ∧
              Mirrors bundle.signedPreKeyPublic made session ∧
              messageDecryptPreKey peer peerAddress message ourNewEphemeral =
                (.ok ptext, stored) := by
  rcases processPreKeyBundle_ok held pqStarts link contact now with
    ⟨opened, record, made, identity, sharedSecret, ciphertext, processes, loads, isCurrent,
      madeFrom, waits⟩
  refine ⟨opened, record, made, processes, loads, isCurrent, ?_⟩
  intro events later meets reached ptext time randomness message after encrypted ofSession near
    peer peerAddress ourNewEphemeral answer
  have laterWaits : Waits link made address (P.publicKey random.baseKey) later :=
    run_invariant_of_meets
      (fun _ event _ before allowed stepped => waits_step event before allowed stepped) waits
      meets reached
  rcases commitResult_ok encrypted with ⟨update, computes, commits⟩
  rcases Result.bind_eq_ok.mp computes with ⟨laterRecord, laterLoads, updates⟩
  rcases encryptUpdate_eq_ok.mp updates with
    ⟨state, encryptedMessage, sent, theirIdentityKey, laterCurrent, encrypts, _, rfl⟩
  cases commits
  have present : state ∈ laterRecord.states := by
    simp [SessionRecord.states, laterCurrent]
  rcases pending_of_encryptMessage encrypts with ⟨items, pending, sameKey⟩
  have unanswered := laterWaits laterRecord (loadOrFresh_of_loadExisting laterLoads) state present
    items pending (sameKey.trans ofSession)
  exact madeFrom.answered ideal pqStarts canonical unanswered encrypts near answer ourNewEphemeral

end Contact

open Symbolic Delivery

/-- The stores of the side that uses the bundle, with the record for its owner. -/
def aliceMemory (record : Option (SessionRecord symbolic)) : InMemStore symbolic where
  keyPair := ⟨(1 : ℕ)⟩
  registrationId := 0
  knownKeys := fun _ => some (2 : ℕ)
  preKeys := fun _ => none
  signedPreKeys := fun _ => none
  kyberPreKeys := fun _ => none
  baseKeysSeen := fun _ => none
  sessions := Function.update (fun _ => none) ⟨"bob", 1⟩ record

theorem loadSession_aliceMemory (record : Option (SessionRecord symbolic)) :
    loadSession (aliceMemory record) ⟨"bob", 1⟩ = .ok record := by
  apply congrArg Except.ok
  simp [aliceMemory]

theorem storeSession_aliceMemory (record : Option (SessionRecord symbolic))
    (stored : SessionRecord symbolic) :
    storeSession (saveIdentity (aliceMemory record) ⟨"bob", 1⟩ (2 : ℕ)) ⟨"bob", 1⟩ stored =
      aliceMemory (some stored) :=
  congrArg (fun sessions => { aliceMemory none with sessions := sessions })
    (Function.update_idem _ _ _)

theorem messageEncrypt_aliceMemory (count : ℕ) (ptext : Text) :
    messageEncrypt (aliceMemory (some ⟨some (aliceAt count), []⟩)) ⟨"bob", 1⟩ ptext 0 (0 : ℕ) =
      (.ok (outerAt count ptext), aliceMemory (some ⟨some (aliceAt (count + 1)), []⟩)) := by
  have updates : encryptUpdate (aliceMemory (some ⟨some (aliceAt count), []⟩)) ⟨"bob", 1⟩ ptext 0
      (0 : ℕ) ⟨some (aliceAt count), []⟩ =
      .ok ⟨outerAt count ptext, ⟨some (aliceAt (count + 1)), []⟩, (2 : ℕ), none⟩ :=
    encryptUpdate_eq_ok.mpr ⟨_, _, _, _, rfl, encryptMessage_aliceAt _ count ptext, rfl, rfl⟩
  simp only [messageEncrypt, loadExisting_of_some (loadSession_aliceMemory _), Except.bind, updates]
  exact congrArg (Prod.mk _) (storeSession_aliceMemory _ _)

theorem processPreKeyBundle_aliceMemory :
    processPreKeyBundle (aliceMemory none) ⟨"bob", 1⟩ bobBundle 0 aliceDraw =
      (.ok (), aliceMemory (some ⟨some (aliceAt 0), []⟩)) := by
  have loads : loadOrFresh (aliceMemory none) ⟨"bob", 1⟩ = .ok SessionRecord.newFresh := by
    rw [loadOrFresh, loadSession_aliceMemory]
    rfl
  have updates : preKeyBundleUpdate (aliceMemory none) ⟨"bob", 1⟩ bobBundle 0 aliceDraw
      SessionRecord.newFresh = .ok ⟨(), ⟨some (aliceAt 0), []⟩, (2 : ℕ), none⟩ := rfl
  simp only [processPreKeyBundle, loads, Except.bind, updates]
  exact congrArg (Prod.mk _) (storeSession_aliceMemory _ _)

theorem holds_bobMemory : Holds (bobMemory []) bobBundle where
  identity := ⟨⟨(2 : ℕ)⟩, rfl, rfl⟩
  registrationId := ⟨7, rfl⟩
  signedPreKey := ⟨⟨(3 : ℕ)⟩, rfl, rfl⟩
  preKey := ⟨none, rfl, rfl⟩
  kyberPreKey := ⟨(4 : ℕ), rfl, fun _ => ⟨_, _, rfl, rfl⟩⟩

theorem canContact_aliceMemory :
    CanContact (aliceMemory none) ⟨"bob", 1⟩ bobBundle (symbolic.publicKey aliceDraw.baseKey) where
  signed := rfl
  kyberSigned := rfl
  trusted := rfl
  identity := ⟨⟨(1 : ℕ)⟩, rfl⟩
  registrationId := ⟨0, rfl⟩
  unused := by
    refine ⟨SessionRecord.newFresh, ?_, ?_⟩
    · rw [loadOrFresh, loadSession_aliceMemory]
      rfl
    · intro state member
      cases member

theorem canAnswer_bobMemory (count : ℕ) (ptext : Text) :
    CanAnswer (bobMemory []) ⟨"alice", 1⟩ bobBundle (announced count ptext) where
  holds := holds_bobMemory
  trusted := rfl
  first := ⟨SessionRecord.newFresh, rfl, rfl⟩
  unmarked := ⟨_, rfl⟩

def sendEvent (ptext : Text) : SignalProtocolAddress × SessionCall symbolic :=
  (⟨"bob", 1⟩, .encrypt ptext 0 (0 : ℕ))

theorem step_sendEvent (count : ℕ) (ptext : Text) :
    step (aliceMemory (some ⟨some (aliceAt count), []⟩)) (sendEvent ptext) =
      some (aliceMemory (some ⟨some (aliceAt (count + 1)), []⟩)) := by
  exact congrArg (fun result : Except SignalProtocolError _ × InMemStore symbolic => some result.2)
    (messageEncrypt_aliceMemory count ptext)

/-- The first message is lost, and the second one is decrypted. -/
theorem first_contact_second :
    ∃ stored, messageDecryptPreKey (bobMemory []) ⟨"alice", 1⟩ (announced 1 (.plain 6)) (12 : ℕ) =
      (.ok (Text.plain 6), stored) := by
  rcases first_contact ideal pqLink (fun key direction _ => ⟨⟨key, direction, 0⟩, rfl⟩)
    holds_bobMemory (@rfl _ true) canContact_aliceMemory 0 with
    ⟨opened, record, made, processes, _, _, decrypts⟩
  cases processPreKeyBundle_aliceMemory.symm.trans processes
  have stepped := step_sendEvent 0 (.plain 5)
  have belowLast : BelowLast ⟨"bob", 1⟩ (symbolic.publicKey aliceDraw.baseKey)
      (aliceMemory (some ⟨some (aliceAt 0), []⟩)) (sendEvent (.plain 5)) := by
    intro _ record state items chain loads isCurrent _ _ sender
    rw [loadOrFresh, loadSession_aliceMemory] at loads
    cases loads
    cases isCurrent
    cases sender
    exact (by decide : (0 : UInt32) ≠ 0xFFFFFFFF)
  have meets : Meets step (Allowed ⟨"bob", 1⟩ (symbolic.publicKey aliceDraw.baseKey))
      (aliceMemory (some ⟨some (aliceAt 0), []⟩)) [sendEvent (.plain 5)] :=
    meets_cons ⟨True.intro, belowLast⟩ stepped True.intro
  rcases decrypts _ _ meets (run_cons stepped (run_nil _)) _ _ _ _ _
    (messageEncrypt_aliceMemory 1 (.plain 6)) rfl (by decide) (bobMemory []) ⟨"alice", 1⟩ (12 : ℕ)
    (canAnswer_bobMemory 1 (.plain 6)) with ⟨_, stored, _, _, decrypted⟩
  exact ⟨stored, decrypted⟩

theorem run_sendEvent (count : ℕ) :
    ∃ events, run step (aliceMemory (some ⟨some (aliceAt 0), []⟩)) events =
        some (aliceMemory (some ⟨some (aliceAt count), []⟩)) ∧
      Meets step (Fresh (symbolic.publicKey aliceDraw.baseKey))
        (aliceMemory (some ⟨some (aliceAt 0), []⟩)) events := by
  induction count with
  | zero => exact ⟨[], rfl, True.intro⟩
  | succ count ih =>
    rcases ih with ⟨events, reached, meets⟩
    have stepped := step_sendEvent count (.plain 0)
    exact ⟨events ++ [sendEvent (.plain 0)],
      run_append reached (run_cons stepped (run_nil _)),
      meets_append meets reached (meets_cons True.intro stepped True.intro)⟩

variable {count : ℕ}

theorem keyAt_ne_start (start : Term) (moved : 0 < count) :
    (keyAt start count : ChainKey symbolic).key ≠ start := by
  have grows : ∀ count, sizeOf start + count ≤
      sizeOf ((fun key => Term.hmac key CHAIN_KEY_SEED)^[count] start) := by
    intro count
    induction count with
    | zero => exact Nat.le_refl _
    | succ count ih =>
      rw [Function.iterate_succ_apply', Term.hmac.sizeOf_spec]
      omega
  intro same
  have size := grows count
  change (fun key => Term.hmac key CHAIN_KEY_SEED)^[count] start = start at same
  rw [same] at size
  omega

theorem decryptMessage_wrapped (wraps : count = UInt32.size) {ptext result : Text}
    {localId remoteId : UInt32} {draw : ℕ} {updated : SessionState symbolic} :
    decryptMessage
      { bobSession with
        localRegistrationId := localId
        remoteRegistrationId := remoteId }
      (innerAt count ptext) .preKey draw ≠ .ok (result, updated) := by
  intro succeeded
  rcases decrypts_of_eq_ok succeeded with ⟨steps⟩
  let bob : SessionState symbolic :=
    { bobSession with
      localRegistrationId := localId
      remoteRegistrationId := remoteId }
  have chain := @getOrCreateChainKey_following_none symbolic bob
    (fun _ => chainSecret) ⟨[], []⟩ (11 : ℕ) rfl bobSenderChain rfl rfl false draw
  have counter : (innerAt count ptext).content.counter = UInt32.ofNat 0 := by
    change UInt32.ofNat count = _
    rw [wraps]
    rfl
  have isKey : (innerAt count ptext).content.senderRatchetKey = (11 : ℕ) := rfl
  rcases @Decrypts.generator_of_chain symbolic bob (fun _ => chainSecret) _ (11 : ℕ)
    Window.new .preKey 0 (bob.turned (11 : ℕ) bobSenderChain draw) updated _ draw result steps isKey
    counter false rfl chain (nodup_bobInbox _) (find_bobInbox _) (Window.sound_new _) (by decide)
    (by decide) with ⟨received, _, generator, keyed⟩
  have keys := steps.keys_eq
  rw [generator] at keys
  have first : (@messageKeysAt symbolic chainSecret 0 steps.pqrKey).macKey = steps.keys.macKey :=
    congrArg MessageKeys.macKey (Except.ok.inj keys)
  have verified : steps.keys.macKey =
      (@messageKeysAt symbolic chainSecret count (letterAt count ptext).pqrKey).macKey :=
    congrArg Tag.key (@of_decide_eq_true _ (symbolic.decidableTag _ _) steps.mac)
  have material := (ideal.hkdf_injective (first.trans verified)).2.1
  have sameKey := (ideal.hmac_injective (List.cons.inj material).1).1
  have moved : 0 < count := by
    rw [wraps]
    decide
  exact keyAt_ne_start chainSecret moved sameKey.symm

/-- After as many messages as there are counters the counter is zero again, and the message is not
decrypted. -/
theorem wrapped_first_message_refused :
    processPreKeyBundle (aliceMemory none) ⟨"bob", 1⟩ bobBundle 0 aliceDraw =
        (.ok (), aliceMemory (some ⟨some (aliceAt 0), []⟩)) ∧
      CanContact (aliceMemory none) ⟨"bob", 1⟩ bobBundle (symbolic.publicKey aliceDraw.baseKey) ∧
      ∃ events later message after,
        Meets step (Fresh (symbolic.publicKey aliceDraw.baseKey))
          (aliceMemory (some ⟨some (aliceAt 0), []⟩)) events ∧
        run step (aliceMemory (some ⟨some (aliceAt 0), []⟩)) events = some later ∧
        messageEncrypt later ⟨"bob", 1⟩ (Text.plain 6) 0 (0 : ℕ) =
          (.ok (.preKeySignalMessage message), after) ∧
        message.baseKey = symbolic.publicKey aliceDraw.baseKey ∧
        message.message.content.counter.toNat ≤ consts.MAX_FORWARD_JUMPS ∧
        CanAnswer (bobMemory []) ⟨"alice", 1⟩ bobBundle message ∧
        ∀ ourNewEphemeral result stored,
          messageDecryptPreKey (bobMemory []) ⟨"alice", 1⟩ message ourNewEphemeral ≠
            (.ok result, stored) := by
  refine ⟨processPreKeyBundle_aliceMemory, canContact_aliceMemory, ?_⟩
  have ⟨count, wraps⟩ : ∃ count, count = UInt32.size := ⟨_, rfl⟩
  rcases run_sendEvent count with ⟨events, reached, meets⟩
  refine ⟨events, _, announced count (.plain 6), _, meets, reached,
    messageEncrypt_aliceMemory count (.plain 6), rfl, ?_, canAnswer_bobMemory count (.plain 6), ?_⟩
  · change (UInt32.ofNat count).toNat ≤ _
    rw [wraps]
    exact Nat.zero_le _
  · intro ourNewEphemeral result stored decrypted
    rcases commitResult_ok decrypted with ⟨update, computes, _⟩
    have updates : decryptPreKeyUpdate (bobMemory []) ⟨"alice", 1⟩ (announced count (.plain 6))
      ourNewEphemeral SessionRecord.newFresh = .ok update := computes
    rcases decryptPreKeyUpdate_eq_ok.mp updates with
      ⟨_, used, processed, ptext, record, processes, decrypts, _⟩
    cases processes
    rcases SessionRecord.decryptMessage_eq_ok decrypts with
      ⟨state, updated, _, attempted, ⟨isCurrent, _⟩ | ⟨_, found, _⟩⟩
    · cases isCurrent
      exact decryptMessage_wrapped wraps attempted
    · cases found

end FirstContact

end LegacySignal
