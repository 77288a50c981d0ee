import LegacySignal.Protocol.Ladder

/-!
# One end of a session

An end of a session stands on a rung of the ladder: it holds the root key of
the rung and sends on its chain. What it has received is its inbox. Encrypting
gives the next letter of the chain. Decrypting a letter gives its plaintext if
the inbox takes it, and fails otherwise.
-/

namespace LegacySignal

open ChainKey ReceiveWindow SessionState

variable {P : Primitives}

/-- What never changes in a session. -/
structure Setting (P : Primitives) where
  identity : Side → P.PublicKey
  baseKey : P.PublicKey

namespace Setting

def withSelf (setting : Setting P) : Bool :=
  setting.identity .alice = setting.identity .bob

def limits (setting : Setting P) : Limits := receivingLimits setting.withSelf

theorem streams_pos (setting : Setting P) : 0 < setting.limits.streams := by
  change 0 < consts.MAX_RECEIVER_CHAINS
  decide

theorem withSelf_eq (setting : Setting P) (side : Side) :
    decide (setting.identity side.other = setting.identity side) = setting.withSelf := by
  cases side with
  | alice => exact decide_eq_decide.mpr eq_comm
  | bob => rfl

end Setting

structure Endpoint (setting : Setting P) (start : P.PublicKey → P.Secret) (side : Side)
    (rung : Rung P) (count : ℕ) (inbox : Inbox P.PublicKey) (state : SessionState P) : Prop where
  version : state.version = CIPHERTEXT_MESSAGE_CURRENT_VERSION
  localIdentity : state.localIdentityKey = setting.identity side
  remoteIdentity : state.remoteIdentityKey = some (setting.identity side.other)
  baseKey : state.aliceBaseKey = setting.baseKey
  pending : ∀ items, state.pendingPreKey = some items →
    side = .alice ∧ items.baseKey = setting.baseKey
  root : state.rootKey = rung.root
  sender : state.senderChain = some ⟨⟨rung.key⟩, keyAt rung.chain count⟩
  chains : state.receiverChains = inbox.windows.map (chainOf start)
  sound : inbox.Sound setting.limits
  small : ∀ entry ∈ inbox.windows, entry.2.next < UInt32.size

namespace Endpoint

variable {setting : Setting P} {start : P.PublicKey → P.Secret} {side : Side} {rung : Rung P}
  {count : ℕ} {inbox : Inbox P.PublicKey} {state : SessionState P} {address : SignalProtocolAddress}
  {now : ℕ} {box : Inbox P.PublicKey} {window received : Window}

section

variable (endpoint : Endpoint setting start side rung count inbox state)

include endpoint

theorem sessionVersion : state.sessionVersion = CIPHERTEXT_MESSAGE_CURRENT_VERSION := by
  simp only [SessionState.sessionVersion, endpoint.version]
  rfl

theorem sessionWithSelf : state.sessionWithSelf = setting.withSelf := by
  simp only [SessionState.sessionWithSelf, endpoint.remoteIdentity, endpoint.localIdentity]
  exact setting.withSelf_eq side

theorem eq_following : state = state.following start inbox := by
  rw [following, ← endpoint.chains]

theorem congr_start {other : P.PublicKey → P.Secret}
    (same : ∀ entry ∈ inbox.windows, start entry.1 = other entry.1) :
    Endpoint setting other side rung count inbox state := by
  have chains := congrArg receiverChains
    (@following_congr P state start inbox other same)
  exact { endpoint with chains := endpoint.chains.trans chains }

end

/-- How the message of a letter may be wrapped. -/
def WrappedFor (setting : Setting P) (side : Side) : CiphertextMessage P → Prop
  | .signalMessage _ => True
  | .preKeySignalMessage message =>
    side = .alice ∧ message.messageVersion = CIPHERTEXT_MESSAGE_CURRENT_VERSION ∧
      message.baseKey = setting.baseKey

theorem wrapMessage (endpoint : Endpoint setting start side rung count inbox state)
    {message : SignalMessage P} {wrapped : CiphertextMessage P}
    (wraps : state.wrapMessage address now message = .ok wrapped) :
    wrapped.inner = message ∧ WrappedFor setting side wrapped := by
  unfold SessionState.wrapMessage at wraps
  split at wraps
  · cases wraps
    exact ⟨rfl, trivial⟩
  · rename_i items pending
    split at wraps
    · cases wraps
    · cases wraps
      rcases endpoint.pending items pending with ⟨isAlice, base⟩
      exact ⟨rfl, isAlice, endpoint.sessionVersion, base⟩

theorem encryptMessage (endpoint : Endpoint setting start side rung count inbox state)
    {ptext : P.Bytes} {random : P.Random} {message : CiphertextMessage P} {sent : SessionState P}
    {theirIdentityKey : P.PublicKey} (encrypts : state.encryptMessage address ptext now random =
      .ok (message, sent, theirIdentityKey)) :
    ∃ letter : Letter P, letter.ratchetKey = rung.publicKey ∧ letter.number = count ∧
      letter.ptext = ptext ∧ WrappedFor setting side message ∧
      message.inner =
        letter.message rung.chain (setting.identity side) (setting.identity side.other) ∧
      P.pqSend state.pqRatchetState random =
        some (sent.pqRatchetState, letter.pqRatchet, letter.pqrKey) ∧
      Endpoint setting start side rung (count + 1) inbox sent := by
  rcases encryptMessage_eq_ok encrypts with
    ⟨chain, pqState, pqrMsg, pqrKey, keys, sender, sends, keysEq, remote, wraps, rfl⟩
  rw [endpoint.sender] at sender
  cases sender
  rw [generateKeys_keyAt] at keysEq
  cases keysEq
  rw [endpoint.remoteIdentity] at remote
  cases remote
  rcases endpoint.wrapMessage wraps with ⟨inner, wrappedFor⟩
  refine ⟨⟨rung.publicKey, count, state.previousCounter, ptext, pqrMsg, pqrKey⟩, rfl, rfl, rfl,
    wrappedFor, ?_, sends, ?_⟩
  · rw [inner, endpoint.localIdentity, endpoint.sessionVersion]
    rfl
  · refine ⟨endpoint.version, endpoint.localIdentity, endpoint.remoteIdentity, endpoint.baseKey,
      endpoint.pending, endpoint.root, ?_, endpoint.chains, endpoint.sound, endpoint.small⟩
    rw [nextChainKey_keyAt]

theorem decryptMessage_of_chain (ideal : P.Ideal) {letter : Letter P} {chained : SessionState P}
    {messageType : CiphertextMessageType} {ourNewEphemeral : P.PrivateKey} {pqState : P.PqState}
    (version : state.sessionVersion = CIPHERTEXT_MESSAGE_CURRENT_VERSION)
    (localIdentity : chained.localIdentityKey = setting.identity side)
    (remoteIdentity : chained.remoteIdentityKey = some (setting.identity side.other))
    (chain : state.getOrCreateChainKey letter.ratchetKey ourNewEphemeral =
      .ok (keyAt (start letter.ratchetKey) window.next, chained.following start box))
    (nodup : box.streams.Nodup) (found : box.find letter.ratchetKey = some window)
    (sound : window.Sound consts.MAX_MESSAGE_KEYS) (nextSmall : window.next < UInt32.size)
    (numberSmall : letter.number < UInt32.size)
    (taken : window.receive setting.limits.capacity setting.limits.maxJump letter.number =
      some received)
    (recv : P.pqRecv chained.pqRatchetState letter.pqRatchet = .ok (pqState, letter.pqrKey)) :
    state.decryptMessage (letter.message (start letter.ratchetKey)
        (setting.identity side.other) (setting.identity side)) messageType ourNewEphemeral =
      .ok (letter.ptext,
        (chained.following start (box.replace letter.ratchetKey received)).acknowledge
          pqState) := by
  have self : chained.sessionWithSelf = setting.withSelf := by
    simp only [SessionState.sessionWithSelf, remoteIdentity, localIdentity]
    exact setting.withSelf_eq side
  have keyed := @getOrCreateMessageKey_following P chained start box
    letter.ratchetKey window messageType letter.number nodup found sound nextSmall numberSmall
    setting.withSelf self
  simp only [show window.receive consts.MAX_MESSAGE_KEYS (receivingLimits setting.withSelf).maxJump
    letter.number = some received from taken] at keyed
  let keys := messageKeysAt (start letter.ratchetKey) letter.number letter.pqrKey
  have steps : state.Decrypts (letter.message (start letter.ratchetKey)
      (setting.identity side.other) (setting.identity side)) messageType ourNewEphemeral
      letter.ptext
      ((chained.following start (box.replace letter.ratchetKey received)).acknowledge pqState) :=
    { chainKey := _
      chained := _
      generator := _
      keyed := _
      pqState := pqState
      pqrKey := letter.pqrKey
      keys := keys
      theirIdentityKey := setting.identity side.other
      version := version.symm
      chainKey_eq := chain
      generator_eq := keyed
      pqrKey_eq := recv
      keys_eq := generateKeys_keyAt _ _ _
      identity := remoteIdentity
      mac := by
        have verified := letter.verifyMac_message (start letter.ratchetKey)
          (setting.identity side.other) (setting.identity side)
        rw [← localIdentity] at verified ⊢
        exact verified
      ptext_eq := ideal.decrypt_encrypt _ _ _
      updated_eq := rfl }
  exact steps.eq_ok

theorem small_replace {key : P.PublicKey} {received : Window}
    (small : ∀ entry ∈ box.windows, entry.2.next < UInt32.size)
    (receivedSmall : received.next < UInt32.size) :
    ∀ entry ∈ (box.replace key received).windows, entry.2.next < UInt32.size := by
  intro entry member
  rcases List.mem_map.mp member with ⟨before, present, rfl⟩
  split
  · exact receivedSmall
  · exact small before present

theorem next_lt_size {number capacity : ℕ} {maxJump : Option ℕ}
    (taken : window.receive capacity maxJump number = some received)
    (nextSmall : window.next < UInt32.size) (numberSmall : number + 1 < UInt32.size) :
    received.next < UInt32.size := by
  rcases Window.next_receive taken with same | next <;> omega

section Decrypts

variable {letter : Letter P} {messageType : CiphertextMessageType} {ourNewEphemeral : P.PrivateKey}
  {pqState : P.PqState}

section

variable (ideal : P.Ideal) (endpoint : Endpoint setting start side rung count inbox state)

include ideal endpoint

theorem decryptMessage_followed {window received : Window}
    (found : inbox.find letter.ratchetKey = some window)
    (numberSmall : letter.number + 1 < UInt32.size)
    (taken : window.receive setting.limits.capacity setting.limits.maxJump letter.number =
      some received)
    (recv : P.pqRecv state.pqRatchetState letter.pqRatchet = .ok (pqState, letter.pqrKey)) :
    ∃ updated, state.decryptMessage (letter.message (start letter.ratchetKey)
        (setting.identity side.other) (setting.identity side)) messageType ourNewEphemeral =
          .ok (letter.ptext, updated) ∧
      updated.pqRatchetState = pqState ∧
      Endpoint setting start side rung count (inbox.replace letter.ratchetKey received)
        updated := by
  have member := Inbox.mem_of_find found
  have windowSound := endpoint.sound.windows_sound _ member
  have nextSmall := endpoint.small _ member
  have chain := (congrArg (fun state : SessionState P =>
      state.getOrCreateChainKey letter.ratchetKey ourNewEphemeral) endpoint.eq_following).trans
    (getOrCreateChainKey_following_some endpoint.sound.streams_nodup found
      ourNewEphemeral)
  refine ⟨_, decryptMessage_of_chain ideal endpoint.sessionVersion endpoint.localIdentity
    endpoint.remoteIdentity chain endpoint.sound.streams_nodup found windowSound nextSmall
    (Nat.lt_of_succ_lt numberSmall) taken recv, rfl, ?_⟩
  refine ⟨endpoint.version, endpoint.localIdentity, endpoint.remoteIdentity, endpoint.baseKey,
    ?_, endpoint.root, endpoint.sender, rfl, endpoint.sound.replace (windowSound.receive taken),
    small_replace endpoint.small (next_lt_size taken nextSmall numberSmall)⟩
  intro items cleared
  cases cleared

/-- The first letter of the rung above: the end draws a key and stands on the next rung. -/
theorem decryptMessage_new {upper : P.PrivateKey}
    (above : letter.ratchetKey = (rung.next upper).publicKey)
    (startEq : start letter.ratchetKey = (rung.next upper).chain)
    (unknown : ¬inbox.Known letter.ratchetKey) {received : Window}
    (numberSmall : letter.number + 1 < UInt32.size)
    (taken : Window.new.receive setting.limits.capacity setting.limits.maxJump letter.number =
      some received)
    (recv : P.pqRecv state.pqRatchetState letter.pqRatchet = .ok (pqState, letter.pqrKey)) :
    ∃ updated, state.decryptMessage (letter.message (start letter.ratchetKey)
        (setting.identity side.other) (setting.identity side)) messageType ourNewEphemeral =
          .ok (letter.ptext, updated) ∧
      updated.pqRatchetState = pqState ∧
      Endpoint setting start side ((rung.next upper).next ourNewEphemeral) 0
        ((inbox.follow setting.limits letter.ratchetKey).replace letter.ratchetKey received)
        updated := by
  rcases not_or.mp unknown with ⟨notFollowed, notDropped⟩
  have climbed := rung.createChain_next ideal upper
  rw [← above, ← startEq] at climbed
  have derived : (createChain state.rootKey letter.ratchetKey rung.key).2 =
      ⟨start letter.ratchetKey, 0⟩ := by rw [endpoint.root, climbed]
  have chain := (congrArg (fun state : SessionState P =>
      state.getOrCreateChainKey letter.ratchetKey ourNewEphemeral) endpoint.eq_following).trans
    (getOrCreateChainKey_following_none (Inbox.find_eq_none.mpr notFollowed)
      endpoint.sender derived setting.withSelf ourNewEphemeral)
  have sound := endpoint.sound.follow notFollowed notDropped
  have found := Inbox.find_follow setting.streams_pos notFollowed
  let chained :=
    state.turned letter.ratchetKey ⟨⟨rung.key⟩, keyAt rung.chain count⟩ ourNewEphemeral
  have localIdentity : chained.localIdentityKey = setting.identity side := endpoint.localIdentity
  have remoteIdentity : chained.remoteIdentityKey = some (setting.identity side.other) :=
    endpoint.remoteIdentity
  refine ⟨_, decryptMessage_of_chain ideal endpoint.sessionVersion localIdentity
    remoteIdentity chain sound.streams_nodup found (Window.sound_new _) (by decide)
    (Nat.lt_of_succ_lt numberSmall) taken recv, rfl, ?_⟩
  have small : ∀ entry ∈ (inbox.follow setting.limits letter.ratchetKey).windows,
      entry.2.next < UInt32.size := by
    intro entry member
    rcases Inbox.mem_windows_follow member with before | rfl
    · exact endpoint.small entry before
    · exact (by decide : 0 < UInt32.size)
  refine ⟨endpoint.version, endpoint.localIdentity, endpoint.remoteIdentity, endpoint.baseKey,
    ?_, ?_, ?_, rfl, sound.replace ((Window.sound_new _).receive taken),
    small_replace small (next_lt_size taken (by decide) numberSmall)⟩
  · intro items cleared
    cases cleared
  · change (createChain (createChain state.rootKey letter.ratchetKey rung.key).1
      letter.ratchetKey ourNewEphemeral).1 = _
    rw [endpoint.root, climbed, above]
    rfl
  · change some (⟨_, (createChain (createChain state.rootKey letter.ratchetKey rung.key).1
      letter.ratchetKey ourNewEphemeral).2⟩ : SenderChain P) = _
    rw [endpoint.root, climbed, above]
    rfl

theorem decryptMessage_refused {secret : P.Secret}
    (foreign : letter.ratchetKey ∈ inbox.dropped →
      (createChain rung.root letter.ratchetKey rung.key).2.key ≠ secret)
    (numberSmall : letter.number < UInt32.size)
    (refused : inbox.receive setting.limits letter.ratchetKey letter.number = none)
    {ptext : P.Bytes} {updated : SessionState P} :
    state.decryptMessage (letter.message secret (setting.identity side.other)
      (setting.identity side)) messageType ourNewEphemeral ≠ .ok (ptext, updated) := by
  intro succeeded
  rcases decrypts_of_eq_ok succeeded with ⟨steps⟩
  have nodup := endpoint.sound.streams_nodup
  unfold Inbox.receive at refused
  cases found : inbox.find letter.ratchetKey with
  | some window =>
    have member := Inbox.mem_of_find found
    have chain := (congrArg (fun state : SessionState P =>
        state.getOrCreateChainKey letter.ratchetKey ourNewEphemeral) endpoint.eq_following).trans
      (getOrCreateChainKey_following_some nodup found ourNewEphemeral)
    rcases steps.generator_of_chain rfl rfl endpoint.sessionWithSelf chain nodup found
      (endpoint.sound.windows_sound _ member) (endpoint.small _ member) numberSmall with
      ⟨received, taken, _⟩
    have takenHere : window.receive setting.limits.capacity setting.limits.maxJump
      letter.number = some received := taken
    simp [found, takenHere] at refused
  | none =>
    have notFollowed := Inbox.find_eq_none.mp found
    let derived := (createChain state.rootKey letter.ratchetKey rung.key).2.key
    let starts := Function.update start letter.ratchetKey derived
    have startsEq : starts letter.ratchetKey = derived := Function.update_self _ _ _
    have sameChains : state.following start inbox = state.following starts inbox :=
      (following_update state start notFollowed derived).symm
    have derivedEq : (createChain state.rootKey letter.ratchetKey rung.key).2 =
        ⟨starts letter.ratchetKey, 0⟩ := by
      rw [startsEq]
      rfl
    have chain := (congrArg (fun state : SessionState P =>
        state.getOrCreateChainKey letter.ratchetKey ourNewEphemeral)
          (endpoint.eq_following.trans sameChains)).trans
      (getOrCreateChainKey_following_none found endpoint.sender derivedEq
        setting.withSelf ourNewEphemeral)
    let chained :=
      state.turned letter.ratchetKey ⟨⟨rung.key⟩, keyAt rung.chain count⟩ ourNewEphemeral
    have self : chained.sessionWithSelf = setting.withSelf := endpoint.sessionWithSelf
    have isKey : (letter.message secret (setting.identity side.other)
      (setting.identity side)).content.senderRatchetKey = letter.ratchetKey := rfl
    rcases @Decrypts.generator_of_chain P state starts _ letter.ratchetKey
      Window.new messageType letter.number chained updated _ ourNewEphemeral ptext steps isKey
      rfl setting.withSelf self chain (Inbox.nodup_streams_follow nodup notFollowed)
      (Inbox.find_follow setting.streams_pos notFollowed) (Window.sound_new _) (by decide)
      numberSmall with ⟨received, taken, generator, keyed⟩
    have takenHere : Window.new.receive setting.limits.capacity setting.limits.maxJump
      letter.number = some received := taken
    by_cases dropped : letter.ratchetKey ∈ inbox.dropped
    · apply foreign dropped
      have keys := steps.keys_eq
      rw [generator, generateKeys_keyAt, startsEq] at keys
      have localIdentity : steps.keyed.localIdentityKey = setting.identity side :=
        (congrArg localIdentityKey keyed).trans endpoint.localIdentity
      have remoteIdentity : steps.theirIdentityKey = setting.identity side.other := by
        have remote := (congrArg remoteIdentityKey keyed).trans
          endpoint.remoteIdentity
        exact Option.some.inj (steps.identity.symm.trans remote)
      have mac := steps.mac
      rw [localIdentity, remoteIdentity, ← Except.ok.inj keys] at mac
      rw [← endpoint.root]
      exact Letter.start_of_verifyMac ideal mac
    · simp [found, dropped, takenHere] at refused

end

end Decrypts

end Endpoint

end LegacySignal
