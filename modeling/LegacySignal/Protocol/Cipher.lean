import LegacySignal.Protocol.Session

/-!
# Encryption and decryption with a session record

The part of `session_cipher.rs` that computes on a loaded record: what
`message_encrypt` makes of it, and how a received message is tried on the
current state and then on the archived ones. Each attempt works on a copy, so
a failed one changes nothing.

Every attempt that meets a new ratchet key draws a key pair. Only the pair of
the attempt that succeeds is kept, so one drawn key stands for all of them.
-/

namespace LegacySignal

variable {P : Primitives}

structure SignalMessage (P : Primitives) where
  content : SignalContent P.PublicKey P.Bytes P.PqMessage
  mac : P.Tag

namespace SignalMessage

def new (macKey : P.Secret) (senderIdentityKey receiverIdentityKey : P.PublicKey)
    (content : SignalContent P.PublicKey P.Bytes P.PqMessage) : SignalMessage P :=
  ⟨content, P.computeMac macKey senderIdentityKey receiverIdentityKey content⟩

def verifyMac (message : SignalMessage P) (senderIdentityKey receiverIdentityKey : P.PublicKey)
    (macKey : P.Secret) : Bool :=
  P.computeMac macKey senderIdentityKey receiverIdentityKey message.content = message.mac

end SignalMessage

structure KyberPayload (P : Primitives) where
  preKeyId : UInt32
  ciphertext : P.KemCiphertext

structure PreKeySignalMessage (P : Primitives) where
  messageVersion : ℕ
  registrationId : UInt32
  preKeyId : Option UInt32
  signedPreKeyId : UInt32
  kyberPayload : Option (KyberPayload P)
  baseKey : P.PublicKey
  identityKey : P.PublicKey
  message : SignalMessage P

/-- The messages that a session makes. -/
inductive CiphertextMessage (P : Primitives) where
  | signalMessage (message : SignalMessage P)
  | preKeySignalMessage (message : PreKeySignalMessage P)

def CiphertextMessage.inner : CiphertextMessage P → SignalMessage P
  | .signalMessage message => message
  | .preKeySignalMessage message => message.message

def messageTypeOf : CiphertextMessage P → CiphertextMessageType
  | .signalMessage _ => .whisper
  | .preKeySignalMessage _ => .preKey

namespace SessionState

/-- The message as it leaves: inside a prekey message until the session is acknowledged. The time
is in nanoseconds. -/
def wrapMessage (state : SessionState P) (address : SignalProtocolAddress) (now : ℕ)
    (message : SignalMessage P) : Except SignalProtocolError (CiphertextMessage P) :=
  match state.pendingPreKey with
  | none => .ok (.signalMessage message)
  | some items =>
    if (items.timestamp + consts.MAX_UNACKNOWLEDGED_SESSION_AGE) * 10 ^ 9 < now then
      .error (.sessionNotFound address)
    else
      .ok (.preKeySignalMessage
        { messageVersion := state.sessionVersion
          registrationId := state.localRegistrationId
          preKeyId := items.preKeyId
          signedPreKeyId := items.signedPreKeyId
          kyberPayload :=
            state.pendingKyberPreKey.map fun pending => ⟨pending.preKeyId, pending.ciphertext⟩
          baseKey := items.baseKey
          identityKey := state.localIdentityKey
          message := message })

/-- The steps of `message_encrypt` on the state, with the identity that is then checked. -/
def encryptMessage (state : SessionState P) (address : SignalProtocolAddress) (ptext : P.Bytes)
    (now : ℕ) (random : P.Random) :
    Except SignalProtocolError (CiphertextMessage P × SessionState P × P.PublicKey) := do
  let senderChain ← state.requireSenderChain
  let (pqState, pqrMsg, pqrKey) ← Result.okOr (P.pqSend state.pqRatchetState random)
    (.invalidState "message_encrypt" "post-quantum ratchet send error")
  let messageKeys ← senderChain.chainKey.messageKeys.generateKeys pqrKey
  Result.ensure (state.sessionVersion < 256)
    (.invalidSessionStructure "version does not fit in u8")
  let theirIdentityKey ← Result.okOr state.remoteIdentityKey
    (.invalidState "message_encrypt" "no remote identity key")
  let message := SignalMessage.new messageKeys.macKey state.localIdentityKey theirIdentityKey
    { messageVersion := state.sessionVersion
      senderRatchetKey := senderChain.ratchetKey.publicKey
      counter := senderChain.chainKey.index
      previousCounter := state.previousCounter
      ciphertext := P.aesCbcEncrypt ptext messageKeys.cipherKey messageKeys.iv
      pqRatchet := pqrMsg }
  let wrapped ← state.wrapMessage address now message
  let sent := { state with pqRatchetState := pqState }
  .ok (wrapped, sent.setSenderChainKey senderChain.chainKey.nextChainKey, theirIdentityKey)

/-- The chain key for a ratchet key. A new ratchet key takes the root key two steps further. -/
def getOrCreateChainKey (state : SessionState P) (theirEphemeral : P.PublicKey)
    (ourNewEphemeral : P.PrivateKey) :
    Except SignalProtocolError (ChainKey P × SessionState P) :=
  match state.getReceiverChainKey theirEphemeral with
  | some chainKey => .ok (chainKey, state)
  | none => do
      let senderChain ← state.requireSenderChain
      let (receiverRoot, receiverChainKey) :=
        createChain state.rootKey theirEphemeral senderChain.ratchetKey.privateKey
      let (senderRoot, senderChainKey) := createChain receiverRoot theirEphemeral ourNewEphemeral
      let currentIndex := senderChain.chainKey.index
      let received :=
        { state with rootKey := senderRoot }.addReceiverChain theirEphemeral receiverChainKey
      let counted :=
        { received with previousCounter := if 0 < currentIndex then currentIndex - 1 else 0 }
      .ok (receiverChainKey, counted.setSenderChain ⟨ourNewEphemeral⟩ senderChainKey)

/-- The loop that keeps the keys of the given number of skipped messages. -/
def skipMessageKeys (theirEphemeral : P.PublicKey) :
    ℕ → SessionState P → ChainKey P → Except SignalProtocolError (SessionState P × ChainKey P)
  | 0, state, chainKey => .ok (state, chainKey)
  | remaining + 1, state, chainKey => do
      let kept ← state.setMessageKeys theirEphemeral chainKey.messageKeys
      skipMessageKeys theirEphemeral remaining kept chainKey.nextChainKey

def getOrCreateMessageKey (state : SessionState P) (theirEphemeral : P.PublicKey)
    (messageType : CiphertextMessageType) (chainKey : ChainKey P) (counter : UInt32) :
    Except SignalProtocolError (MessageKeyGenerator P × SessionState P) :=
  if counter < chainKey.index then
    match state.getMessageKeys theirEphemeral counter with
    | some found => .ok found
    | none => .error (.duplicatedMessage chainKey.index counter)
  else if consts.MAX_FORWARD_JUMPS < (counter - chainKey.index).toNat && !state.sessionWithSelf then
    .error (.invalidMessage messageType "message from too far into the future")
  else do
    let (skipped, reached) ←
      skipMessageKeys theirEphemeral (counter - chainKey.index).toNat state chainKey
    let advanced ← skipped.setReceiverChainKey theirEphemeral reached.nextChainKey
    .ok (reached.messageKeys, advanced)

def pqRatchetRecv (state : SessionState P) (messageType : CiphertextMessageType)
    (message : P.PqMessage) : Except SignalProtocolError (Option P.Secret × SessionState P) :=
  match P.pqRecv state.pqRatchetState message with
  | .ok (pqState, key) => .ok (key, { state with pqRatchetState := pqState })
  | .error .stateDecode =>
    .error (.invalidState "decrypt_message_with_state" "post-quantum ratchet error")
  | .error .other => .error (.invalidMessage messageType "post-quantum ratchet error")

/-- What follows once the keys of the message have been found: from here on no chain key is
derived, and the MAC is checked. -/
def authenticate (keyed : SessionState P) (ciphertext : SignalMessage P)
    (messageType : CiphertextMessageType) (generator : MessageKeyGenerator P) :
    Except SignalProtocolError (P.Bytes × SessionState P) := do
  let (pqrKey, received) ← keyed.pqRatchetRecv messageType ciphertext.content.pqRatchet
  let messageKeys ← generator.generateKeys pqrKey
  let theirIdentityKey ← Result.okOr received.remoteIdentityKey
    (.invalidSessionStructure "cannot decrypt without remote identity key")
  Result.ensure
    (ciphertext.verifyMac theirIdentityKey received.localIdentityKey messageKeys.macKey)
    (.invalidMessage messageType "MAC verification failed")
  let ptext ← Result.okOr
    (P.aesCbcDecrypt ciphertext.content.ciphertext messageKeys.cipherKey messageKeys.iv)
    (.invalidMessage messageType "failed to decrypt")
  .ok (ptext, received.clearUnacknowledgedPreKeyMessage)

def decryptMessage (state : SessionState P) (ciphertext : SignalMessage P)
    (messageType : CiphertextMessageType) (ourNewEphemeral : P.PrivateKey) :
    Except SignalProtocolError (P.Bytes × SessionState P) := do
  Result.ensure (ciphertext.content.messageVersion = state.sessionVersion)
    (.unrecognizedMessageVersion ciphertext.content.messageVersion)
  let theirEphemeral := ciphertext.content.senderRatchetKey
  let (chainKey, chained) ← state.getOrCreateChainKey theirEphemeral ourNewEphemeral
  let (generator, keyed) ← chained.getOrCreateMessageKey theirEphemeral messageType chainKey
    ciphertext.content.counter
  keyed.authenticate ciphertext messageType generator

end SessionState

namespace SessionRecord

/-- The archived states from the given position on, up to one that decrypts or has already
received the message. -/
def tryPrevious (attempt : SessionState P → Except SignalProtocolError (P.Bytes × SessionState P)) :
    List (SessionState P) → ℕ →
      Except SignalProtocolError (Option (P.Bytes × ℕ × SessionState P))
  | [], _ => .ok none
  | previous :: rest, position =>
    match attempt previous with
    | .ok (ptext, updated) => .ok (some (ptext, position, updated))
    | .error (.duplicatedMessage chainIndex counter) =>
      .error (.duplicatedMessage chainIndex counter)
    | .error _ => tryPrevious attempt rest (position + 1)

/-- What the loop over the archived states ends in. -/
def decryptPrevious (record : SessionRecord P) (messageType : CiphertextMessageType)
    (attempt : SessionState P → Except SignalProtocolError (P.Bytes × SessionState P)) :
    Except SignalProtocolError (P.Bytes × SessionRecord P) := do
  match ← tryPrevious attempt record.previousSessions 0 with
  | some (ptext, position, updated) => .ok (ptext, record.promoteOldSession position updated)
  | none => .error (.invalidMessage messageType "decryption failed")

def decryptMessage (record : SessionRecord P) (ciphertext : SignalMessage P)
    (messageType : CiphertextMessageType) (ourNewEphemeral : P.PrivateKey) :
    Except SignalProtocolError (P.Bytes × SessionRecord P) :=
  let attempt := fun state : SessionState P =>
    state.decryptMessage ciphertext messageType ourNewEphemeral
  match record.currentSession with
  | none => record.decryptPrevious messageType attempt
  | some current =>
    match attempt current with
    | .ok (ptext, updated) => .ok (ptext, { record with currentSession := some updated })
    | .error (.duplicatedMessage chainIndex counter) =>
      .error (.duplicatedMessage chainIndex counter)
    | .error _ =>
      if messageType = .preKey then .error (.invalidMessage messageType "decryption failed")
      else record.decryptPrevious messageType attempt

end SessionRecord

end LegacySignal
