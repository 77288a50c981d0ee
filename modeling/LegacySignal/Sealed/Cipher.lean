import LegacySignal.Sealed.Content
import LegacySignal.Store.SharedPrefs

/-!
# Sealed sender

Both versions of sealed sender from `sealed_sender.rs`. In the first version
the sender's identity key is encrypted under keys from an ephemeral agreement,
and the content under keys that also depend on an agreement with that identity
key. In the second a random message key gives the ephemeral key and the cipher
key; each recipient gets it masked, with a tag from an agreement with the
sender's identity key.

A message stands for the bytes that it is deserialized from. An identity is its
private key.
-/

namespace LegacySignal

open Result

variable {P : SealedPrimitives} {F : SealedFormat P}

inductive UnidentifiedSenderMessage (P : SealedPrimitives) where
  | v1 (ephemeralPublic : P.PublicKey) (encryptedStatic encryptedMessage : List UInt8 × P.Mac)
  | v2 (ephemeralPublic : P.PublicKey) (encryptedMessageKey : P.Secret)
      (authenticationTag : P.Tag) (encryptedMessage : List UInt8)

/-- The text and the MAC that follows it, of 10 bytes. -/
def aes256CtrHmacsha256Encrypt (text : List UInt8) (cipherKey macKey : P.Secret) :
    List UInt8 × P.Mac :=
  let ctext := P.aes256Ctr text cipherKey
  (ctext, P.hmacSha256 macKey ctext)

def aes256CtrHmacsha256Decrypt (ctext : List UInt8 × P.Mac) (cipherKey macKey : P.Secret) :
    Option (List UInt8) :=
  if P.hmacSha256 macKey ctext.1 = ctext.2 then some (P.aes256Ctr ctext.1 cipherKey) else none

theorem ctrHmac_decrypt_encrypt (lawful : P.Lawful) (text : List UInt8)
    (cipherKey macKey : P.Secret) :
    aes256CtrHmacsha256Decrypt (aes256CtrHmacsha256Encrypt text cipherKey macKey) cipherKey
      macKey = some text := by
  simp [aes256CtrHmacsha256Decrypt, aes256CtrHmacsha256Encrypt, lawful.ctr_ctr]

theorem macKey_of_decrypt (ideal : P.Ideal) {text read : List UInt8}
    {cipherKey macKey otherCipherKey otherMacKey : P.Secret}
    (decrypted : aes256CtrHmacsha256Decrypt (aes256CtrHmacsha256Encrypt text cipherKey macKey)
      otherCipherKey otherMacKey = some read) : otherMacKey = macKey := by
  unfold aes256CtrHmacsha256Decrypt at decrypted
  split_ifs at decrypted with verified
  exact (ideal.hmac_injective verified).1

namespace SealedSenderV1

structure EphemeralKeys (P : SealedPrimitives) where
  chainKey : P.Secret
  cipherKey : P.Secret
  macKey : P.Secret

/-- The salt has the recipient's public key before the ephemeral one. -/
def EphemeralKeys.calculate (ourKeys : P.PrivateKey) (theirPublic : P.PublicKey)
    (direction : Direction) : EphemeralKeys P :=
  let ourPublic := P.publicKey ourKeys
  let sharedSecret := P.calculateAgreement ourKeys theirPublic
  let derived := match direction with
    | .sending => P.hkdfEphemeral theirPublic ourPublic sharedSecret
    | .receiving => P.hkdfEphemeral ourPublic theirPublic sharedSecret
  ⟨derived.1, derived.2.1, derived.2.2⟩

structure StaticKeys (P : SealedPrimitives) where
  cipherKey : P.Secret
  macKey : P.Secret

/-- The first of the three derived values is not used. -/
def StaticKeys.calculate (ourKeys : P.PrivateKey) (theirKey : P.PublicKey)
    (chainKey : P.Secret) (ctext : List UInt8 × P.Mac) : StaticKeys P :=
  let derived := P.hkdfStatic chainKey ctext (P.calculateAgreement ourKeys theirKey)
  ⟨derived.2.1, derived.2.2⟩

theorem ephemeralKeys_mirror (lawful : P.Lawful) (ephemeral recipient : P.PrivateKey) :
    EphemeralKeys.calculate recipient (P.publicKey ephemeral) .receiving =
      EphemeralKeys.calculate ephemeral (P.publicKey recipient) .sending := by
  simp only [EphemeralKeys.calculate, lawful.agreement_comm recipient ephemeral]

theorem staticKeys_mirror (lawful : P.Lawful) (sender recipient : P.PrivateKey)
    (chainKey : P.Secret) (ctext : List UInt8 × P.Mac) :
    StaticKeys.calculate recipient (P.publicKey sender) chainKey ctext =
      StaticKeys.calculate sender (P.publicKey recipient) chainKey ctext := by
  simp only [StaticKeys.calculate, lawful.agreement_comm recipient sender]

theorem eq_of_macKey_eq (ideal : P.Ideal) {reader ephemeral : P.PrivateKey}
    {theirPublic : P.PublicKey}
    (same : (EphemeralKeys.calculate reader (P.publicKey ephemeral) .receiving).macKey =
      (EphemeralKeys.calculate ephemeral theirPublic .sending).macKey) :
    EphemeralKeys.calculate reader (P.publicKey ephemeral) .receiving =
      EphemeralKeys.calculate ephemeral theirPublic .sending := by
  obtain ⟨sameRecipient, -, sameAgreement⟩ := ideal.hkdfEphemeral_injective same
  simp only [EphemeralKeys.calculate, sameRecipient, sameAgreement]

def encryptedStatic (sender : P.PrivateKey) (recipient : P.PublicKey)
    (ephemeral : P.PrivateKey) : List UInt8 × P.Mac :=
  let ephKeys := EphemeralKeys.calculate ephemeral recipient .sending
  aes256CtrHmacsha256Encrypt (P.serialize (P.publicKey sender)) ephKeys.cipherKey ephKeys.macKey

/-- `sealed_sender_encrypt_from_usmc`, once the identities are known. -/
def encrypt (sender : P.PrivateKey) (recipient : P.PublicKey) (ephemeral : P.PrivateKey)
    (usmc : UnidentifiedSenderMessageContent F) : UnidentifiedSenderMessage P :=
  let ephKeys := EphemeralKeys.calculate ephemeral recipient .sending
  let staticKeyCtext := encryptedStatic sender recipient ephemeral
  let staticKeys := StaticKeys.calculate sender recipient ephKeys.chainKey staticKeyCtext
  let messageData :=
    aes256CtrHmacsha256Encrypt usmc.serialized staticKeys.cipherKey staticKeys.macKey
  .v1 (P.publicKey ephemeral) staticKeyCtext messageData

def decrypt (F : SealedFormat P) (ourIdentity : P.PrivateKey) (ephemeralPublic : P.PublicKey)
    (encryptedStatic encryptedMessage : List UInt8 × P.Mac) :
    Except SealedError (UnidentifiedSenderMessageContent F) := do
  let ephKeys := EphemeralKeys.calculate ourIdentity ephemeralPublic .receiving
  let messageKeyBytes ← okOr
    (aes256CtrHmacsha256Decrypt encryptedStatic ephKeys.cipherKey ephKeys.macKey)
    (.invalidSealedSenderMessage "failed to decrypt sealed sender v1 message key")
  let staticKey ← okOr (P.deserialize messageKeyBytes) .invalidPublicKey
  let staticKeys := StaticKeys.calculate ourIdentity staticKey ephKeys.chainKey encryptedStatic
  let messageBytes ← okOr
    (aes256CtrHmacsha256Decrypt encryptedMessage staticKeys.cipherKey staticKeys.macKey)
    (.invalidSealedSenderMessage "failed to decrypt sealed sender v1 message contents")
  let usmc ← UnidentifiedSenderMessageContent.deserialize F messageBytes
  ensure (messageKeyBytes = P.serialize usmc.sender.key)
    (.invalidSealedSenderMessage "sender certificate key does not match message key")
  return usmc

variable {sender reader ephemeral : P.PrivateKey} {recipient : P.PublicKey}

theorem read_encryptedStatic (ideal : P.Ideal) {read : List UInt8}
    (decrypted : aes256CtrHmacsha256Decrypt (encryptedStatic sender recipient ephemeral)
      (EphemeralKeys.calculate reader (P.publicKey ephemeral) .receiving).cipherKey
      (EphemeralKeys.calculate reader (P.publicKey ephemeral) .receiving).macKey = some read) :
    read = P.serialize (P.publicKey sender) := by
  have sameKeys := eq_of_macKey_eq ideal (macKey_of_decrypt ideal decrypted)
  rw [sameKeys, encryptedStatic, ctrHmac_decrypt_encrypt ideal.toLawful] at decrypted
  exact (Option.some.inj decrypted).symm

theorem decrypt_encrypt (lawful : P.Lawful) {sender recipient ephemeral : P.PrivateKey}
    {usmc read : UnidentifiedSenderMessageContent F}
    (reads : UnidentifiedSenderMessageContent.deserialize F usmc.serialized = .ok read)
    (sentBySender : read.sender.key = P.publicKey sender) :
    decrypt F recipient (P.publicKey ephemeral)
      (encryptedStatic sender (P.publicKey recipient) ephemeral)
      (let ephKeys := EphemeralKeys.calculate ephemeral (P.publicKey recipient) .sending
        let staticKeys := StaticKeys.calculate sender (P.publicKey recipient) ephKeys.chainKey
          (encryptedStatic sender (P.publicKey recipient) ephemeral)
        aes256CtrHmacsha256Encrypt usmc.serialized staticKeys.cipherKey staticKeys.macKey) =
      .ok read := by
  unfold decrypt
  simp only [bind_eq_ok, okOr_eq_ok, ensure_eq_ok,
    ephemeralKeys_mirror lawful]
  refine ⟨_, ctrHmac_decrypt_encrypt lawful _ _ _, _, lawful.deserialize_serialize _,
    usmc.serialized, ?_, read, reads, (), ?_, rfl⟩
  · rw [staticKeys_mirror lawful]
    exact ctrHmac_decrypt_encrypt lawful _ _ _
  · rw [sentBySender]

/-- The certificate of a content that is returned has the key that was encrypted as the
static key, whatever the rest of the message is. -/
theorem key_of_decrypt (ideal : P.Ideal) {encryptedMessage : List UInt8 × P.Mac}
    {read : UnidentifiedSenderMessageContent F}
    (succeeded : decrypt F reader (P.publicKey ephemeral)
      (encryptedStatic sender recipient ephemeral) encryptedMessage = .ok read) :
    read.sender.key = P.publicKey sender := by
  unfold decrypt at succeeded
  simp only [bind_eq_ok, okOr_eq_ok, ensure_eq_ok] at succeeded
  obtain ⟨keyBytes, decrypted, _, _, _, _, usmc, _, _, sameKey, returned⟩ := succeeded
  cases returned
  rw [read_encryptedStatic ideal decrypted] at sameKey
  exact (ideal.serialize_injective sameKey).symm

end SealedSenderV1

namespace SealedSenderV2

def deriveE (m : P.Secret) : P.PrivateKey := P.hkdfR m

def deriveK (m : P.Secret) : P.Secret := P.hkdfK m

def applyAgreementXor (ourKeys : P.PrivateKey) (theirKey : P.PublicKey) (direction : Direction)
    (input : P.Secret) : P.Secret :=
  let agreement := P.calculateAgreement ourKeys theirKey
  let result := match direction with
    | .sending => P.hkdfDh agreement (P.publicKey ourKeys) theirKey
    | .receiving => P.hkdfDh agreement theirKey (P.publicKey ourKeys)
  P.xor result input

def computeAuthenticationTag (ourKeys : P.PrivateKey) (theirKey : P.PublicKey)
    (direction : Direction) (ephemeralPubKey : P.PublicKey) (encryptedMessageKey : P.Secret) :
    P.Tag :=
  let agreement := P.calculateAgreement ourKeys theirKey
  match direction with
  | .sending =>
    P.hkdfDhSender agreement ephemeralPubKey encryptedMessageKey (P.publicKey ourKeys) theirKey
  | .receiving =>
    P.hkdfDhSender agreement ephemeralPubKey encryptedMessageKey theirKey (P.publicKey ourKeys)

theorem applyAgreementXor_mirror (lawful : P.Lawful) (first second : P.PrivateKey)
    (input : P.Secret) :
    applyAgreementXor second (P.publicKey first) .receiving
      (applyAgreementXor first (P.publicKey second) .sending input) = input := by
  simp only [applyAgreementXor, lawful.agreement_comm second first]
  exact lawful.xor_xor _ input

theorem computeAuthenticationTag_mirror (lawful : P.Lawful) (sender recipient : P.PrivateKey)
    (ephemeralPubKey : P.PublicKey) (encryptedMessageKey : P.Secret) :
    computeAuthenticationTag recipient (P.publicKey sender) .receiving ephemeralPubKey
        encryptedMessageKey =
      computeAuthenticationTag sender (P.publicKey recipient) .sending ephemeralPubKey
        encryptedMessageKey := by
  simp only [computeAuthenticationTag, lawful.agreement_comm recipient sender]

def encryptedMessageKey (m : P.Secret) (recipient : P.PublicKey) : P.Secret :=
  applyAgreementXor (deriveE m) recipient .sending m

def authenticationTag (sender : P.PrivateKey) (m : P.Secret) (recipient : P.PublicKey) : P.Tag :=
  computeAuthenticationTag sender recipient .sending (P.publicKey (deriveE m))
    (encryptedMessageKey m recipient)

def ciphertext (m : P.Secret) (usmc : UnidentifiedSenderMessageContent F) : List UInt8 :=
  P.aesGcmSivEncrypt (deriveK m) usmc.serialized

def encrypt (sender : P.PrivateKey) (recipient : P.PublicKey) (m : P.Secret)
    (usmc : UnidentifiedSenderMessageContent F) : UnidentifiedSenderMessage P :=
  .v2 (P.publicKey (deriveE m)) (encryptedMessageKey m recipient)
    (authenticationTag sender m recipient) (ciphertext m usmc)

def decrypt (F : SealedFormat P) (ourIdentity : P.PrivateKey) (ephemeralPublic : P.PublicKey)
    (encryptedMessageKey : P.Secret) (authenticationTag : P.Tag)
    (encryptedMessage : List UInt8) :
    Except SealedError (UnidentifiedSenderMessageContent F) := do
  let m := applyAgreementXor ourIdentity ephemeralPublic .receiving encryptedMessageKey
  ensure (P.publicKey (deriveE m) = ephemeralPublic)
    (.invalidSealedSenderMessage "derived ephemeral key did not match key provided in message")
  let messageBytes ← okOr (P.aesGcmSivDecrypt (deriveK m) encryptedMessage)
    (.invalidSealedSenderMessage "failed to decrypt inner message: aead::Error")
  let usmc ← UnidentifiedSenderMessageContent.deserialize F messageBytes
  let tag := computeAuthenticationTag ourIdentity usmc.sender.key .receiving ephemeralPublic
    encryptedMessageKey
  ensure (authenticationTag = tag)
    (.invalidSealedSenderMessage "sender certificate key does not match authentication tag")
  return usmc

variable {sender recipient : P.PrivateKey} {m : P.Secret}
  {usmc read : UnidentifiedSenderMessageContent F}

theorem decrypt_received (lawful : P.Lawful)
    (reads : UnidentifiedSenderMessageContent.deserialize F usmc.serialized = .ok read) :
    decrypt F recipient (P.publicKey (deriveE m)) (encryptedMessageKey m (P.publicKey recipient))
      (authenticationTag sender m (P.publicKey recipient)) (ciphertext m usmc) = do
        ensure (authenticationTag sender m (P.publicKey recipient) =
          computeAuthenticationTag recipient read.sender.key .receiving (P.publicKey (deriveE m))
            (encryptedMessageKey m (P.publicKey recipient)))
          (.invalidSealedSenderMessage "sender certificate key does not match authentication tag")
        return read := by
  have unmasked : applyAgreementXor recipient (P.publicKey (deriveE m)) .receiving
      (encryptedMessageKey m (P.publicKey recipient)) = m :=
    applyAgreementXor_mirror lawful _ _ _
  have opened : P.aesGcmSivDecrypt (deriveK m) (ciphertext m usmc) = some usmc.serialized :=
    lawful.gcmSiv_decrypt_encrypt _ _
  unfold decrypt
  simp only [unmasked, opened, okOr, ensure, if_pos]
  change (do
    let usmc ← UnidentifiedSenderMessageContent.deserialize F usmc.serialized
    _) = _
  rw [reads]
  rfl

theorem decrypt_encrypt (lawful : P.Lawful)
    (reads : UnidentifiedSenderMessageContent.deserialize F usmc.serialized = .ok read)
    (sentBySender : read.sender.key = P.publicKey sender) :
    decrypt F recipient (P.publicKey (deriveE m)) (encryptedMessageKey m (P.publicKey recipient))
      (authenticationTag sender m (P.publicKey recipient)) (ciphertext m usmc) = .ok read := by
  rw [decrypt_received lawful reads, sentBySender, computeAuthenticationTag_mirror lawful]
  simp only [authenticationTag, ensure, if_pos]
  rfl

/-- The certificate of a content that is returned has the key that the tag was made with,
whatever the rest of the message is. -/
theorem key_of_decrypt (ideal : P.Ideal) {sender reader : P.PrivateKey}
    {recipient ephemeralPublic : P.PublicKey} {messageKey : P.Secret}
    {encryptedMessage : List UInt8} {read : UnidentifiedSenderMessageContent F}
    (succeeded : decrypt F reader ephemeralPublic messageKey
      (computeAuthenticationTag sender recipient .sending ephemeralPublic messageKey)
      encryptedMessage = .ok read) :
    read.sender.key = P.publicKey sender := by
  unfold decrypt at succeeded
  simp only [bind_eq_ok, okOr_eq_ok, ensure_eq_ok] at succeeded
  obtain ⟨_, _, _, _, usmc, _, _, sameTag, returned⟩ := succeeded
  cases returned
  obtain ⟨-, -, -, sameSender, -⟩ := ideal.hkdfDhSender_injective sameTag
  exact sameSender.symm

end SealedSenderV2

/-- The rest of `sealed_sender_decrypt_to_usmc` once the message is deserialized. -/
def UnidentifiedSenderMessage.decryptToUsmc (F : SealedFormat P) (ourIdentity : P.PrivateKey) :
    UnidentifiedSenderMessage P → Except SealedError (UnidentifiedSenderMessageContent F)
  | .v1 ephemeralPublic encryptedStatic encryptedMessage =>
    SealedSenderV1.decrypt F ourIdentity ephemeralPublic encryptedStatic encryptedMessage
  | .v2 ephemeralPublic encryptedMessageKey authenticationTag encryptedMessage =>
    SealedSenderV2.decrypt F ourIdentity ephemeralPublic encryptedMessageKey authenticationTag
      encryptedMessage

/-- What the functions ask an `IdentityKeyStore` for. -/
structure IdentityKeys (P : SealedPrimitives) where
  ourIdentity : P.PrivateKey
  getIdentity : ProtocolAddress → Option P.PublicKey

def sealedSenderEncryptFromUsmc (destination : ProtocolAddress)
    (usmc : UnidentifiedSenderMessageContent F) (store : IdentityKeys P)
    (ephemeral : P.PrivateKey) : Except SealedError (UnidentifiedSenderMessage P) := do
  let theirIdentity ← okOr (store.getIdentity destination) (.sessionNotFound destination)
  return SealedSenderV1.encrypt store.ourIdentity theirIdentity ephemeral usmc

/-- The two directions mirror each other, and the key of the certificate that is returned
is the key that the message was encrypted with, whoever reads it. -/
theorem sealedSender_authenticates (ideal : P.Ideal) (format : F.Lawful)
    (store : IdentityKeys P) :
    (∀ usmc : UnidentifiedSenderMessageContent F, usmc.Made →
      usmc.sender.key = P.publicKey store.ourIdentity → ∀ recipient : P.PrivateKey,
        (∀ destination ephemeral, store.getIdentity destination = some (P.publicKey recipient) →
          ∃ message read, sealedSenderEncryptFromUsmc destination usmc store ephemeral =
              .ok message ∧
            message.decryptToUsmc F recipient = .ok read ∧ read.Same usmc) ∧
        (∀ m, ∃ read,
          (SealedSenderV2.encrypt store.ourIdentity (P.publicKey recipient) m usmc).decryptToUsmc F
              recipient = .ok read ∧ read.Same usmc)) ∧
      ∀ (usmc read : UnidentifiedSenderMessageContent F) (reader : P.PrivateKey),
        (∀ destination ephemeral message,
          sealedSenderEncryptFromUsmc destination usmc store ephemeral = .ok message →
          message.decryptToUsmc F reader = .ok read →
          read.sender.key = P.publicKey store.ourIdentity) ∧
        (∀ recipient m,
          (SealedSenderV2.encrypt store.ourIdentity recipient m usmc).decryptToUsmc F reader =
            .ok read →
          read.sender.key = P.publicKey store.ourIdentity) := by
  refine ⟨?_, ?_⟩
  · intro usmc made sentBySender recipient
    obtain ⟨read, reads, same⟩ :=
      UnidentifiedSenderMessageContent.deserialize_serialized format made
    rw [← same.sender] at sentBySender
    refine ⟨?_, ?_⟩
    · intro destination ephemeral known
      refine ⟨SealedSenderV1.encrypt store.ourIdentity (P.publicKey recipient) ephemeral usmc, read,
        ?_, SealedSenderV1.decrypt_encrypt ideal.toLawful reads sentBySender, same⟩
      unfold sealedSenderEncryptFromUsmc
      rw [known]
      rfl
    · intro m
      exact ⟨read, SealedSenderV2.decrypt_encrypt ideal.toLawful reads sentBySender, same⟩
  · intro usmc read reader
    refine ⟨?_, ?_⟩
    · intro destination ephemeral message encrypted decrypted
      unfold sealedSenderEncryptFromUsmc at encrypted
      obtain ⟨recipient, -, returned⟩ := bind_eq_ok.mp encrypted
      cases returned
      exact SealedSenderV1.key_of_decrypt ideal decrypted
    · intro recipient m decrypted
      exact SealedSenderV2.key_of_decrypt ideal decrypted

namespace Numbered

/-- Keys and secrets are numbers; a derived key is the code of what it is derived from. -/
def primitives : SealedPrimitives where
  PrivateKey := ℕ
  PublicKey := ℕ
  Secret := ℕ
  Mac := ℕ × List UInt8
  Tag := ℕ × ℕ × ℕ × ℕ × ℕ
  publicKey key := key
  serialize key := List.replicate key 5
  deserialize bytes := some bytes.length
  calculateAgreement key other := key + other
  hkdfEphemeral recipient ephemeral agreement :=
    (agreement, agreement, recipient.pair (ephemeral.pair agreement))
  hkdfStatic chainKey ctext agreement :=
    (chainKey, agreement, chainKey.pair (ctext.1.length.pair agreement))
  aes256Ctr text key := text.map (· ^^^ UInt8.ofNat key)
  hmacSha256 key text := (key, text)
  hkdfR m := m
  hkdfK m := m
  hkdfDh agreement first second := agreement + first + second
  hkdfDhSender agreement ephemeral messageKey sender recipient :=
    (agreement, ephemeral, messageKey, sender, recipient)
  xor first second := first ^^^ second
  aesGcmSivEncrypt key text := UInt8.ofNat key :: text
  aesGcmSivDecrypt key text := if text.head? = some (UInt8.ofNat key) then some text.tail else none

theorem primitives_ideal : primitives.Ideal where
  agreement_comm (first second : ℕ) := Nat.add_comm first second
  deserialize_serialize (key : ℕ) := by
    change some (List.replicate key (5 : UInt8)).length = some key
    rw [List.length_replicate]
  ctr_ctr text (key : ℕ) := by
    change (text.map (· ^^^ UInt8.ofNat key)).map (· ^^^ UInt8.ofNat key) = text
    simp [Function.comp_def]
  xor_xor (key text : ℕ) := by
    change key ^^^ (key ^^^ text) = text
    rw [← Nat.xor_assoc, Nat.xor_self, Nat.zero_xor]
  gcmSiv_decrypt_encrypt (key : ℕ) text := by
    simp [primitives]
  hmac_injective same := Prod.mk.inj same
  hkdfEphemeral_injective same := by
    obtain ⟨sameRecipient, rest⟩ := Nat.pair_eq_pair.mp same
    exact ⟨sameRecipient, Nat.pair_eq_pair.mp rest⟩
  hkdfDhSender_injective same := by
    obtain ⟨sameAgreement, rest⟩ := Prod.mk.inj same
    obtain ⟨sameEphemeral, rest⟩ := Prod.mk.inj rest
    obtain ⟨sameMessageKey, rest⟩ := Prod.mk.inj rest
    exact ⟨sameAgreement, sameEphemeral, sameMessageKey, Prod.mk.inj rest⟩

instance encodableUInt8 : Encodable UInt8 :=
  Encodable.ofLeftInverse UInt8.toFin UInt8.ofFin fun _ => rfl

instance encodableInt32 : Encodable Int32 :=
  Encodable.ofLeftInverse Int32.toInt Int32.ofInt Int32.ofInt_toInt

/-- A message of the format in one number. -/
instance encodableContentProto : Encodable ContentProto :=
  Encodable.ofLeftInverse
    (fun message => (message.type, message.senderCertificate, message.content,
      message.contentHint, message.groupId))
    (fun fields => ⟨fields.1, fields.2.1, fields.2.2.1, fields.2.2.2.1, fields.2.2.2.2⟩)
    fun _ => rfl

def firstDevice : DeviceId := ⟨1, by decide, by decide⟩

def senderUuid : String := "9d0652a3-dcc3-4d11-975f-74d61598733f"

/-- Bytes are read as their number; the key of a certificate is that number. -/
def format : SealedFormat primitives where
  encodeContent message := List.replicate (Encodable.encode message) 0
  decodeContent bytes := Encodable.decode bytes.length
  readCertificate bytes := .ok ⟨senderUuid, firstDevice, bytes.length⟩

theorem format_lawful : format.Lawful where
  decode_encode message := by
    change Encodable.decode (List.replicate _ (0 : UInt8)).length = some message
    rw [List.length_replicate, Encodable.encodek]

def certificate : SenderCertificate format where
  serialized := [0]
  data := ⟨senderUuid, firstDevice, (1 : ℕ)⟩
  reads := rfl

def store : IdentityKeys primitives where
  ourIdentity := (1 : ℕ)
  getIdentity _ := some (2 : ℕ)

def content : UnidentifiedSenderMessageContent format :=
  .new .whisper certificate [1, 2] .default none

def destination : ProtocolAddress := ⟨"79a68407-d22a-4e5c-9f3a-0c8d4b9ea1a7", firstDevice⟩

theorem sealedSender_authenticates_numbered :
    (∃ message read, sealedSenderEncryptFromUsmc destination content store (3 : ℕ) = .ok message ∧
      message.decryptToUsmc format (2 : ℕ) = .ok read ∧ read.Same content ∧
      read.sender.key = (1 : ℕ)) ∧
    ∃ read, (SealedSenderV2.encrypt (1 : ℕ) (2 : ℕ) (5 : ℕ) content).decryptToUsmc format (2 : ℕ) =
        .ok read ∧ read.Same content ∧ read.sender.key = (1 : ℕ) := by
  obtain ⟨undone, authenticated⟩ :=
    sealedSender_authenticates primitives_ideal format_lawful store
  obtain ⟨firstVersion, secondVersion⟩ := undone content (.new _ _ _ _ _) rfl (2 : ℕ)
  constructor
  · obtain ⟨message, read, encrypted, decrypted, same⟩ := firstVersion destination (3 : ℕ) rfl
    exact ⟨message, read, encrypted, decrypted, same,
      (authenticated _ read (2 : ℕ)).1 _ _ message encrypted decrypted⟩
  · obtain ⟨read, decrypted, same⟩ := secondVersion (5 : ℕ)
    exact ⟨read, decrypted, same, (authenticated _ read (2 : ℕ)).2 _ _ decrypted⟩

end Numbered

end LegacySignal
