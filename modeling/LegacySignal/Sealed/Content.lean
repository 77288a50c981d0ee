import LegacySignal.Protocol.Session
import LegacySignal.Sealed.ServiceId

/-!
# The content of sealed messages

What a sealed sender message carries, from `sealed_sender.rs`: the sender's
certificate and the message for the recipient. A content is made by `new`, or
read from bytes by `deserialize`; both keep the bytes that are encrypted.

The protobuf encodings and the reading of a certificate's bytes are
parameters.
-/

namespace LegacySignal

structure SealedPrimitives where
  PrivateKey : Type
  PublicKey : Type
  /-- Agreements, derived keys and message keys. -/
  Secret : Type
  /-- The truncated HMAC after a ciphertext of the first version. -/
  Mac : Type
  /-- The authentication tag of the second version. -/
  Tag : Type
  [decidablePublicKey : DecidableEq PublicKey]
  [decidableMac : DecidableEq Mac]
  [decidableTag : DecidableEq Tag]
  publicKey : PrivateKey → PublicKey
  serialize : PublicKey → List UInt8
  deserialize : List UInt8 → Option PublicKey
  calculateAgreement : PrivateKey → PublicKey → Secret
  /-- HKDF salted with `UnidentifiedDelivery` and two serialized public keys. -/
  hkdfEphemeral : PublicKey → PublicKey → Secret → Secret × Secret × Secret
  /-- HKDF salted with a chain key and the encrypted static key. -/
  hkdfStatic : Secret → List UInt8 × Mac → Secret → Secret × Secret × Secret
  aes256Ctr : List UInt8 → Secret → List UInt8
  hmacSha256 : Secret → List UInt8 → Mac
  /-- HKDF of a message key under `Sealed Sender v2: r (2023-08)`, as a private key. -/
  hkdfR : Secret → PrivateKey
  /-- HKDF of a message key under `Sealed Sender v2: K`. -/
  hkdfK : Secret → Secret
  /-- HKDF of an agreement and two public keys under `Sealed Sender v2: DH`. -/
  hkdfDh : Secret → PublicKey → PublicKey → Secret
  /-- HKDF of an agreement, the ephemeral public key, an encrypted message key and two
  public keys under `Sealed Sender v2: DH-sender`. -/
  hkdfDhSender : Secret → PublicKey → Secret → PublicKey → PublicKey → Tag
  xor : Secret → Secret → Secret
  /-- AES-GCM-SIV with the default nonce, no associated data, the tag at the end. -/
  aesGcmSivEncrypt : Secret → List UInt8 → List UInt8
  aesGcmSivDecrypt : Secret → List UInt8 → Option (List UInt8)

namespace SealedPrimitives

attribute [instance] decidablePublicKey decidableMac decidableTag

/-- Both ends agree on a secret, and what is encrypted decrypts. -/
structure Lawful (P : SealedPrimitives) : Prop where
  agreement_comm (first second : P.PrivateKey) :
    P.calculateAgreement first (P.publicKey second) =
      P.calculateAgreement second (P.publicKey first)
  deserialize_serialize (key : P.PublicKey) : P.deserialize (P.serialize key) = some key
  ctr_ctr (text : List UInt8) (key : P.Secret) : P.aes256Ctr (P.aes256Ctr text key) key = text
  xor_xor (key text : P.Secret) : P.xor key (P.xor key text) = text
  gcmSiv_decrypt_encrypt (key : P.Secret) (text : List UInt8) :
    P.aesGcmSivDecrypt key (P.aesGcmSivEncrypt key text) = some text

/-- Moreover the MAC and the key derivations it is used with tell their inputs apart. -/
structure Ideal (P : SealedPrimitives) : Prop extends Lawful P where
  hmac_injective {key otherKey : P.Secret} {text otherText : List UInt8}
    (same : P.hmacSha256 key text = P.hmacSha256 otherKey otherText) :
    key = otherKey ∧ text = otherText
  hkdfEphemeral_injective {recipient otherRecipient ephemeral otherEphemeral : P.PublicKey}
    {agreement otherAgreement : P.Secret}
    (same : (P.hkdfEphemeral recipient ephemeral agreement).2.2 =
      (P.hkdfEphemeral otherRecipient otherEphemeral otherAgreement).2.2) :
    recipient = otherRecipient ∧ ephemeral = otherEphemeral ∧ agreement = otherAgreement
  hkdfDhSender_injective {agreement otherAgreement messageKey otherMessageKey : P.Secret}
    {ephemeral otherEphemeral sender otherSender recipient otherRecipient : P.PublicKey}
    (same : P.hkdfDhSender agreement ephemeral messageKey sender recipient =
      P.hkdfDhSender otherAgreement otherEphemeral otherMessageKey otherSender otherRecipient) :
    agreement = otherAgreement ∧ ephemeral = otherEphemeral ∧ messageKey = otherMessageKey ∧
      sender = otherSender ∧ recipient = otherRecipient

theorem Lawful.serialize_injective {P : SealedPrimitives} (lawful : P.Lawful) :
    Function.Injective P.serialize := by
  intro key other same
  have read := lawful.deserialize_serialize key
  rw [same, lawful.deserialize_serialize] at read
  exact (Option.some.inj read).symm

end SealedPrimitives

/-- The errors of `SignalProtocolError` that functions of sealed sender return. -/
inductive SealedError where
  | invalidArgument (text : String)
  | invalidState (function text : String)
  | invalidProtobufEncoding
  | invalidSealedSenderMessage (text : String)
  | unknownSealedSenderVersion (version : UInt8)
  | invalidPublicKey
  | invalidRegistrationId (address : ProtocolAddress) (value : UInt32)
  | sessionNotFound (address : ProtocolAddress)
deriving DecidableEq, Repr

/-- The values of `ProtoMessageType`. -/
def CiphertextMessageType.toProto : CiphertextMessageType → Int32
  | .preKey => 1
  | .whisper => 2
  | .senderKey => 7
  | .plaintext => 8

def CiphertextMessageType.ofProto (value : Int32) : Option CiphertextMessageType :=
  if value = 1 then some .preKey
  else if value = 2 then some .whisper
  else if value = 7 then some .senderKey
  else if value = 8 then some .plaintext
  else none

theorem CiphertextMessageType.ofProto_toProto (type : CiphertextMessageType) :
    ofProto type.toProto = some type := by
  cases type <;> rfl

inductive ContentHint where
  | default
  | resendable
  | implicit
  | unknown (value : UInt32)
deriving DecidableEq, Repr

namespace ContentHint

def toU32 : ContentHint → UInt32
  | .default => 0
  | .resendable => 1
  | .implicit => 2
  | .unknown value => value

def fromU32 (value : UInt32) : ContentHint :=
  if value = 1 then .resendable
  else if value = 2 then .implicit
  else if value = 0 then .default
  else .unknown value

def toProto (hint : ContentHint) : Option Int32 :=
  if hint = .default then none else some hint.toU32.toInt32

/-- An unknown hint with a known value is read as the known one. -/
@[simp] theorem toU32_fromU32 (value : UInt32) : (fromU32 value).toU32 = value := by
  unfold fromU32
  split_ifs with one two zero
  · exact one.symm
  · exact two.symm
  · exact zero.symm
  · rfl

end ContentHint

/-- `unidentified_sender_message::Message` of `sealed_sender.proto` -/
structure ContentProto where
  type : Option Int32
  senderCertificate : Option (List UInt8)
  content : Option (List UInt8)
  contentHint : Option Int32
  groupId : Option (List UInt8)
deriving DecidableEq, Repr

/-- Of a sender certificate, what is used to attribute and to check a message. -/
structure CertificateData (P : SealedPrimitives) where
  senderUuid : String
  senderDeviceId : DeviceId
  key : P.PublicKey

structure SealedFormat (P : SealedPrimitives) where
  encodeContent : ContentProto → List UInt8
  decodeContent : List UInt8 → Option ContentProto
  readCertificate : List UInt8 → Except SealedError (CertificateData P)

structure SealedFormat.Lawful {P : SealedPrimitives} (F : SealedFormat P) : Prop where
  decode_encode (message : ContentProto) : F.decodeContent (F.encodeContent message) = some message

variable {P : SealedPrimitives} {F : SealedFormat P}

/-- A certificate keeps the bytes that it is read from. -/
structure SenderCertificate (F : SealedFormat P) where
  serialized : List UInt8
  data : CertificateData P
  reads : F.readCertificate serialized = .ok data

namespace SenderCertificate

def key (certificate : SenderCertificate F) : P.PublicKey := certificate.data.key

def deserialize (F : SealedFormat P) (bytes : List UInt8) :
    Except SealedError (SenderCertificate F) :=
  match reads : F.readCertificate bytes with
  | .error error => .error error
  | .ok data => .ok ⟨bytes, data, reads⟩

@[simp] theorem deserialize_serialized (certificate : SenderCertificate F) :
    deserialize F certificate.serialized = .ok certificate := by
  rcases certificate with ⟨serialized, data, reads⟩
  unfold deserialize
  split
  next error failed =>
    rw [reads] at failed
    cases failed
  next other otherReads =>
    rw [reads] at otherReads
    cases otherReads
    rfl

end SenderCertificate

structure UnidentifiedSenderMessageContent (F : SealedFormat P) where
  serialized : List UInt8
  contents : List UInt8
  sender : SenderCertificate F
  msgType : CiphertextMessageType
  contentHint : ContentHint
  groupId : Option (List UInt8)

namespace UnidentifiedSenderMessageContent

def deserialize (F : SealedFormat P) (bytes : List UInt8) :
    Except SealedError (UnidentifiedSenderMessageContent F) := do
  let message ← Result.okOr (F.decodeContent bytes) .invalidProtobufEncoding
  let msgType ← Result.okOr (message.type.bind CiphertextMessageType.ofProto)
    .invalidProtobufEncoding
  let senderBytes ← Result.okOr message.senderCertificate .invalidProtobufEncoding
  let contents ← Result.okOr message.content .invalidProtobufEncoding
  let contentHint := (message.contentHint.map fun raw => .fromU32 raw.toUInt32).getD .default
  let sender ← SenderCertificate.deserialize F senderBytes
  return ⟨bytes, contents, sender, msgType, contentHint, message.groupId⟩

/-- The message that `new` encodes. An empty group id is left out. -/
def proto (msgType : CiphertextMessageType) (sender : SenderCertificate F)
    (contents : List UInt8) (contentHint : ContentHint) (groupId : Option (List UInt8)) :
    ContentProto where
  type := some msgType.toProto
  senderCertificate := some sender.serialized
  content := some contents
  contentHint := contentHint.toProto
  groupId := groupId.bind fun bytes => if bytes.isEmpty then none else some bytes

def new (msgType : CiphertextMessageType) (sender : SenderCertificate F)
    (contents : List UInt8) (contentHint : ContentHint) (groupId : Option (List UInt8)) :
    UnidentifiedSenderMessageContent F where
  serialized := F.encodeContent (proto msgType sender contents contentHint groupId)
  contents := contents
  sender := sender
  msgType := msgType
  contentHint := contentHint
  groupId := groupId

/-- How a content comes into being; its fields are private. -/
inductive Made : UnidentifiedSenderMessageContent F → Prop
  | new (msgType : CiphertextMessageType) (sender : SenderCertificate F)
      (contents : List UInt8) (contentHint : ContentHint) (groupId : Option (List UInt8)) :
      Made (new msgType sender contents contentHint groupId)
  | deserialized (bytes : List UInt8) (content : UnidentifiedSenderMessageContent F)
      (read : deserialize F bytes = .ok content) : Made content

/-- Two contents with the same bytes that also agree on what they hold: the hints have the
same value, and no group is the group of the empty id. -/
structure Same (left right : UnidentifiedSenderMessageContent F) : Prop where
  serialized : left.serialized = right.serialized
  contents : left.contents = right.contents
  sender : left.sender = right.sender
  msgType : left.msgType = right.msgType
  contentHint : left.contentHint.toU32 = right.contentHint.toU32
  groupId : left.groupId.getD [] = right.groupId.getD []

theorem serialized_of_deserialize {bytes : List UInt8} {read : UnidentifiedSenderMessageContent F}
    (succeeded : deserialize F bytes = .ok read) : read.serialized = bytes := by
  unfold deserialize at succeeded
  simp only [Result.bind_eq_ok] at succeeded
  obtain ⟨_, _, _, _, _, _, _, _, _, _, returned⟩ := succeeded
  cases returned
  rfl

theorem toU32_readHint (hint : ContentHint) :
    ((hint.toProto.map fun raw => ContentHint.fromU32 raw.toUInt32).getD .default).toU32 =
      hint.toU32 := by
  unfold ContentHint.toProto
  split_ifs with isDefault
  · rw [isDefault]
    rfl
  · simp

theorem getD_writtenGroup (groupId : Option (List UInt8)) :
    (groupId.bind fun bytes => if bytes.isEmpty then none else some bytes).getD [] =
      groupId.getD [] := by
  cases groupId with
  | none => rfl
  | some bytes => cases bytes <;> rfl

theorem deserialize_serialized (lawful : F.Lawful) {content : UnidentifiedSenderMessageContent F}
    (made : content.Made) :
    ∃ read, deserialize F content.serialized = .ok read ∧ read.Same content := by
  cases made with
  | deserialized bytes content read =>
    rw [serialized_of_deserialize read]
    exact ⟨content, read, ⟨rfl, rfl, rfl, rfl, rfl, rfl⟩⟩
  | new msgType sender contents contentHint groupId =>
    refine ⟨⟨(new msgType sender contents contentHint groupId).serialized, contents, sender,
      msgType, (contentHint.toProto.map fun raw => .fromU32 raw.toUInt32).getD .default,
      (proto msgType sender contents contentHint groupId).groupId⟩, ?_, ⟨rfl, rfl, rfl, rfl,
      toU32_readHint contentHint, getD_writtenGroup groupId⟩⟩
    unfold deserialize
    simp only [Result.bind_eq_ok, Result.okOr_eq_ok]
    refine ⟨_, lawful.decode_encode _, msgType, ?_, sender.serialized, rfl, contents, rfl,
      sender, sender.deserialize_serialized, rfl⟩
    exact msgType.ofProto_toProto

end UnidentifiedSenderMessageContent

end LegacySignal
