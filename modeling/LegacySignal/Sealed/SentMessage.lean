import LegacySignal.Sealed.Cipher
import LegacySignal.Library.Chunks
import LegacySignal.Library.OrderedMap
import LegacySignal.Library.Varint

/-!
# Messages to several recipients

`sealed_sender_multi_recipient_encrypt` writes one message for all devices of
all recipients, and `SealedSenderV2SentMessage::parse` takes it apart into what
each recipient receives.

The addresses and their sessions are one list of pairs after the check that
there are as many of both. The bytes of keys and tags, and the protobuf form of
the first version, are parameters.
-/

namespace LegacySignal

open Result

def SEALED_SENDER_V1_MAJOR_VERSION : UInt8 := 1

def SEALED_SENDER_V2_MAJOR_VERSION : UInt8 := 2

def SEALED_SENDER_V2_UUID_FULL_VERSION : UInt8 := 0x22

def SEALED_SENDER_V2_SERVICE_ID_FULL_VERSION : UInt8 := 0x23

def VALID_REGISTRATION_ID_MASK : UInt16 := 0x3FFF

namespace SealedSenderV2

def MESSAGE_KEY_LEN : ℕ := 32

def AUTH_TAG_LEN : ℕ := 16

def PUBLIC_KEY_LEN : ℕ := 32

end SealedSenderV2

open SealedSenderV2

/-- How keys and tags stand in a message. -/
structure SealedWire (P : SealedPrimitives) where
  messageKeyBytes : P.Secret → List UInt8
  readMessageKey : List UInt8 → P.Secret
  tagBytes : P.Tag → List UInt8
  readTag : List UInt8 → P.Tag
  publicKeyBytes : P.PublicKey → List UInt8
  fromDjbPublicKeyBytes : List UInt8 → Option P.PublicKey
  decodeV1 : List UInt8 → Except SealedError (UnidentifiedSenderMessage P)

/-- The bytes have their fixed length and are read back. -/
structure SealedWire.Lawful {P : SealedPrimitives} (W : SealedWire P) : Prop where
  length_messageKeyBytes (key : P.Secret) : (W.messageKeyBytes key).length = MESSAGE_KEY_LEN
  length_tagBytes (tag : P.Tag) : (W.tagBytes tag).length = AUTH_TAG_LEN
  length_publicKeyBytes (key : P.PublicKey) : (W.publicKeyBytes key).length = PUBLIC_KEY_LEN
  readMessageKey_bytes (key : P.Secret) : W.readMessageKey (W.messageKeyBytes key) = key
  readTag_bytes (tag : P.Tag) : W.readTag (W.tagBytes tag) = tag
  fromDjbPublicKeyBytes_bytes (key : P.PublicKey) :
    W.fromDjbPublicKeyBytes (W.publicKeyBytes key) = some key

variable {P : SealedPrimitives} {F : SealedFormat P} {Q : Primitives}

section receiving

/-- `UnidentifiedSenderMessage::deserialize`. Version 0 is read as the first version. -/
def UnidentifiedSenderMessage.deserialize (W : SealedWire P) :
    List UInt8 → Except SealedError (UnidentifiedSenderMessage P)
  | [] => .error (.invalidSealedSenderMessage "Message was empty")
  | versionByte :: remaining =>
    let version := versionByte >>> 4
    if version = 0 ∨ version = SEALED_SENDER_V1_MAJOR_VERSION then W.decodeV1 remaining
    else if version = SEALED_SENDER_V2_MAJOR_VERSION then do
      ensure (MESSAGE_KEY_LEN + AUTH_TAG_LEN + PUBLIC_KEY_LEN ≤ remaining.length)
        .invalidProtobufEncoding
      let encryptedMessageKey := remaining.take MESSAGE_KEY_LEN
      let afterKey := remaining.drop MESSAGE_KEY_LEN
      let authenticationTag := afterKey.take AUTH_TAG_LEN
      let afterTag := afterKey.drop AUTH_TAG_LEN
      let ephemeralPublic ← okOr
        (W.fromDjbPublicKeyBytes (afterTag.take PUBLIC_KEY_LEN)) .invalidPublicKey
      return .v2 ephemeralPublic (W.readMessageKey encryptedMessageKey)
        (W.readTag authenticationTag) (afterTag.drop PUBLIC_KEY_LEN)
    else .error (.unknownSealedSenderVersion version)

def sealedSenderDecryptToUsmc (W : SealedWire P) (F : SealedFormat P) (ciphertext : List UInt8)
    (ourIdentity : P.PrivateKey) : Except SealedError (UnidentifiedSenderMessageContent F) := do
  let message ← UnidentifiedSenderMessage.deserialize W ciphertext
  message.decryptToUsmc F ourIdentity

end receiving

def SessionRecord.remoteRegistrationId (record : SessionRecord Q) : Option UInt32 :=
  record.currentSession.map (·.remoteRegistrationId)

section sending

def toBeBytes (value : UInt16) : List UInt8 :=
  [UInt8.ofNat (value.toNat / 256), UInt8.ofNat (value.toNat % 256)]

/-- The devices of one recipient. All but the last have the bit for more devices set. -/
def serializeDevices :
    List (ProtocolAddress × SessionRecord Q) → Except SealedError (List UInt8)
  | [] => .ok []
  | (destination, session) :: rest => do
      let theirRegistrationId ← okOr session.remoteRegistrationId
        (.invalidState "sealed_sender_multi_recipient_encrypt"
          ("cannot get registration ID from session with " ++ destination.text ++
            " (maybe it was recently archived)"))
      ensure
        (theirRegistrationId &&& VALID_REGISTRATION_ID_MASK.toUInt32 = theirRegistrationId)
        (.invalidRegistrationId destination theirRegistrationId)
      let registrationId := if rest.isEmpty then theirRegistrationId.toUInt16
        else theirRegistrationId.toUInt16 ||| 0x8000
      let others ← serializeDevices rest
      return destination.deviceId.value :: toBeBytes registrationId ++ others

/-- A run of destinations of one name with the identity key of that name. -/
abbrev RecipientGroup (P : SealedPrimitives) (Q : Primitives) : Type :=
  P.PublicKey × (ProtocolAddress × SessionRecord Q) × List (ProtocolAddress × SessionRecord Q)

def keyMaterial (W : SealedWire P) (ourIdentity : P.PrivateKey) (m : P.Secret)
    (theirIdentity : P.PublicKey) : List UInt8 :=
  W.messageKeyBytes (encryptedMessageKey m theirIdentity) ++
    W.tagBytes (authenticationTag ourIdentity m theirIdentity)

def serializeRecipientDestinations (W : SealedWire P) (ourIdentity : P.PrivateKey) (m : P.Secret)
    (group : RecipientGroup P Q) : Except SealedError (List UInt8) := do
  let (theirIdentity, first, others) := group
  let theirServiceId ← okOr (ServiceId.parseFromServiceIdString first.1.name)
    (.invalidArgument ("multi-recipient sealed sender requires recipients' ServiceId (not " ++
      first.1.name ++ ")"))
  let devices ← serializeDevices (first :: others)
  return theirServiceId.serviceIdFixedWidthBinary ++ devices ++
    keyMaterial W ourIdentity m theirIdentity

/-- The key of each run is asked for its first address. -/
def identityKeysAndRanges (store : IdentityKeys P)
    (destinations : List (ProtocolAddress × SessionRecord Q)) :
    Except SealedError (List (RecipientGroup P Q)) :=
  (Chunks.chunkBy (·.1.name) destinations).mapM fun group => do
    let theirIdentity ← okOr (store.getIdentity group.1.1) (.sessionNotFound group.1.1)
    return (theirIdentity, group)

def processChunk (W : SealedWire P) (ourIdentity : P.PrivateKey) (m : P.Secret) :
    List (RecipientGroup P Q) → Except SealedError (List UInt8) :=
  Chunks.concatM (serializeRecipientDestinations W ourIdentity m)

/-- The first chunk is processed on the current thread, the others on their own ones. The
outputs of these are put together once all are done. -/
def serializeRecipients (W : SealedWire P) (ourIdentity : P.PrivateKey) (m : P.Secret)
    (parallelism : ℕ) (groups : List (RecipientGroup P Q)) : Except SealedError (List UInt8) :=
  let chunkSize := max 6 ((groups.length + parallelism - 1) / parallelism)
  if parallelism = 1 ∨ groups.length ≤ chunkSize then processChunk W ourIdentity m groups
  else
    match groups.toChunks chunkSize with
    | [] => .ok []
    | firstChunk :: chunks => do
        let allOutputs := chunks.map (processChunk W ourIdentity m)
        let serialized ← processChunk W ourIdentity m firstChunk
        allOutputs.foldlM
          (fun serialized output => do
            let bytes ← output
            return serialized ++ bytes)
          serialized

def sealedSenderMultiRecipientEncrypt (W : SealedWire P) (destinations : List ProtocolAddress)
    (destinationSessions : List (SessionRecord Q)) (excludedRecipients : List ServiceId)
    (usmc : UnidentifiedSenderMessageContent F) (store : IdentityKeys P) (m : P.Secret)
    (parallelism : ℕ) : Except SealedError (List UInt8) := do
  ensure (destinations.length = destinationSessions.length)
    (.invalidArgument "must have the same number of destination sessions as addresses")
  let groups ← identityKeysAndRanges store (destinations.zip destinationSessions)
  let recipients ← serializeRecipients W store.ourIdentity m parallelism groups
  let countOfRecipients := groups.length + excludedRecipients.length
  return SEALED_SENDER_V2_SERVICE_ID_FULL_VERSION :: Varint.encode countOfRecipients ++
    recipients ++ excludedRecipients.flatMap (fun id => id.serviceIdFixedWidthBinary ++ [0]) ++
    W.publicKeyBytes (P.publicKey (deriveE m)) ++ SealedSenderV2.ciphertext m usmc

end sending

/-- `SealedSenderV2SentMessageRecipient`; without devices there is no key material. -/
structure SentMessageRecipient where
  devices : List (DeviceId × UInt16)
  cAndAt : List UInt8
deriving DecidableEq, Repr

structure SealedSenderV2SentMessage where
  fullMessage : List UInt8
  version : UInt8
  recipients : List (ServiceId × SentMessageRecipient)
  sharedBytes : List UInt8
deriving DecidableEq, Repr

namespace SealedSenderV2SentMessage

def advance (count : ℕ) (bytes : List UInt8) : Except SealedError (List UInt8 × List UInt8) := do
  ensure (count ≤ bytes.length) .invalidProtobufEncoding
  return (bytes.take count, bytes.drop count)

/-- The count must fit 32 bits. Skipped is what the count takes when it is written. -/
def decodeVarint (bytes : List UInt8) : Except SealedError (ℕ × List UInt8) := do
  let result ← okOr (Varint.decode bytes) .invalidProtobufEncoding
  ensure (result < 2 ^ 32) .invalidProtobufEncoding
  return (result, bytes.drop (Varint.encode result).length)

def fromBeBytes (high low : UInt8) : UInt16 :=
  UInt16.ofNat (high.toNat * 256 + low.toNat)

def parseDevices : List UInt8 → List (DeviceId × UInt16) →
    Except SealedError (List (DeviceId × UInt16) × List UInt8)
  | [], _ => .error .invalidProtobufEncoding
  | deviceByte :: remaining, devices =>
    if deviceByte = 0 then do
      ensure (devices.isEmpty = true) .invalidProtobufEncoding
      return (devices, remaining)
    else
      match DeviceId.new deviceByte, remaining with
      | some deviceId, high :: low :: rest =>
        let registrationIdAndHasMore := fromBeBytes high low
        let found :=
          devices ++ [(deviceId, registrationIdAndHasMore &&& VALID_REGISTRATION_ID_MASK)]
        if registrationIdAndHasMore &&& 0x8000 ≠ 0 then parseDevices rest found
        else .ok (found, rest)
      | _, _ => .error .invalidProtobufEncoding

/-- The older version has the UUID of an ACI only. -/
def parseServiceId (version : UInt8) (remaining : List UInt8) :
    Except SealedError (ServiceId × List UInt8) :=
  if version = SEALED_SENDER_V2_UUID_FULL_VERSION then do
    let (bytes, rest) ← advance 16 remaining
    let uuid ← okOr (UuidBytes.fromSlice bytes) .invalidProtobufEncoding
    return (.aci uuid, rest)
  else do
    let (bytes, rest) ← advance 17 remaining
    let id ← okOr (ServiceId.parseFromServiceIdFixedWidthBinary bytes)
      .invalidProtobufEncoding
    return (id, rest)

def parseRecipient (version : UInt8) (remaining : List UInt8) :
    Except SealedError ((ServiceId × SentMessageRecipient) × List UInt8) := do
  let (serviceId, afterId) ← parseServiceId version remaining
  let (devices, afterDevices) ← parseDevices afterId []
  if devices.isEmpty then return ((serviceId, ⟨devices, []⟩), afterDevices)
  else do
    let (cAndAt, rest) ← advance (MESSAGE_KEY_LEN + AUTH_TAG_LEN) afterDevices
    return ((serviceId, ⟨devices, cAndAt⟩), rest)

/-- A recipient that comes again keeps the key material from the first time. -/
def mergeRecipient (existing found : SentMessageRecipient) :
    Except SealedError SentMessageRecipient :=
  if existing.devices.isEmpty ∨ found.devices.isEmpty then
    .error (.invalidSealedSenderMessage "recipient redundantly encoded as empty")
  else .ok ⟨existing.devices ++ found.devices, existing.cAndAt⟩

def parseRecipients (version : UInt8) : ℕ → List UInt8 → List (ServiceId × SentMessageRecipient) →
    Except SealedError (List (ServiceId × SentMessageRecipient) × List UInt8)
  | 0, remaining, recipients => .ok (recipients, remaining)
  | count + 1, remaining, recipients => do
      let (found, rest) ← parseRecipient version remaining
      let merged ← OrderedMap.insert mergeRecipient recipients found.1 found.2
      parseRecipients version count rest merged

def parse : List UInt8 → Except SealedError SealedSenderV2SentMessage
  | [] => .error (.invalidSealedSenderMessage "Message was empty")
  | version :: body => do
      ensure (version = SEALED_SENDER_V2_UUID_FULL_VERSION ∨
        version = SEALED_SENDER_V2_SERVICE_ID_FULL_VERSION) (.unknownSealedSenderVersion version)
      let (recipientCount, afterCount) ← decodeVarint body
      let (recipients, remaining) ← parseRecipients version recipientCount afterCount []
      ensure (PUBLIC_KEY_LEN ≤ remaining.length) .invalidProtobufEncoding
      return ⟨version :: body, version, recipients, remaining⟩

/-- The version is the older one, which received messages still have. -/
def receivedMessagePartsForRecipient (message : SealedSenderV2SentMessage)
    (recipient : SentMessageRecipient) : List (List UInt8) :=
  [[SEALED_SENDER_V2_UUID_FULL_VERSION], recipient.cAndAt, message.sharedBytes]

/-- The shared bytes end where the message ends. -/
def offsetOfSharedBytes (message : SealedSenderV2SentMessage) : ℕ :=
  message.fullMessage.length - message.sharedBytes.length

end SealedSenderV2SentMessage

end LegacySignal
