import LegacySignal.Data.AttachmentCipher
import LegacySignal.Sealed.ServiceId
import LegacySignal.Send.MessageSender
import LegacySignal.Sync.Handler

/-!
# From the envelope to the incoming message

`decryptMessage` opens an envelope and answers with one text: the body of a data message, or a
text in square brackets that says why there is none. The handler then tries to download an
attachment and turns to the database. The ciphers and the parser of the content are parameters
here, as are the answers of the content servers and of the file system.
-/

namespace LegacySignal

namespace SignalServiceProtos

/-- `attachment_identifier`; the number prints as a signed one. -/
inductive AttachmentIdentifier where
  | cdnId (id : ℤ)
  | cdnKey (key : String)
deriving DecidableEq, Repr

/-- The fields of an attachment that the handler reads; a missing key is empty. -/
structure AttachmentPointer where
  key : List UInt8 := []
  identifier : Option AttachmentIdentifier := none
  cdnNumber : Option ℤ := none
deriving DecidableEq, Repr

structure DataMessage where
  body : Option String := none
  profileKey : Option (List UInt8) := none
  attachments : List AttachmentPointer := []
deriving DecidableEq, Repr

structure Content where
  dataMessage : Option DataMessage
deriving DecidableEq, Repr

inductive EnvelopeType where
  | unknown
  | doubleRatchet
  | prekeyMessage
  | serverDeliveryReceipt
  | unidentifiedSender
  | plaintextContent
deriving DecidableEq, Repr

structure Envelope where
  type : EnvelopeType
  sourceServiceId : Option String := none
  sourceServiceIdBinary : Option (List UInt8) := none
  sourceDeviceId : Option ℤ := none
  content : List UInt8
deriving DecidableEq, Repr

end SignalServiceProtos

open SignalServiceProtos (AttachmentPointer Content Envelope)

structure DecryptedMessage where
  senderId : String
  body : String
  profileKey : Option (List UInt8) := none
  attachments : List AttachmentPointer := []
deriving DecidableEq, Repr

/-- The ciphers over the store as it is when the envelope comes, and `Content.parseFrom`; a
call that throws has no value. -/
structure MessageCiphers where
  /-- `SessionCipher.decrypt` of a `PreKeySignalMessage` from a sender and a device. -/
  decryptPreKeyMessage : String → ℤ → List UInt8 → Option (List UInt8)
  /-- `SessionCipher.decrypt` of a `SignalMessage`. -/
  decryptSignalMessage : String → ℤ → List UInt8 → Option (List UInt8)
  /-- `SealedSessionCipher.decrypt`, with the sender that it names. -/
  decryptSealed : List UInt8 → Option (String × List UInt8)
  parseFrom : List UInt8 → Option Content

/-- What the `when` over the type of the envelope ends with. -/
inductive Opened where
  | answered (message : DecryptedMessage)
  | plaintext (senderId : String) (plaintextBytes : List UInt8)
  | threw
deriving DecidableEq, Repr

namespace MessageReceiver

def getSourceUuid (envelope : Envelope) : Option String :=
  match envelope.sourceServiceId with
  | some sourceServiceId => some sourceServiceId
  | none =>
    match envelope.sourceServiceIdBinary with
    | some bytes => (UuidBytes.fromSlice bytes).map fun uuid => String.ofList uuid.format
    | none => none

def missingSource : DecryptedMessage where
  senderId := "Unknown"
  body := "[Missing Source ID]"

def openFromSource (decrypt : String → ℤ → List UInt8 → Option (List UInt8))
    (envelope : Envelope) : Opened :=
  match getSourceUuid envelope with
  | none => .answered missingSource
  | some senderId =>
    match decrypt senderId (envelope.sourceDeviceId.getD 1) envelope.content with
    | none => .threw
    | some plaintextBytes => .plaintext senderId plaintextBytes

def openEnvelope (ciphers : MessageCiphers) (envelope : Envelope) : Opened :=
  match envelope.type with
  | .prekeyMessage => openFromSource ciphers.decryptPreKeyMessage envelope
  | .doubleRatchet => openFromSource ciphers.decryptSignalMessage envelope
  | .unidentifiedSender =>
    match ciphers.decryptSealed envelope.content with
    | none => .threw
    | some (senderId, plaintextBytes) => .plaintext senderId plaintextBytes
  | .serverDeliveryReceipt =>
    .answered { senderId := (getSourceUuid envelope).getD "Unknown", body := "[Receipt]" }
  | .unknown | .plaintextContent =>
    .answered { senderId := (getSourceUuid envelope).getD "Unknown"
                body := "[Unsupported Message Type]" }

/-- The loop over the zeros at the end of the first `length` bytes. -/
def skipZeros (plaintextBytes : List UInt8) : ℕ → ℕ
  | 0 => 0
  | length + 1 =>
    if plaintextBytes[length]? = some 0 then skipZeros plaintextBytes length else length + 1

def unpaddedLen (plaintextBytes : List UInt8) : ℕ :=
  match skipZeros plaintextBytes plaintextBytes.length with
  | 0 => 0
  | length + 1 => if plaintextBytes[length]? = some 0x80 then length else length + 1

/-- Bytes that do not parse without their padding are parsed as they came. -/
def readContent (ciphers : MessageCiphers) (plaintextBytes : List UInt8) : Option Content :=
  match ciphers.parseFrom (plaintextBytes.take (unpaddedLen plaintextBytes)) with
  | some content => some content
  | none => ciphers.parseFrom plaintextBytes

def ofDataMessage (senderId : String) (dataMessage : SignalServiceProtos.DataMessage) :
    DecryptedMessage where
  senderId := senderId
  body :=
    if isNullOrEmpty dataMessage.body then
      if dataMessage.attachments.isEmpty then "[No Body/Receipt]" else "[Attachment]"
    else dataMessage.body.getD ""
  profileKey := dataMessage.profileKey.filter fun keyBytes => keyBytes.length = 32
  attachments := dataMessage.attachments

def ofContent (senderId : String) (content : Content) : DecryptedMessage :=
  match content.dataMessage with
  | some dataMessage => ofDataMessage senderId dataMessage
  | none => { senderId, body := "[No Data Message]" }

def decryptMessage (ciphers : MessageCiphers) (envelope : Envelope) : DecryptedMessage :=
  match openEnvelope ciphers envelope with
  | .answered message => message
  | .threw =>
    { senderId := (getSourceUuid envelope).getD "Unknown", body := "[Decryption Failed]" }
  | .plaintext senderId plaintextBytes =>
    match readContent ciphers plaintextBytes with
    | none => { senderId, body := "[Decryption Failed]" }
    | some content => ofContent senderId content

/-- The envelope decrypts, and what it holds is this data message. -/
def Carries (ciphers : MessageCiphers) (envelope : Envelope) (senderId : String)
    (dataMessage : SignalServiceProtos.DataMessage) : Prop :=
  ∃ plaintextBytes, openEnvelope ciphers envelope = .plaintext senderId plaintextBytes ∧
    readContent ciphers plaintextBytes = some ⟨some dataMessage⟩

variable {ciphers : MessageCiphers} {dataMessage : SignalServiceProtos.DataMessage}

theorem decryptMessage_of_carries {envelope : Envelope} {senderId : String}
    (carries : Carries ciphers envelope senderId dataMessage) :
    decryptMessage ciphers envelope = ofDataMessage senderId dataMessage := by
  obtain ⟨plaintextBytes, opened, read⟩ := carries
  rw [decryptMessage, opened]
  dsimp only
  rw [read]
  rfl

theorem ofDataMessage_body {body : String} (senderId : String) (text : dataMessage.body = some body)
    (notEmpty : body ≠ "") :
    (ofDataMessage senderId dataMessage).body = body := by
  simp [ofDataMessage, text, isNullOrEmpty, notEmpty]

theorem skipZeros_append_replicate (bytes : List UInt8) (last : UInt8) (count : ℕ)
    (nonzero : last ≠ 0) :
    skipZeros (bytes ++ last :: List.replicate count 0) (bytes.length + 1 + count) =
      bytes.length + 1 := by
  have zeros : ∀ more, more ≤ count →
      skipZeros (bytes ++ last :: List.replicate count 0) (bytes.length + 1 + more) =
        bytes.length + 1 := by
    intro more
    induction more with
    | zero => simp [skipZeros, nonzero]
    | succ more ih =>
      intro small
      have zero : (bytes ++ last :: List.replicate count 0)[bytes.length + 1 + more]? =
          some 0 := by
        rw [List.getElem?_append_right (by omega),
          show bytes.length + 1 + more - bytes.length = more + 1 by omega,
          List.getElem?_cons_succ, List.getElem?_replicate, if_pos (by omega)]
      rw [show bytes.length + 1 + (more + 1) = bytes.length + 1 + more + 1 by omega, skipZeros,
        if_pos zero]
      exact ih (by omega)
  exact zeros count (Nat.le_refl count)

theorem unpaddedLen_padded (content : List UInt8) (count : ℕ) :
    unpaddedLen (content ++ 0x80 :: List.replicate count 0) = content.length := by
  have length : (content ++ 0x80 :: List.replicate count 0).length =
      content.length + 1 + count := by
    simp
    omega
  rw [unpaddedLen, length, skipZeros_append_replicate content 0x80 count (by decide)]
  simp

/-- Whatever the content ends in, taking the padding away gives it back. -/
theorem take_unpaddedLen_padded (content : List UInt8) :
    (∀ count, (content ++ 0x80 :: List.replicate count 0).take
        (unpaddedLen (content ++ 0x80 :: List.replicate count 0)) = content) ∧
      (MessageSender.paddedBytes content).take
        (unpaddedLen (MessageSender.paddedBytes content)) = content := by
  have removed : ∀ count, (content ++ 0x80 :: List.replicate count 0).take
      (unpaddedLen (content ++ 0x80 :: List.replicate count 0)) = content := by
    intro count
    rw [unpaddedLen_padded, List.take_left]
  refine ⟨removed, ?_⟩
  rw [MessageSender.paddedBytes_eq]
  exact removed 0

end MessageReceiver

namespace SignalServiceProtos.AttachmentPointer

/-- The addresses under which an attachment may lie, in the order they are tried. -/
def urlsToTry (attachment : AttachmentPointer) : List String :=
  let cdnNum := toString (attachment.cdnNumber.getD 2)
  match attachment.identifier with
  | none => []
  | some (.cdnKey key) =>
    if isBlank key then []
    else
      ["https://cdn" ++ cdnNum ++ ".signal.org/attachments/" ++ key,
        "https://cdn2.signal.org/attachments/" ++ key,
        "https://cdn.signal.org/attachments/" ++ key,
        "https://cdn3.signal.org/attachments/" ++ key,
        "https://cdn2.signal.org/" ++ key,
        "https://cdn.signal.org/" ++ key]
  | some (.cdnId id) =>
    ["https://cdn" ++ cdnNum ++ ".signal.org/attachments/" ++ toString id,
      "https://cdn2.signal.org/attachments/" ++ toString id,
      "https://cdn.signal.org/attachments/" ++ toString id,
      "https://chat.signal.org/v1/attachments/" ++ toString id]

end SignalServiceProtos.AttachmentPointer

structure CdnResponse where
  isSuccessful : Bool
  /-- The body, if there is one; its bytes have no value when reading them throws. -/
  body : Option (Option (List UInt8))
deriving DecidableEq, Repr

def CdnResponse.hasContent (response : CdnResponse) : Bool :=
  response.isSuccessful && response.body.isSome

/-- The answers to the attempts of one handler. An attempt is numbered by the attachment and by
the address, since the same address can be tried twice; a call that throws has no value. -/
structure Downloads where
  /-- A request for an address, with or without the account's credentials. -/
  execute : ℕ → ℕ → String → Bool → Option CdnResponse
  /-- The path of the file that the decrypted bytes were written to. -/
  save : ℕ → ℕ → List UInt8 → Option String

namespace Downloads

variable (C : AttachmentPrimitives) (downloads : Downloads)

/-- The answer without credentials counts if it has content, else the one with them. -/
def response (attachmentNumber urlNumber : ℕ) (url : String) : Option CdnResponse :=
  match downloads.execute attachmentNumber urlNumber url false with
  | none => none
  | some response =>
    if response.hasContent then some response
    else downloads.execute attachmentNumber urlNumber url true

def attempt (keyBytes : List UInt8) (attachmentNumber urlNumber : ℕ) (url : String) :
    Option String := do
  let response ← downloads.response attachmentNumber urlNumber url
  guard response.hasContent
  let encBytes ← response.body.join
  let decBytes ← (AttachmentCipher.decrypt C encBytes keyBytes).1.toOption
  downloads.save attachmentNumber urlNumber decBytes

def downloadAttachment (attachmentNumber : ℕ) (attachment : AttachmentPointer) :
    Option String :=
  if attachment.key.isEmpty then none
  else
    attachment.urlsToTry.zipIdx.findSome? fun (url, urlNumber) =>
      downloads.attempt C attachment.key attachmentNumber urlNumber url

/-- The first attachment that can be had. -/
def downloadedImagePath (attachments : List AttachmentPointer) : Option String :=
  attachments.zipIdx.findSome? fun (attachment, attachmentNumber) =>
    downloads.downloadAttachment C attachmentNumber attachment

def Succeeds (attachments : List AttachmentPointer) : Prop :=
  ∃ attachment attachmentNumber url urlNumber,
    attachments[attachmentNumber]? = some attachment ∧ attachment.key ≠ [] ∧
      attachment.urlsToTry[urlNumber]? = some url ∧
        downloads.attempt C attachment.key attachmentNumber urlNumber url ≠ none

variable {C downloads}

theorem downloadAttachment_ne_none_iff {attachmentNumber : ℕ} {attachment : AttachmentPointer} :
    downloads.downloadAttachment C attachmentNumber attachment ≠ none ↔
      attachment.key ≠ [] ∧ ∃ url urlNumber, attachment.urlsToTry[urlNumber]? = some url ∧
        downloads.attempt C attachment.key attachmentNumber urlNumber url ≠ none := by
  by_cases empty : attachment.key = []
  · simp [downloadAttachment, empty]
  · rw [downloadAttachment, if_neg (by simpa using empty), Ne, List.findSome?_eq_none_iff]
    simp [List.mem_zipIdx_iff_getElem?, empty]

theorem downloadedImagePath_ne_none_iff {attachments : List AttachmentPointer} :
    downloads.downloadedImagePath C attachments ≠ none ↔ downloads.Succeeds C attachments := by
  rw [downloadedImagePath, Ne, List.findSome?_eq_none_iff, Succeeds]
  push Not
  simp only [Prod.exists, List.mem_zipIdx_iff_getElem?, downloadAttachment_ne_none_iff]
  constructor
  · rintro ⟨attachment, attachmentNumber, found, key, url, urlNumber, listed, success⟩
    exact ⟨attachment, attachmentNumber, url, urlNumber, found, key, listed, success⟩
  · rintro ⟨attachment, attachmentNumber, url, urlNumber, found, key, listed, success⟩
    exact ⟨attachment, attachmentNumber, found, key, url, urlNumber, listed, success⟩

end Downloads

/-- What the handler has in its variables when it turns to the database. -/
def Incoming.ofDecrypted (C : AttachmentPrimitives) (downloads : Downloads)
    (decrypted : DecryptedMessage) : Incoming where
  senderId := decrypted.senderId
  plaintext := decrypted.body
  profileKey := decrypted.profileKey
  downloadedImagePath := downloads.downloadedImagePath C decrypted.attachments

end LegacySignal
