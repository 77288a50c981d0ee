import LegacySignal.Account.Login
import LegacySignal.Library.Steps
import LegacySignal.Protocol.Symbolic
import LegacySignal.Sealed.SentMessage

/-!
# Sending a message

`MessageSender` of the app. The devices of the recipient come from the prekeys
that the server returns, or from the stored sessions where the first device has
one; every device gets its own message. When the server answers that the
devices are not the right ones, the sessions that were used are deleted and
everything is tried once more. An exception anywhere ends the call.

`sendMessage` and the last step of `sendImageMessage` are the same loop written
twice. They differ in the content and in what they do with a stored delivery
certificate: only `sendMessage` looks whether it parses and has expired.

The server answers from a state of its own, and without reading the encrypted
contents. One clock value stands for all times that a call reads.
-/

namespace LegacySignal

structure PreKeyResponseItem where
  deviceId : Int32
  registrationId : Int32
  signedPreKey : Option (ECSignedPreKey String String)
  preKey : Option (PreKey String)
  pqPreKey : Option (KEMSignedPreKey String String)

structure PreKeyResponse where
  identityKey : String
  devices : List PreKeyResponseItem

structure DeliveryCertificateResponse where
  certificate : Option String

/-- What is not encrypted of a message to one device. -/
structure PushHeader where
  type : ℕ
  destinationDeviceId : Int32
  destinationRegistrationId : Int32
deriving DecidableEq

/-- The content before it is encoded in Base64. -/
inductive PushContent (P : Primitives) (Certificate : Type) where
  | sealed (certificate : Certificate) (message : CiphertextMessage P) (recipient : P.PublicKey)
  | session (message : CiphertextMessage P)

structure OutgoingPushMessage (P : Primitives) (Certificate : Type) where
  header : PushHeader
  content : PushContent P Certificate

structure OutgoingPushMessageList (Message : Type) where
  destination : String
  timestamp : ℤ
  messages : List Message
  online : Bool
  urgent : Bool

def OutgoingPushMessageList.map {Message Other : Type} (function : Message → Other)
    (list : OutgoingPushMessageList Message) : OutgoingPushMessageList Other :=
  { list with messages := list.messages.map function }

/-- How a call to the server ends; a failed one throws. -/
inductive Answer (Body : Type) where
  | failed
  | unsuccessful (code : ℕ)
  | successful (body : Option Body)

structure Server (State : Type) where
  getPreKeys : String → State → Answer PreKeyResponse × State
  getDeliveryCertificate : State → Answer DeliveryCertificateResponse × State
  sendMessage : OutgoingPushMessageList PushHeader → State → Answer Unit × State

/-- What a call does that can be seen from outside, or decides who can see what. -/
inductive SendEvent (Certificate Message : Type) where
  | getPreKeys (destination : String)
  | getDeliveryCertificate
  | useCertificate (certificate : Option Certificate)
  | sendMessage (list : OutgoingPushMessageList Message)
  | deleteSession (address : SignalProtocolAddress)

def SendEvent.map {Certificate Message Other : Type} (function : Message → Other) :
    SendEvent Certificate Message → SendEvent Certificate Other
  | .getPreKeys destination => .getPreKeys destination
  | .getDeliveryCertificate => .getDeliveryCertificate
  | .useCertificate certificate => .useCertificate certificate
  | .sendMessage list => .sendMessage (list.map function)
  | .deleteSession address => .deleteSession address

structure DataMessage (AttachmentPointer : Type) where
  timestamp : ℤ
  body : Option String
  profileKey : Option (List UInt8)
  attachments : List AttachmentPointer

/-- `paddedBytes` of both send calls: a new array, one byte longer, into which the content is
copied. -/
def MessageSender.paddedBytes (contentBytes : List UInt8) : List UInt8 :=
  (contentBytes ++ List.replicate 1 0).set contentBytes.length 0x80

theorem MessageSender.paddedBytes_eq (contentBytes : List UInt8) :
    paddedBytes contentBytes = contentBytes ++ [0x80] := by
  simp [paddedBytes]

/-- The formats of what is sent and fetched; `none` where a constructor throws. -/
structure SenderFormats (P : Primitives) where
  Certificate : Type
  AttachmentPointer : Type
  certificate : List UInt8 → Option Certificate
  expiration : Certificate → ℤ
  senderUuid : Certificate → String
  /-- `UUID.fromString` does not throw. -/
  isUuid : String → Bool
  publicKey : List UInt8 → Option P.PublicKey
  kemPublicKey : List UInt8 → Option P.KemPublicKey
  signature : List UInt8 → P.Signature
  /-- `paddedBytes` of a `Content` with the data message. -/
  paddedContent : DataMessage AttachmentPointer → P.Bytes

inductive SendException where
  | store (exception : StoreException)
  | protocol (error : SignalProtocolError)
  | network
  | nullPointer
  | invalidKey
  | illegalArgument (message : String)
  | illegalState (message : String)

/-- What ends a call before its last line. -/
inductive SendStop where
  | returned (sent : Bool)
  | thrown (exception : SendException)

structure DeviceDraws (P : Primitives) where
  bundle : BundleRandomness P
  message : P.Random

variable {P : Primitives}

/-- The state of a call: the store, the server, and what has happened so far. -/
structure SendState (formats : SignalFormats P) (sender : SenderFormats P) (Remote : Type) where
  store : AppStore formats
  server : Remote
  trace : List (SendEvent sender.Certificate (OutgoingPushMessage P sender.Certificate))

namespace MessageSender

open SharedPrefsStore

variable {formats : SignalFormats P} {sender : SenderFormats P} {Remote : Type}

abbrev Sends (formats : SignalFormats P) (sender : SenderFormats P) (Remote Value : Type) : Type :=
  Steps SendStop (SendState formats sender Remote) Value

def throwing {Value : Type} (exception : SendException) : Sends formats sender Remote Value :=
  Steps.stop (.thrown exception)

def ofResult {Value : Type} (result : Except SendException Value) :
    Sends formats sender Remote Value :=
  Steps.ofExcept (result.mapError .thrown)

def record (event : SendEvent sender.Certificate (OutgoingPushMessage P sender.Certificate)) :
    Sends formats sender Remote Unit := fun state =>
  (.ok (), { state with trace := state.trace ++ [event] })

def ask {Body : Type} (request : Remote → Answer Body × Remote) :
    Sends formats sender Remote (Answer Body) := fun state =>
  (.ok (request state.server).1, { state with server := (request state.server).2 })

def onStore {Value : Type}
    (operation : AppStore formats → Except SignalProtocolError Value × AppStore formats) :
    Sends formats sender Remote Value := fun state =>
  ((operation state.store).1.mapError fun error => .thrown (.protocol error),
    { state with store := (operation state.store).2 })

/-- `SignalProtocolAddress(name, deviceId)`; the constructor takes device ids from 1 to 127. -/
def signalProtocolAddress (name : String) (deviceId : Int32) :
    Except SendException SignalProtocolAddress :=
  if 1 ≤ deviceId ∧ deviceId ≤ 127 then .ok ⟨name, deviceId⟩
  else .error (.illegalArgument "invalid address")

/-- Arguments of type `u32` are not negative. -/
def nonNegative (value : Int32) : Except SendException UInt32 :=
  if 0 ≤ value then .ok value.toUInt32 else .error (.illegalArgument "integer overflow")

/-- Arguments of type `Option<u32>`: a negative number stands for none. -/
def optionalId (value : Int32) : Option UInt32 :=
  if 0 ≤ value then some value.toUInt32 else none

def decodeText (formats : SignalFormats P) (text : String) : Except SendException (List UInt8) :=
  Result.okOr (formats.base64.decode text) (.illegalArgument "bad base-64")

def decodePublicKey (formats : SignalFormats P) (sender : SenderFormats P) (text : String) :
    Except SendException P.PublicKey := do
  let bytes ← decodeText formats text
  Result.okOr (sender.publicKey bytes) .invalidKey

/-- The one-time prekey of `PreKeyBundle_New`, which needs both the key and its id. -/
def oneTimePreKey (preKeyId : Int32) (preKeyPublic : Option P.PublicKey) :
    Except SendException (Option (UInt32 × P.PublicKey)) :=
  match preKeyPublic, optionalId preKeyId with
  | none, none => .ok none
  | some key, some id => .ok (some (id, key))
  | _, _ =>
    .error (.illegalArgument "Must supply both or neither of prekey and prekey_id")

def preKeyBundle (formats : SignalFormats P) (sender : SenderFormats P)
    (response : PreKeyResponse) (device : PreKeyResponseItem) :
    Except SendException (PreKeyBundle P) := do
  let identityKey ← decodePublicKey formats sender response.identityKey
  let signedPreKey ← Result.okOr device.signedPreKey .nullPointer
  let signedPreKeyPublic ← decodePublicKey formats sender signedPreKey.publicKey
  let signedPreKeySignature ← decodeText formats signedPreKey.signature
  let preKeyPublic ← device.preKey.mapM fun preKey =>
    decodePublicKey formats sender preKey.publicKey
  let preKeyId := (device.preKey.map PreKey.keyId).getD 16777215
  let kyberPreKey ← Result.okOr device.pqPreKey (.illegalState "No kyber prekey for device")
  let kyberBytes ← decodeText formats kyberPreKey.publicKey
  let kyberKey ← Result.okOr (sender.kemPublicKey kyberBytes) .invalidKey
  let kyberSignature ← decodeText formats kyberPreKey.signature
  let registrationId ← nonNegative device.registrationId
  let signedPreKeyId ← nonNegative signedPreKey.keyId
  let kyberPreKeyId ← nonNegative kyberPreKey.keyId
  let preKey ← oneTimePreKey preKeyId preKeyPublic
  let _ ← signalProtocolAddress "" device.deviceId
  .ok
    { registrationId := registrationId
      preKeyId := preKey.map Prod.fst
      preKeyPublic := preKey.map Prod.snd
      signedPreKeyId := signedPreKeyId
      signedPreKeyPublic := signedPreKeyPublic
      signedPreKeySignature := sender.signature signedPreKeySignature
      identityKey := identityKey
      kyberPreKeyId := kyberPreKeyId
      kyberPreKeyPublic := kyberKey
      kyberPreKeySignature := sender.signature kyberSignature }

section call

variable (api : Server Remote) (now : ℕ) (destination : String)

def fetchPreKeys : Sends formats sender Remote PreKeyResponse := do
  record (.getPreKeys destination)
  match ← ask (api.getPreKeys destination) with
  | .failed => throwing .network
  | .successful (some response) => pure response
  | _ => Steps.stop (.returned false)

/-- The prekeys that an attempt works with: the second one always fetches them. -/
def preKeyResponse (attempt : ℕ) : Sends formats sender Remote (Option PreKeyResponse) := do
  let state ← Steps.get
  let hasSession := containsSession state.store.prefs ⟨destination, 1⟩
  if 1 < attempt ∨ hasSession = false then some <$> fetchPreKeys api destination
  else pure none

def activeDeviceIds (store : AppStore formats) : Option PreKeyResponse → List Int32
  | some response => response.devices.map PreKeyResponseItem.deviceId
  | none =>
    let sessions := getSubDeviceSessions formats.store store.prefs destination
    if sessions.isEmpty then [1] else sessions

def fetchCertificate : Sends formats sender Remote (Option (List UInt8)) := do
  record .getDeliveryCertificate
  match ← ask api.getDeliveryCertificate with
  | .failed => throwing .network
  | .unsuccessful _ => pure none
  | .successful body =>
    match body.bind DeliveryCertificateResponse.certificate with
    | none => pure none
    | some certB64 =>
      let certBytes ← ofResult (decodeText formats certB64)
      onStore fun store =>
        (.ok (some certBytes),
          ⟨saveDeliveryCertificate formats.store store.prefs certBytes⟩)

def storedCertificate : Sends formats sender Remote (Option (List UInt8)) := do
  let state ← Steps.get
  ofResult ((getDeliveryCertificate formats.store state.store.prefs).mapError .store)

def Expired (sender : SenderFormats P) (certificate : sender.Certificate) : Prop :=
  sender.expiration certificate < now

instance (certificate : sender.Certificate) : Decidable (Expired now sender certificate) :=
  inferInstanceAs (Decidable (_ < _))

/-- The test of `sendMessage`: the certificate parses and has not expired. -/
def isUsable (sender : SenderFormats P) (certBytes : List UInt8) : Bool :=
  match sender.certificate certBytes with
  | none => false
  | some certificate => ¬Expired now sender certificate

/-- `sendMessage` fetches a certificate where the stored one is not usable. -/
def textCertificate : Sends formats sender Remote (Option (List UInt8)) := do
  match (← storedCertificate).filter (isUsable now sender) with
  | some certBytes => pure (some certBytes)
  | none => fetchCertificate api

/-- `sendImageMessage` fetches a certificate only where none is stored. -/
def imageCertificate : Sends formats sender Remote (Option (List UInt8)) := do
  match ← storedCertificate with
  | some certBytes => pure (some certBytes)
  | none => fetchCertificate api

/-- The certificate of an attempt; bytes that do not parse give none. -/
def senderCertificate (certBytes : Option (List UInt8)) :
    Sends formats sender Remote (Option sender.Certificate) := do
  let certificate := certBytes.bind sender.certificate
  record (.useCertificate certificate)
  pure certificate

def nanoseconds : ℕ := now * 10 ^ 6

/-- Builds a missing session; false where the device is passed over. -/
def ensureSession (response : Option PreKeyResponse) (random : BundleRandomness P)
    (address : SignalProtocolAddress) : Sends formats sender Remote Bool := do
  let state ← Steps.get
  if containsSession state.store.prefs address then pure true
  else
    match response with
    | none => pure false
    | some response =>
      match response.devices.find? fun device => device.deviceId = address.deviceId with
      | none => pure false
      | some device =>
        let bundle ← ofResult (preKeyBundle formats sender response device)
        onStore fun store =>
          processPreKeyBundle store address bundle (nanoseconds now) random
        pure true

/-- The identities that a message is sealed with: the own one, which is only needed, and the one
of the recipient. -/
def sealingIdentity (address : SignalProtocolAddress) :
    Sends formats sender Remote P.PublicKey := do
  let state ← Steps.get
  let _ ← ofResult ((getIdentityKeyPair formats.store state.store.prefs).mapError .store)
  let identity ← ofResult ((getIdentity formats.store state.store.prefs address).mapError .store)
  ofResult (Result.okOr identity (.protocol (.sessionNotFound address)))

/-- The type and the content of the message to an address. -/
def encrypt (certificate : Option sender.Certificate) (content : P.Bytes) (random : P.Random)
    (address : SignalProtocolAddress) :
    Sends formats sender Remote (ℕ × PushContent P sender.Certificate) :=
  match certificate with
  | some certificate => do
      ofResult (Result.ensure (sender.isUuid (sender.senderUuid certificate))
        (.illegalArgument "Invalid UUID string"))
      let message ← onStore fun store =>
        messageEncrypt store address content (nanoseconds now) random
      let recipient ← sealingIdentity address
      pure (6, .sealed certificate message recipient)
  | none => do
      let message ← onStore fun store =>
        messageEncrypt store address content (nanoseconds now) random
      pure (if messageTypeOf message = .preKey then 3 else 1, .session message)

/-- Zero where the session cannot be read or has no current state. -/
def remoteRegistrationId (store : AppStore formats) (address : SignalProtocolAddress) : Int32 :=
  match loadSession formats.store store.prefs address with
  | .error _ => 0
  | .ok record => (SessionRecord.remoteRegistrationId record).elim 0 UInt32.toInt32

def pushMessage (response : Option PreKeyResponse) (certificate : Option sender.Certificate)
    (content : P.Bytes) (random : DeviceDraws P) (deviceId : Int32) :
    Sends formats sender Remote (Option (OutgoingPushMessage P sender.Certificate)) := do
  let address ← ofResult (signalProtocolAddress destination deviceId)
  if ← ensureSession now response random.bundle address then
    let (type, encrypted) ← encrypt now certificate content random.message address
    let state ← Steps.get
    pure (some ⟨⟨type, deviceId, remoteRegistrationId state.store address⟩, encrypted⟩)
  else pure none

def pushMessages (response : Option PreKeyResponse) (certificate : Option sender.Certificate)
    (content : P.Bytes) :
    (ℕ → DeviceDraws P) → List Int32 →
      Sends formats sender Remote (List (OutgoingPushMessage P sender.Certificate))
  | _, [] => pure []
  | random, deviceId :: rest => do
      let message ← pushMessage now destination response certificate content (random 0) deviceId
      let messages ← pushMessages response certificate content (fun number => random (number + 1))
        rest
      pure (message.toList ++ messages)

def deleteSessions : List Int32 → Sends formats sender Remote Unit
  | [] => pure ()
  | deviceId :: rest => do
      let address ← ofResult (signalProtocolAddress destination deviceId)
      record (.deleteSession address)
      onStore fun store => (.ok (), ProtocolStore.deleteSession store address)
      deleteSessions rest

/-- Sends the list; returns only if it is to be tried again. -/
def post (list : OutgoingPushMessageList (OutgoingPushMessage P sender.Certificate)) :
    Sends formats sender Remote Unit := do
  record (.sendMessage list)
  match ← ask (api.sendMessage (list.map OutgoingPushMessage.header)) with
  | .failed => throwing .network
  | .successful _ => Steps.stop (.returned true)
  | .unsuccessful code =>
    if code = 410 ∨ code = 409 then
      deleteSessions destination
        (list.messages.map fun message => message.header.destinationDeviceId)
    else Steps.stop (.returned false)

/-- An attempt once it has its devices and its certificate. -/
def sendToDevices (timestamp : ℤ) (content : P.Bytes) (random : ℕ → DeviceDraws P)
    (response : Option PreKeyResponse) (deviceIds : List Int32)
    (certificate : Option sender.Certificate) : Sends formats sender Remote Unit := do
  let messages ← pushMessages now destination response certificate content random deviceIds
  if messages.isEmpty then Steps.stop (.returned false)
  else post api destination ⟨destination, timestamp, messages, false, true⟩

/-- One attempt, with the way to get the certificate; returns only if another one is to follow. -/
def attempt (certificateBytes : Sends formats sender Remote (Option (List UInt8)))
    (timestamp : ℤ) (content : P.Bytes) (random : ℕ → DeviceDraws P) (number : ℕ) :
    Sends formats sender Remote Unit := do
  let response ← preKeyResponse api destination number
  let state ← Steps.get
  let deviceIds := activeDeviceIds destination state.store response
  let certBytes ← certificateBytes
  let certificate ← senderCertificate certBytes
  sendToDevices api now destination timestamp content random response deviceIds certificate

/-- The two attempts; returns only if both are used up. -/
def attempts (certificateBytes : Sends formats sender Remote (Option (List UInt8)))
    (timestamp : ℤ) (content : P.Bytes) (random : ℕ → ℕ → DeviceDraws P) :
    Sends formats sender Remote Unit := do
  attempt api now destination certificateBytes timestamp content (random 1) 1
  attempt api now destination certificateBytes timestamp content (random 2) 2

/-- What the call returns: an exception is caught, and then nothing was sent. -/
def wasSent : Except SendStop Unit → Bool
  | .error (.returned sent) => sent
  | _ => false

def deliver (certificateBytes : Sends formats sender Remote (Option (List UInt8)))
    (timestamp : ℤ) (content : P.Bytes) (random : ℕ → ℕ → DeviceDraws P)
    (state : SendState formats sender Remote) : Bool × SendState formats sender Remote :=
  let ended := attempts api now destination certificateBytes timestamp content random state
  (wasSent ended.1, ended.2)

def sendMessage (messageBody : String) (timestamp : ℤ) (profileKey : Option (List UInt8))
    (random : ℕ → ℕ → DeviceDraws P) (state : SendState formats sender Remote) :
    Bool × SendState formats sender Remote :=
  deliver api now destination (textCertificate api now) timestamp
    (sender.paddedContent ⟨timestamp, some messageBody, profileKey, []⟩) random state

/-- The last step of `sendImageMessage`, after the upload. -/
def sendImageMessage (pointer : sender.AttachmentPointer) (caption : String) (timestamp : ℤ)
    (profileKey : Option (List UInt8)) (random : ℕ → ℕ → DeviceDraws P)
    (state : SendState formats sender Remote) : Bool × SendState formats sender Remote :=
  deliver api now destination (imageCertificate api) timestamp
    (sender.paddedContent
      ⟨timestamp, if isBlank caption then none else some caption, profileKey, [pointer]⟩)
    random state

end call

end MessageSender

/-- Formats for the symbolic primitives: certificates are numbers of one byte, which say when they
expire. -/
def SenderFormats.symbolic : SenderFormats symbolic where
  Certificate := ℕ
  AttachmentPointer := Unit
  certificate := fun bytes => bytes.head?.map UInt8.toNat
  expiration := fun certificate => certificate
  senderUuid := fun _ => ""
  isUuid := fun _ => true
  publicKey := fun bytes => some bytes.length
  kemPublicKey := fun bytes => some bytes.length
  signature := fun _ => ((0, 0) : ℕ × ℕ)
  paddedContent := fun message => .plain (message.body.getD "").length

end LegacySignal
