import LegacySignal.Data.Base64
import LegacySignal.Store.Keys

/-!
# The protocol store of the app

`SharedPrefsSignalProtocolStore` keeps the own keys, the identities, the
prekeys and the sessions in the shared preferences, each serialised and then
encoded in Base64. The formats of the records belong to libsignal; what the
store relies on is that a serialised record can be read back.
-/

namespace LegacySignal

open StoreKey

/-- How records of one type are written to bytes and read back, none where reading throws. -/
structure RecordFormat (Record : Type) where
  serialize : Record → List UInt8
  deserialize : List UInt8 → Option Record
  deserialize_serialize : ∀ record, deserialize (serialize record) = some record

/-- The record types and what the platform does for the store. -/
structure StoreFormats where
  IdentityKeyPair : Type
  IdentityKey : Type
  PreKeyRecord : Type
  SessionRecord : Type
  SignedPreKeyRecord : Type
  KyberPreKeyRecord : Type
  identityKeyPair : RecordFormat IdentityKeyPair
  identityKey : RecordFormat IdentityKey
  preKeyRecord : RecordFormat PreKeyRecord
  sessionRecord : RecordFormat SessionRecord
  signedPreKeyRecord : RecordFormat SignedPreKeyRecord
  kyberPreKeyRecord : RecordFormat KyberPreKeyRecord
  freshSession : SessionRecord
  base64 : Base64
  otherDigit : Char → Option ℕ

inductive PreferenceValue where
  | string (text : String)
  | int (value : Int32)
deriving DecidableEq, Repr

inductive StoreException where
  | classCast
  | illegalArgument
  | invalidRecord
  | invalidKeyId (message : String)
  | unsupportedOperation (message : String)
deriving DecidableEq, Repr

inductive IdentityChange where
  | newOrUnchanged
  | replacedExisting
deriving DecidableEq, Repr

inductive Direction where
  | sending
  | receiving
deriving DecidableEq, Repr

/-- `SharedPreferences`; an entry that is put again goes to the front. -/
abbrev Preferences := AList fun _ : String => PreferenceValue

namespace Preferences

def getString (prefs : Preferences) (key : String) : Except StoreException (Option String) :=
  match prefs.lookup key with
  | none => .ok none
  | some (.string text) => .ok (some text)
  | some (.int _) => .error .classCast

def getInt (prefs : Preferences) (key : String) (default : Int32) : Except StoreException Int32 :=
  match prefs.lookup key with
  | none => .ok default
  | some (.int value) => .ok value
  | some (.string _) => .error .classCast

def contains (prefs : Preferences) (key : String) : Bool :=
  key ∈ prefs

end Preferences

namespace SharedPrefsStore

variable (formats : StoreFormats)

/-- `Base64.encodeToString(record.serialize(), Base64.NO_WRAP)` as a preference. -/
def encode {Record : Type} (format : RecordFormat Record) (record : Record) : PreferenceValue :=
  .string (formats.base64.encodeToString (format.serialize record))

/-- `Base64.decode`, then the constructor of the record. -/
def decode {Record : Type} (format : RecordFormat Record) (b64 : String) :
    Except StoreException Record :=
  match formats.base64.decode b64 with
  | none => .error .illegalArgument
  | some bytes =>
    match format.deserialize bytes with
    | none => .error .invalidRecord
    | some record => .ok record

def loadRecord {Record : Type} (format : RecordFormat Record) (message : String)
    (prefs : Preferences) (key : StoreKey) : Except StoreException Record :=
  match prefs.getString key.text with
  | .error exception => .error exception
  | .ok none => .error (.invalidKeyId message)
  | .ok (some b64) => decode formats format b64

def getIdentityKeyPair (prefs : Preferences) : Except StoreException formats.IdentityKeyPair :=
  match prefs.getString identityKeyPair.text with
  | .error exception => .error exception
  | .ok stored => decode formats formats.identityKeyPair (stored.getD "")

def saveIdentityKeyPair (prefs : Preferences) (pair : formats.IdentityKeyPair) : Preferences :=
  prefs.insert identityKeyPair.text (encode formats formats.identityKeyPair pair)

def getLocalRegistrationId (prefs : Preferences) : Except StoreException Int32 :=
  prefs.getInt localRegistrationId.text 0

def saveLocalRegistrationId (prefs : Preferences) (registrationId : Int32) : Preferences :=
  prefs.insert localRegistrationId.text (.int registrationId)

def saveDeliveryCertificate (prefs : Preferences) (certBytes : List UInt8) : Preferences :=
  prefs.insert deliveryCertificate.text
    (.string (formats.base64.encodeToString certBytes))

def getDeliveryCertificate (prefs : Preferences) :
    Except StoreException (Option (List UInt8)) :=
  match prefs.getString deliveryCertificate.text with
  | .error exception => .error exception
  | .ok none => .ok none
  | .ok (some b64) =>
    match formats.base64.decode b64 with
    | none => .error .illegalArgument
    | some bytes => .ok (some bytes)

/-- A replaced identity is not reported. -/
def saveIdentity (prefs : Preferences) (address : SignalProtocolAddress)
    (identityKey : formats.IdentityKey) : IdentityChange × Preferences :=
  (.newOrUnchanged, prefs.insert (identity address.name).text
    (encode formats formats.identityKey identityKey))

def isTrustedIdentity (_prefs : Preferences) (_address : SignalProtocolAddress)
    (_identityKey : formats.IdentityKey) (_direction : Direction) : Bool :=
  true

def getIdentity (prefs : Preferences) (address : SignalProtocolAddress) :
    Except StoreException (Option formats.IdentityKey) :=
  match prefs.getString (identity address.name).text with
  | .error exception => .error exception
  | .ok none => .ok none
  | .ok (some b64) => (decode formats formats.identityKey b64).map some

def loadPreKey (prefs : Preferences) (preKeyId : Int32) :
    Except StoreException formats.PreKeyRecord :=
  loadRecord formats formats.preKeyRecord "No prekey" prefs (.preKey preKeyId)

def storePreKey (prefs : Preferences) (preKeyId : Int32) (record : formats.PreKeyRecord) :
    Preferences :=
  prefs.insert (preKey preKeyId).text (encode formats formats.preKeyRecord record)

def containsPreKey (prefs : Preferences) (preKeyId : Int32) : Bool :=
  prefs.contains (preKey preKeyId).text

def removePreKey (prefs : Preferences) (preKeyId : Int32) : Preferences :=
  prefs.erase (preKey preKeyId).text

def loadSession (prefs : Preferences) (address : SignalProtocolAddress) :
    Except StoreException formats.SessionRecord :=
  match prefs.getString (session address).text with
  | .error exception => .error exception
  | .ok none => .ok formats.freshSession
  | .ok (some b64) => decode formats formats.sessionRecord b64

def loadExistingSessions (prefs : Preferences) (addresses : List SignalProtocolAddress) :
    Except StoreException (List formats.SessionRecord) :=
  addresses.mapM (loadSession formats prefs)

/-- The device id that the text of a session key of the name ends in. -/
def deviceOf (name : String) (key : String) : Option Int32 :=
  if (sessionsOf name).toList.isPrefixOf key.toList then
    Decimal.parseInt formats.otherDigit (key.toList.drop (sessionsOf name).toList.length)
  else none

def getSubDeviceSessions (prefs : Preferences) (name : String) : List Int32 :=
  prefs.keys.filterMap (deviceOf formats name)

def storeSession (prefs : Preferences) (address : SignalProtocolAddress)
    (record : formats.SessionRecord) : Preferences :=
  prefs.insert (session address).text (encode formats formats.sessionRecord record)

def containsSession (prefs : Preferences) (address : SignalProtocolAddress) : Bool :=
  prefs.contains (session address).text

def deleteSession (prefs : Preferences) (address : SignalProtocolAddress) : Preferences :=
  prefs.erase (session address).text

/-- The method of the app has an empty body. -/
def deleteAllSessions (prefs : Preferences) (_name : String) : Preferences :=
  prefs

def loadSignedPreKey (prefs : Preferences) (signedPreKeyId : Int32) :
    Except StoreException formats.SignedPreKeyRecord :=
  loadRecord formats formats.signedPreKeyRecord "No signed prekey" prefs
    (.signedPreKey signedPreKeyId)

def loadSignedPreKeys (_prefs : Preferences) : List formats.SignedPreKeyRecord :=
  []

def storeSignedPreKey (prefs : Preferences) (signedPreKeyId : Int32)
    (record : formats.SignedPreKeyRecord) : Preferences :=
  prefs.insert (signedPreKey signedPreKeyId).text
    (encode formats formats.signedPreKeyRecord record)

def containsSignedPreKey (prefs : Preferences) (signedPreKeyId : Int32) : Bool :=
  prefs.contains (signedPreKey signedPreKeyId).text

def removeSignedPreKey (prefs : Preferences) (signedPreKeyId : Int32) : Preferences :=
  prefs.erase (signedPreKey signedPreKeyId).text

def loadKyberPreKey (prefs : Preferences) (preKeyId : Int32) :
    Except StoreException formats.KyberPreKeyRecord :=
  loadRecord formats formats.kyberPreKeyRecord "No kyber prekey" prefs (.kyberPreKey preKeyId)

def loadKyberPreKeys (_prefs : Preferences) : List formats.KyberPreKeyRecord :=
  []

def storeKyberPreKey (prefs : Preferences) (preKeyId : Int32)
    (record : formats.KyberPreKeyRecord) : Preferences :=
  prefs.insert (kyberPreKey preKeyId).text
    (encode formats formats.kyberPreKeyRecord record)

def containsKyberPreKey (prefs : Preferences) (preKeyId : Int32) : Bool :=
  prefs.contains (kyberPreKey preKeyId).text

/-- No use is recorded; the app has only a comment here. -/
def markKyberPreKeyUsed {PublicKey : Type} (prefs : Preferences) (_kyberPreKeyId : Int32)
    (_signedPreKeyId : Int32) (_baseKey : PublicKey) : Preferences :=
  prefs

def loadSenderKey {SenderKeyRecord : Type} (_prefs : Preferences)
    (_address : SignalProtocolAddress) : Except StoreException SenderKeyRecord :=
  .error (.unsupportedOperation "SenderKeyStore not implemented")

end SharedPrefsStore

end LegacySignal
