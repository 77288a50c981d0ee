import LegacySignal.Protocol.Store
import LegacySignal.Store.Maps

/-!
# The app's store as a protocol store

`SharedPrefsSignalProtocolStore` behind the store traits. It trusts every
identity and records no use of a Kyber prekey. A missing session is loaded as
a fresh record, and an exception of the store ends the operation.
-/

namespace LegacySignal

open ProtocolStore StoreKey

variable {P : Primitives}

/-- How the records of the app's store are written. -/
structure SignalFormats (P : Primitives) where
  identityKeyPair : RecordFormat P.KeyPair
  identityKey : RecordFormat P.PublicKey
  preKeyRecord : RecordFormat P.KeyPair
  sessionRecord : RecordFormat (SessionRecord P)
  signedPreKeyRecord : RecordFormat P.KeyPair
  kyberPreKeyRecord : RecordFormat P.KemSecretKey
  base64 : Base64
  otherDigit : Char → Option ℕ

def SignalFormats.store (formats : SignalFormats P) : StoreFormats where
  IdentityKeyPair := P.KeyPair
  IdentityKey := P.PublicKey
  PreKeyRecord := P.KeyPair
  SessionRecord := SessionRecord P
  SignedPreKeyRecord := P.KeyPair
  KyberPreKeyRecord := P.KemSecretKey
  identityKeyPair := formats.identityKeyPair
  identityKey := formats.identityKey
  preKeyRecord := formats.preKeyRecord
  sessionRecord := formats.sessionRecord
  signedPreKeyRecord := formats.signedPreKeyRecord
  kyberPreKeyRecord := formats.kyberPreKeyRecord
  freshSession := SessionRecord.newFresh
  base64 := formats.base64
  otherDigit := formats.otherDigit

structure AppStore (formats : SignalFormats P) where
  prefs : Preferences

/-- An exception of the app's store, as the session code sees it. -/
def callback {Value : Type} : Except StoreException Value → Except SignalProtocolError Value
  | .ok value => .ok value
  | .error _ => .error .applicationCallback

variable {formats : SignalFormats P}

instance : ProtocolStore P (AppStore formats) where
  loadSession store address :=
    (callback (SharedPrefsStore.loadSession formats.store store.prefs address)).map some
  storeSession store address record :=
    ⟨SharedPrefsStore.storeSession formats.store store.prefs address record⟩
  deleteSession store address := ⟨SharedPrefsStore.deleteSession store.prefs address⟩
  getIdentityKeyPair store :=
    callback (SharedPrefsStore.getIdentityKeyPair formats.store store.prefs)
  getLocalRegistrationId store :=
    (callback (SharedPrefsStore.getLocalRegistrationId store.prefs)).map Int32.toUInt32
  isTrustedIdentity store address identity direction :=
    SharedPrefsStore.isTrustedIdentity formats.store store.prefs address identity direction
  saveIdentity store address identity :=
    ⟨(SharedPrefsStore.saveIdentity formats.store store.prefs address identity).2⟩
  getPreKey store preKeyId :=
    callback (SharedPrefsStore.loadPreKey formats.store store.prefs preKeyId.toInt32)
  removePreKey store preKeyId := ⟨SharedPrefsStore.removePreKey store.prefs preKeyId.toInt32⟩
  getSignedPreKey store preKeyId :=
    callback (SharedPrefsStore.loadSignedPreKey formats.store store.prefs preKeyId.toInt32)
  getKyberPreKey store preKeyId :=
    callback (SharedPrefsStore.loadKyberPreKey formats.store store.prefs preKeyId.toInt32)
  markKyberPreKeyUsed store kyberPreKeyId signedPreKeyId baseKey :=
    .ok ⟨SharedPrefsStore.markKyberPreKeyUsed store.prefs kyberPreKeyId.toInt32
      signedPreKeyId.toInt32 baseKey⟩

namespace AppStore

open SharedPrefsStore

theorem text_ne_of_word_ne {key other : StoreKey} (different : key.word ≠ other.word) :
    key.text ≠ other.text := by
  intro same
  apply different
  rw [← wordOf_text, ← wordOf_text, same]

variable {address : SignalProtocolAddress} {prefs : Preferences} {key : StoreKey}

theorem loadSession_of_lookup_eq {prefs changed : Preferences}
    (unchanged : changed.lookup (session address).text =
      prefs.lookup (session address).text) :
    SharedPrefsStore.loadSession formats.store changed address =
      SharedPrefsStore.loadSession formats.store prefs address := by
  simp only [SharedPrefsStore.loadSession, Preferences.getString, unchanged]

theorem loadSession_insert {value : PreferenceValue}
    (different : (session address).text ≠ key.text) :
    SharedPrefsStore.loadSession formats.store (prefs.insert key.text value) address =
      SharedPrefsStore.loadSession formats.store prefs address :=
  loadSession_of_lookup_eq (AList.lookup_insert_ne different)

theorem loadSession_erase (different : (session address).text ≠ key.text) :
    SharedPrefsStore.loadSession formats.store (prefs.erase key.text) address =
      SharedPrefsStore.loadSession formats.store prefs address :=
  loadSession_of_lookup_eq (AList.lookup_erase_ne different)

theorem session_text_ne {address other : SignalProtocolAddress} (different : other ≠ address) :
    (session other).text ≠ (session address).text := by
  intro same
  apply different
  exact text_session_injective same

theorem session_text_ne_of_word (different : key.word ≠ 4) :
    (session address).text ≠ key.text :=
  text_ne_of_word_ne different.symm

theorem loadSession_storeSession_self (prefs : Preferences) (address : SignalProtocolAddress)
    (record : SessionRecord P) :
    SharedPrefsStore.loadSession formats.store
      (SharedPrefsStore.storeSession formats.store prefs address record) address =
      .ok record := by
  have found : (SharedPrefsStore.storeSession formats.store prefs address record).lookup
      (session address).text =
        (some record).map (encode formats.store formats.store.sessionRecord) :=
    AList.lookup_insert prefs
  unfold SharedPrefsStore.loadSession
  rw [StoreMaps.getString_of_lookup found]
  exact StoreMaps.decode_encodeToString _ record

theorem loadSession_deleteSession_self (prefs : Preferences) (address : SignalProtocolAddress) :
    SharedPrefsStore.loadSession formats.store (SharedPrefsStore.deleteSession prefs address)
      address = .ok SessionRecord.newFresh := by
  have gone : (SharedPrefsStore.deleteSession prefs address).lookup
      (session address).text = none :=
    AList.lookup_erase _ _
  simp only [SharedPrefsStore.loadSession, Preferences.getString, gone]
  rfl

end AppStore

instance : LawfulProtocolStore P (AppStore formats) where
  loadSession_storeSession store address record := by
    simp only [loadSession, storeSession,
      AppStore.loadSession_storeSession_self]
    rfl
  loadSession_storeSession_of_ne store address other record different := by
    simp only [loadSession, storeSession,
      SharedPrefsStore.storeSession,
      AppStore.loadSession_insert (AppStore.session_text_ne different)]
  loadSession_deleteSession store address := by
    simp only [loadSession, deleteSession,
      AppStore.loadSession_deleteSession_self]
    rfl
  loadSession_saveIdentity store address other identity := by
    have different := @AppStore.session_text_ne_of_word other (.identity address.name) (by
      simp [word])
    simp only [loadSession, saveIdentity,
      SharedPrefsStore.saveIdentity, AppStore.loadSession_insert different]
  loadSession_removePreKey store preKeyId other := by
    have different := @AppStore.session_text_ne_of_word other (.preKey preKeyId.toInt32) (by
      simp [word])
    simp only [loadSession, removePreKey,
      SharedPrefsStore.removePreKey, AppStore.loadSession_erase different]
  loadSession_markKyberPreKeyUsed other done := by
    cases done
    rfl

instance : TrustingProtocolStore P (AppStore formats) where
  isTrustedIdentity_eq _ _ _ _ := rfl

end LegacySignal
