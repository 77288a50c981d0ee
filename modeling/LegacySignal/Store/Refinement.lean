import LegacySignal.Library.Transition
import LegacySignal.Store.Maps

/-!
# The store refines the record of maps

The preferences and the record of maps take the same calls side by side. Every
read agrees in runs that keep away from three defects: the name `key_pair`,
`deleteAllSessions` for a name that has sessions, and the lists of signed and
Kyber prekeys once there are such prekeys.
-/

namespace LegacySignal

open SharedPrefsStore Function

variable {formats : StoreFormats}

inductive StoreWrite (formats : StoreFormats) where
  | saveIdentityKeyPair (pair : formats.IdentityKeyPair)
  | saveLocalRegistrationId (registrationId : Int32)
  | saveDeliveryCertificate (certBytes : List UInt8)
  | saveIdentity (address : SignalProtocolAddress) (identityKey : formats.IdentityKey)
  | storePreKey (preKeyId : Int32) (record : formats.PreKeyRecord)
  | removePreKey (preKeyId : Int32)
  | storeSession (address : SignalProtocolAddress) (record : formats.SessionRecord)
  | deleteSession (address : SignalProtocolAddress)
  | deleteAllSessions (name : String)
  | storeSignedPreKey (signedPreKeyId : Int32) (record : formats.SignedPreKeyRecord)
  | removeSignedPreKey (signedPreKeyId : Int32)
  | storeKyberPreKey (preKeyId : Int32) (record : formats.KyberPreKeyRecord)

inductive StoreRead where
  | getIdentityKeyPair
  | getLocalRegistrationId
  | getDeliveryCertificate
  | getIdentity (address : SignalProtocolAddress)
  | loadPreKey (preKeyId : Int32)
  | containsPreKey (preKeyId : Int32)
  | loadSession (address : SignalProtocolAddress)
  | loadExistingSessions (addresses : List SignalProtocolAddress)
  | getSubDeviceSessions (name : String)
  | containsSession (address : SignalProtocolAddress)
  | loadSignedPreKey (signedPreKeyId : Int32)
  | loadSignedPreKeys
  | containsSignedPreKey (signedPreKeyId : Int32)
  | loadKyberPreKey (preKeyId : Int32)
  | loadKyberPreKeys
  | containsKyberPreKey (preKeyId : Int32)

namespace StoreWrite

def onPrefs (prefs : Preferences) : StoreWrite formats → Preferences
  | .saveIdentityKeyPair pair => SharedPrefsStore.saveIdentityKeyPair formats prefs pair
  | .saveLocalRegistrationId registrationId =>
    SharedPrefsStore.saveLocalRegistrationId prefs registrationId
  | .saveDeliveryCertificate certBytes =>
    SharedPrefsStore.saveDeliveryCertificate formats prefs certBytes
  | .saveIdentity address identityKey =>
    (SharedPrefsStore.saveIdentity formats prefs address identityKey).2
  | .storePreKey preKeyId record => SharedPrefsStore.storePreKey formats prefs preKeyId record
  | .removePreKey preKeyId => SharedPrefsStore.removePreKey prefs preKeyId
  | .storeSession address record => SharedPrefsStore.storeSession formats prefs address record
  | .deleteSession address => SharedPrefsStore.deleteSession prefs address
  | .deleteAllSessions name => SharedPrefsStore.deleteAllSessions prefs name
  | .storeSignedPreKey signedPreKeyId record =>
    SharedPrefsStore.storeSignedPreKey formats prefs signedPreKeyId record
  | .removeSignedPreKey signedPreKeyId =>
    SharedPrefsStore.removeSignedPreKey prefs signedPreKeyId
  | .storeKyberPreKey preKeyId record =>
    SharedPrefsStore.storeKyberPreKey formats prefs preKeyId record

def onMaps (maps : StoreMaps formats) : StoreWrite formats → StoreMaps formats
  | .saveIdentityKeyPair pair => { maps with identityKeyPair := some pair }
  | .saveLocalRegistrationId registrationId =>
    { maps with localRegistrationId := some registrationId }
  | .saveDeliveryCertificate certBytes => { maps with deliveryCertificate := some certBytes }
  | .saveIdentity address identityKey =>
    { maps with identities := update maps.identities address.name (some identityKey) }
  | .storePreKey preKeyId record =>
    { maps with preKeys := update maps.preKeys preKeyId (some record) }
  | .removePreKey preKeyId => { maps with preKeys := update maps.preKeys preKeyId none }
  | .storeSession address record =>
    { maps with sessions := update maps.sessions address (some record) }
  | .deleteSession address =>
    { maps with sessions := update maps.sessions address none }
  | .deleteAllSessions name => maps.deleteAllSessions name
  | .storeSignedPreKey signedPreKeyId record =>
    { maps with
      signedPreKeys := update maps.signedPreKeys signedPreKeyId (some record) }
  | .removeSignedPreKey signedPreKeyId =>
    { maps with signedPreKeys := update maps.signedPreKeys signedPreKeyId none }
  | .storeKyberPreKey preKeyId record =>
    { maps with kyberPreKeys := update maps.kyberPreKeys preKeyId (some record) }

end StoreWrite

/-- The read returns what the record of maps would return. The own key pair is parsed from no
bytes when it was never saved, and lists are compared as sets. -/
def StoreRead.Agrees (prefs : Preferences) (maps : StoreMaps formats) : StoreRead → Prop
  | .getIdentityKeyPair =>
    SharedPrefsStore.getIdentityKeyPair formats prefs =
      match maps.identityKeyPair with
      | none => decode formats formats.identityKeyPair ""
      | some pair => .ok pair
  | .getLocalRegistrationId =>
    SharedPrefsStore.getLocalRegistrationId prefs = .ok (maps.localRegistrationId.getD 0)
  | .getDeliveryCertificate =>
    SharedPrefsStore.getDeliveryCertificate formats prefs = .ok maps.deliveryCertificate
  | .getIdentity address =>
    SharedPrefsStore.getIdentity formats prefs address = .ok (maps.identities address.name)
  | .loadPreKey preKeyId =>
    SharedPrefsStore.loadPreKey formats prefs preKeyId =
      StoreMaps.require (maps.preKeys preKeyId) "No prekey"
  | .containsPreKey preKeyId =>
    SharedPrefsStore.containsPreKey prefs preKeyId = (maps.preKeys preKeyId).isSome
  | .loadSession address =>
    SharedPrefsStore.loadSession formats prefs address =
      .ok ((maps.sessions address).getD formats.freshSession)
  | .loadExistingSessions addresses =>
    SharedPrefsStore.loadExistingSessions formats prefs addresses =
      .ok (addresses.map fun address => (maps.sessions address).getD formats.freshSession)
  | .getSubDeviceSessions name =>
    (SharedPrefsStore.getSubDeviceSessions formats prefs name).Nodup ∧
      ∀ deviceId, deviceId ∈ SharedPrefsStore.getSubDeviceSessions formats prefs name ↔
        (maps.sessions ⟨name, deviceId⟩).isSome
  | .containsSession address =>
    SharedPrefsStore.containsSession prefs address = (maps.sessions address).isSome
  | .loadSignedPreKey signedPreKeyId =>
    SharedPrefsStore.loadSignedPreKey formats prefs signedPreKeyId =
      StoreMaps.require (maps.signedPreKeys signedPreKeyId) "No signed prekey"
  | .loadSignedPreKeys =>
    ∀ record, record ∈ SharedPrefsStore.loadSignedPreKeys formats prefs ↔
      ∃ signedPreKeyId, maps.signedPreKeys signedPreKeyId = some record
  | .containsSignedPreKey signedPreKeyId =>
    SharedPrefsStore.containsSignedPreKey prefs signedPreKeyId =
      (maps.signedPreKeys signedPreKeyId).isSome
  | .loadKyberPreKey preKeyId =>
    SharedPrefsStore.loadKyberPreKey formats prefs preKeyId =
      StoreMaps.require (maps.kyberPreKeys preKeyId) "No kyber prekey"
  | .loadKyberPreKeys =>
    ∀ record, record ∈ SharedPrefsStore.loadKyberPreKeys formats prefs ↔
      ∃ preKeyId, maps.kyberPreKeys preKeyId = some record
  | .containsKyberPreKey preKeyId =>
    SharedPrefsStore.containsKyberPreKey prefs preKeyId = (maps.kyberPreKeys preKeyId).isSome

namespace StoreMaps

variable {maps : StoreMaps formats} {prefs : Preferences} {key : StoreKey}
  {after : StoreMaps formats}

theorem RepresentedBy.put (represented : maps.RepresentedBy prefs)
    (separate : key ≠ .identity "key_pair") {value : PreferenceValue}
    (changed : after.items = update maps.items key (some value)) :
    after.RepresentedBy (prefs.insert key.text value) := by
  unfold RepresentedBy
  rw [changed]
  exact FlatStore.Represents.insert represented StoreKey.text_injOn separate value

theorem RepresentedBy.remove (represented : maps.RepresentedBy prefs)
    (separate : key ≠ .identity "key_pair")
    (changed : after.items = update maps.items key none) :
    after.RepresentedBy (prefs.erase key.text) := by
  unfold RepresentedBy
  rw [changed]
  exact FlatStore.Represents.erase represented StoreKey.text_injOn separate

theorem items_eq_update {value : Option PreferenceValue} (here : after.items key = value)
    (elsewhere : ∀ other, other ≠ key → after.items other = maps.items other) :
    after.items = update maps.items key value := by
  funext other
  by_cases same : other = key
  · subst same
    rw [here, update_self]
  · rw [elsewhere other same, update_of_ne same]

section

variable (represented : maps.RepresentedBy prefs)

include represented

theorem RepresentedBy.containsSession_eq (address : SignalProtocolAddress) :
    containsSession prefs address = (maps.sessions address).isSome := by
  have lookup := represented.lookup (.session address) (by simp)
  exact contains_of_lookup lookup

theorem RepresentedBy.loadSession_eq (address : SignalProtocolAddress) :
    loadSession formats prefs address =
      .ok ((maps.sessions address).getD formats.freshSession) := by
  have lookup := represented.lookup (.session address) (by simp)
  unfold loadSession
  rw [getString_of_lookup lookup]
  cases maps.sessions address with
  | none => rfl
  | some record => exact decode_encodeToString formats.sessionRecord record

theorem RepresentedBy.loadExistingSessions_eq (addresses : List SignalProtocolAddress) :
    loadExistingSessions formats prefs addresses =
      .ok (addresses.map fun address => (maps.sessions address).getD formats.freshSession) := by
  unfold loadExistingSessions
  induction addresses with
  | nil => rfl
  | cons address rest ih =>
    rw [List.mapM_cons, represented.loadSession_eq address, ih]
    rfl

theorem RepresentedBy.getIdentityKeyPair_eq :
    getIdentityKeyPair formats prefs =
      match maps.identityKeyPair with
      | none => decode formats formats.identityKeyPair ""
      | some pair => .ok pair := by
  have lookup := represented.lookup .identityKeyPair (by simp)
  unfold getIdentityKeyPair
  rw [getString_of_lookup lookup]
  cases maps.identityKeyPair with
  | none => rfl
  | some pair => exact decode_encodeToString formats.identityKeyPair pair

theorem RepresentedBy.getIdentity_eq {address : SignalProtocolAddress}
    (separate : address.name ≠ "key_pair") :
    getIdentity formats prefs address = .ok (maps.identities address.name) := by
  have lookup := represented.lookup (.identity address.name)
    (by simpa using separate)
  unfold getIdentity
  rw [getString_of_lookup lookup]
  cases maps.identities address.name with
  | none => rfl
  | some identity =>
    simp only [Option.map_some, decode_encodeToString formats.identityKey identity]
    rfl

theorem RepresentedBy.getLocalRegistrationId_eq :
    getLocalRegistrationId prefs = .ok (maps.localRegistrationId.getD 0) := by
  have lookup := represented.lookup .localRegistrationId (by simp)
  unfold getLocalRegistrationId Preferences.getInt
  rw [lookup]
  simp only [items]
  cases maps.localRegistrationId <;> rfl

theorem RepresentedBy.getDeliveryCertificate_eq :
    getDeliveryCertificate formats prefs = .ok maps.deliveryCertificate := by
  have lookup := represented.lookup .deliveryCertificate (by simp)
  unfold getDeliveryCertificate Preferences.getString
  rw [lookup]
  simp only [items]
  cases maps.deliveryCertificate with
  | none => rfl
  | some bytes => simp [formats.base64.decode_encodeToString]

theorem items_deleteAllSessions {name : String}
    (noneLeft : ∀ deviceId, containsSession prefs ⟨name, deviceId⟩ = false) :
    (maps.deleteAllSessions name).items = maps.items := by
  funext key
  cases key with
  | session address =>
    by_cases same : address.name = name
    · subst same
      have contained := represented.containsSession_eq address
      rw [noneLeft address.deviceId] at contained
      have absent : maps.sessions address = none :=
        Option.not_isSome_iff_eq_none.mp (by rw [← contained]; simp)
      simp [items, deleteAllSessions, absent]
    · simp [items, deleteAllSessions, same]
  | _ => rfl

end

end StoreMaps

/-- The preferences and the record of maps, side by side. -/
structure StorePair (formats : StoreFormats) where
  prefs : Preferences
  maps : StoreMaps formats

namespace StorePair

inductive Call (formats : StoreFormats) where
  | write (write : StoreWrite formats)
  | read (read : StoreRead)

def initial : StorePair formats where
  prefs := ∅
  maps := .empty

def step (pair : StorePair formats) : Call formats → Option (StorePair formats)
  | .write write => some { prefs := write.onPrefs pair.prefs, maps := write.onMaps pair.maps }
  | .read _ => some pair

/-- A read agrees, and `deleteAllSessions` leaves no session of the name. -/
def Refines (pair : StorePair formats) : Call formats → Prop
  | .read read => read.Agrees pair.prefs pair.maps
  | .write (.deleteAllSessions name) =>
    ∀ deviceId, containsSession (SharedPrefsStore.deleteAllSessions pair.prefs name)
      ⟨name, deviceId⟩ = false
  | .write _ => True

/-- The call does not meet a defect of the store. -/
def Clear (pair : StorePair formats) : Call formats → Prop
  | .write (.saveIdentity address _) => address.name ≠ "key_pair"
  | .write (.deleteAllSessions name) =>
    ∀ deviceId, containsSession pair.prefs ⟨name, deviceId⟩ = false
  | .read (.getIdentity address) => address.name ≠ "key_pair"
  | .read .loadSignedPreKeys => ∀ id, containsSignedPreKey pair.prefs id = false
  | .read .loadKyberPreKeys => ∀ id, containsKyberPreKey pair.prefs id = false
  | _ => True

variable {pair : StorePair formats}

theorem representedBy_write (represented : pair.maps.RepresentedBy pair.prefs)
    {write : StoreWrite formats} (clear : pair.Clear (.write write)) :
    (write.onMaps pair.maps).RepresentedBy (write.onPrefs pair.prefs) := by
  cases write with
  | saveIdentityKeyPair item | saveLocalRegistrationId item | saveDeliveryCertificate item =>
    apply represented.put (by simp)
    apply StoreMaps.items_eq_update rfl
    intro other different
    cases other <;> first | rfl | exact absurd rfl different
  | saveIdentity address identityKey =>
    apply represented.put (by simpa [Clear] using clear)
    apply StoreMaps.items_eq_update (by simp [StoreMaps.items, StoreWrite.onMaps])
    intro other different
    cases other <;> simp_all [StoreMaps.items, StoreWrite.onMaps]
  | storePreKey key record | storeSession key record | storeSignedPreKey key record
  | storeKyberPreKey key record =>
    apply represented.put (by simp)
    apply StoreMaps.items_eq_update (by simp [StoreMaps.items, StoreWrite.onMaps])
    intro other different
    cases other <;> simp_all [StoreMaps.items, StoreWrite.onMaps]
  | removePreKey key | deleteSession key | removeSignedPreKey key =>
    apply represented.remove (by simp)
    apply StoreMaps.items_eq_update (by simp [StoreMaps.items, StoreWrite.onMaps])
    intro other different
    cases other <;> simp_all [StoreMaps.items, StoreWrite.onMaps]
  | deleteAllSessions name =>
    have unchanged := StoreMaps.items_deleteAllSessions represented clear
    unfold StoreMaps.RepresentedBy at represented ⊢
    rw [← unchanged] at represented
    exact represented

theorem agrees_of_representedBy (represented : pair.maps.RepresentedBy pair.prefs)
    {read : StoreRead} (clear : pair.Clear (.read read)) : read.Agrees pair.prefs pair.maps := by
  have lookup : ∀ key, key ≠ StoreKey.identity "key_pair" →
      pair.prefs.lookup key.text = pair.maps.items key := represented.lookup
  cases read with
  | getIdentityKeyPair => exact represented.getIdentityKeyPair_eq
  | getLocalRegistrationId => exact represented.getLocalRegistrationId_eq
  | getDeliveryCertificate => exact represented.getDeliveryCertificate_eq
  | getIdentity address => exact represented.getIdentity_eq clear
  | loadPreKey preKeyId =>
    exact StoreMaps.loadRecord_of_lookup "No prekey" (lookup (.preKey preKeyId) (by simp))
  | containsPreKey preKeyId =>
    exact StoreMaps.contains_of_lookup (lookup (.preKey preKeyId) (by simp))
  | loadSession address => exact represented.loadSession_eq address
  | loadExistingSessions addresses => exact represented.loadExistingSessions_eq addresses
  | getSubDeviceSessions name =>
    exact ⟨StoreMaps.getSubDeviceSessions_nodup represented name,
      StoreMaps.mem_getSubDeviceSessions represented name⟩
  | containsSession address => exact represented.containsSession_eq address
  | loadSignedPreKey signedPreKeyId =>
    exact StoreMaps.loadRecord_of_lookup "No signed prekey"
      (lookup (.signedPreKey signedPreKeyId) (by simp))
  | loadSignedPreKeys =>
    intro record
    constructor
    · intro listed
      cases listed
    · rintro ⟨id, stored⟩
      have contained : containsSignedPreKey pair.prefs id =
          (pair.maps.signedPreKeys id).isSome :=
        StoreMaps.contains_of_lookup (lookup (.signedPreKey id) (by simp))
      rw [clear id, stored] at contained
      cases contained
  | containsSignedPreKey signedPreKeyId =>
    exact StoreMaps.contains_of_lookup (lookup (.signedPreKey signedPreKeyId) (by simp))
  | loadKyberPreKey preKeyId =>
    exact StoreMaps.loadRecord_of_lookup "No kyber prekey"
      (lookup (.kyberPreKey preKeyId) (by simp))
  | loadKyberPreKeys =>
    intro record
    constructor
    · intro listed
      cases listed
    · rintro ⟨id, stored⟩
      have contained : containsKyberPreKey pair.prefs id =
          (pair.maps.kyberPreKeys id).isSome :=
        StoreMaps.contains_of_lookup (lookup (.kyberPreKey id) (by simp))
      rw [clear id, stored] at contained
      cases contained
  | containsKyberPreKey preKeyId =>
    exact StoreMaps.contains_of_lookup (lookup (.kyberPreKey preKeyId) (by simp))

theorem refines_step (pair : StorePair formats) (call : Call formats)
    (represented : pair.maps.RepresentedBy pair.prefs) (clear : pair.Clear call) :
    pair.Refines call ∧
      ∀ next, step pair call = some next → next.maps.RepresentedBy next.prefs := by
  cases call with
  | read read =>
    refine ⟨agrees_of_representedBy represented clear, ?_⟩
    rintro next ⟨⟩
    exact represented
  | write write =>
    refine ⟨?_, ?_⟩
    · cases write with
      | deleteAllSessions name => exact clear
      | _ => trivial
    · rintro next ⟨⟩
      exact representedBy_write represented clear

/-- The store refines the record of maps in every run of clear calls. -/
theorem refines_of_clear (formats : StoreFormats) (calls : List (Call formats))
    (clear : Transition.Meets step Clear initial calls) :
    Transition.Meets step Refines initial calls :=
  Transition.meets_of_invariant refines_step StoreMaps.representedBy_empty clear

end StorePair

def RecordFormat.bytes : RecordFormat (List UInt8) where
  serialize := id
  deserialize := some
  deserialize_serialize := fun _ => rfl

/-- Records as bytes, with the usual codec and ASCII digits. -/
def StoreFormats.bytes : StoreFormats where
  IdentityKeyPair := List UInt8
  IdentityKey := List UInt8
  PreKeyRecord := List UInt8
  SessionRecord := List UInt8
  SignedPreKeyRecord := List UInt8
  KyberPreKeyRecord := List UInt8
  identityKeyPair := .bytes
  identityKey := .bytes
  preKeyRecord := .bytes
  sessionRecord := .bytes
  signedPreKeyRecord := .bytes
  kyberPreKeyRecord := .bytes
  freshSession := []
  base64 := .standard
  otherDigit := fun _ => none

namespace StorePair

/-- Sessions of names that look alike. -/
def lookalikeCalls : List (Call .bytes) :=
  [.write (.deleteAllSessions "alice"), .write (.storeSession ⟨"alice", 1⟩ [1]),
    .write (.storeSession ⟨"alice_1", 2⟩ [2]), .write (.saveIdentity ⟨"alice", 1⟩ [3]),
    .read (.getSubDeviceSessions "alice"), .read (.getIdentity ⟨"alice", 1⟩),
    .write (.deleteSession ⟨"alice", 1⟩), .read (.containsSession ⟨"alice_1", 2⟩)]

theorem refines_of_clear_lookalike : Transition.Meets step Refines initial lookalikeCalls := by
  apply refines_of_clear
  simp [lookalikeCalls, Transition.Meets, Clear, step, initial, containsSession,
    Preferences.contains]

def deletedCalls : List (Call .bytes) :=
  [.write (.storeSession ⟨"alice", 1⟩ [1]), .write (.deleteAllSessions "alice")]

theorem deleteAllSessions_not_refines : ¬Transition.Meets step Refines initial deletedCalls := by
  rintro ⟨_, later⟩
  have left := (later _ rfl).1 1
  revert left
  decide

end StorePair

end LegacySignal
