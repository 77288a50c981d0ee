import LegacySignal.Library.FlatStore
import LegacySignal.Store.SharedPrefs

/-!
# A record of independent maps

What the protocol store is for: one map for each kind of item, such that a
write under one kind or key changes nothing that is read under another. The
preferences represent such a record as long as the one shared text of
`StoreKey` is not used.
-/

namespace LegacySignal

open SharedPrefsStore StoreKey

structure StoreMaps (formats : StoreFormats) where
  identityKeyPair : Option formats.IdentityKeyPair
  localRegistrationId : Option Int32
  deliveryCertificate : Option (List UInt8)
  identities : String → Option formats.IdentityKey
  preKeys : Int32 → Option formats.PreKeyRecord
  sessions : SignalProtocolAddress → Option formats.SessionRecord
  signedPreKeys : Int32 → Option formats.SignedPreKeyRecord
  kyberPreKeys : Int32 → Option formats.KyberPreKeyRecord

namespace StoreMaps

variable {formats : StoreFormats} {maps : StoreMaps formats} {prefs : Preferences}

def empty : StoreMaps formats where
  identityKeyPair := none
  localRegistrationId := none
  deliveryCertificate := none
  identities := fun _ => none
  preKeys := fun _ => none
  sessions := fun _ => none
  signedPreKeys := fun _ => none
  kyberPreKeys := fun _ => none

def deleteAllSessions (maps : StoreMaps formats) (name : String) : StoreMaps formats :=
  { maps with
    sessions := fun address => if address.name = name then none else maps.sessions address }

/-- What a record that must be there is read as. -/
def require {Record : Type} (item : Option Record) (message : String) :
    Except StoreException Record :=
  match item with
  | none => .error (.invalidKeyId message)
  | some record => .ok record

def items (maps : StoreMaps formats) : StoreKey → Option PreferenceValue
  | .identityKeyPair =>
    maps.identityKeyPair.map (encode formats formats.identityKeyPair)
  | .localRegistrationId => maps.localRegistrationId.map .int
  | .deliveryCertificate =>
    maps.deliveryCertificate.map fun bytes => .string (formats.base64.encodeToString bytes)
  | .identity name =>
    (maps.identities name).map (encode formats formats.identityKey)
  | .preKey id => (maps.preKeys id).map (encode formats formats.preKeyRecord)
  | .session address =>
    (maps.sessions address).map (encode formats formats.sessionRecord)
  | .signedPreKey id =>
    (maps.signedPreKeys id).map (encode formats formats.signedPreKeyRecord)
  | .kyberPreKey id =>
    (maps.kyberPreKeys id).map (encode formats formats.kyberPreKeyRecord)

/-- The preferences hold the items of the record and nothing else. -/
def RepresentedBy (maps : StoreMaps formats) (prefs : Preferences) : Prop :=
  FlatStore.Represents text separate prefs maps.items

theorem representedBy_empty : (empty : StoreMaps formats).RepresentedBy ∅ := by
  have nothing : (empty : StoreMaps formats).items = fun _ => none := by
    funext key
    cases key <;> rfl
  unfold RepresentedBy
  rw [nothing]
  exact FlatStore.represents_empty _ _

section Reads

variable {Record : Type} {format : RecordFormat Record} {key : StoreKey} {item : Option Record}

theorem decode_encodeToString (format : RecordFormat Record) (record : Record) :
    decode formats format
      (formats.base64.encodeToString (format.serialize record)) = .ok record := by
  simp [decode, formats.base64.decode_encodeToString,
    format.deserialize_serialize]

theorem getString_of_lookup
    (lookup : prefs.lookup key.text = item.map (encode formats format)) :
    prefs.getString key.text = .ok (item.map fun record =>
      formats.base64.encodeToString (format.serialize record)) := by
  unfold Preferences.getString
  rw [lookup]
  cases item <;> rfl

theorem loadRecord_of_lookup (message : String)
    (lookup : prefs.lookup key.text = item.map (encode formats format)) :
    loadRecord formats format message prefs key = require item message := by
  unfold loadRecord
  rw [getString_of_lookup lookup]
  cases item with
  | none => rfl
  | some record => exact decode_encodeToString format record

theorem contains_of_lookup
    (lookup : prefs.lookup key.text = item.map (encode formats format)) :
    prefs.contains key.text = item.isSome := by
  have found := @AList.lookup_isSome _ _ _ key.text prefs
  rw [lookup, Option.isSome_map] at found
  unfold Preferences.contains
  cases present : item.isSome with
  | true => exact decide_eq_true (found.mp present)
  | false =>
    apply decide_eq_false
    intro member
    rw [found.mpr member] at present
    cases present

theorem RepresentedBy.lookup (represented : maps.RepresentedBy prefs) (key : StoreKey)
    (separate : key ≠ .identity "key_pair") : prefs.lookup key.text = maps.items key :=
  FlatStore.Represents.lookup represented key separate

end Reads

theorem sessionsOf_toList (name : String) :
    (sessionsOf name).toList = "session_".toList ++ (name.toList ++ ['_']) := by
  rw [sessionsOf, String.toList_append, String.toList_append, List.append_assoc]
  rfl

theorem exists_session_of_start {key : StoreKey} {name : String} {rest : List Char}
    (start : key.text.toList = (sessionsOf name).toList ++ rest) :
    ∃ address, key = .session address := by
  have word : wordOf key.text.toList = 4 := by
    rw [start, sessionsOf_toList]
    rfl
  rw [wordOf_text] at word
  cases key with
  | session address => exact ⟨address, rfl⟩
  | _ => cases word

theorem deviceOf_text (key : StoreKey) (name : String) (deviceId : Int32) :
    deviceOf formats name key.text = some deviceId ↔
      key = .session ⟨name, deviceId⟩ := by
  unfold deviceOf
  constructor
  · intro found
    split at found
    · rename_i starts
      rcases List.isPrefixOf_iff_prefix.mp starts with ⟨rest, start⟩
      rcases exists_session_of_start start.symm with ⟨⟨otherName, otherDevice⟩, rfl⟩
      rw [← start, List.drop_left] at found
      rw [sessionsOf_toList, text_session_toList, List.append_assoc,
        List.append_cancel_left_eq, List.append_assoc, List.singleton_append] at start
      rcases Decimal.eq_or_underscore_mem (Decimal.underscore_not_mem_ofInt otherDevice)
        start.symm with ⟨sameName, sameDigits⟩ | inRest
      · rw [← sameDigits, Decimal.parseInt_ofInt, Option.some.injEq] at found
        have names : otherName = name := String.toList_inj.mp sameName
        rw [names, found]
      · rw [Decimal.parseInt_underscore inRest] at found
        cases found
    · cases found
  · rintro rfl
    have start : (text (.session ⟨name, deviceId⟩)).toList =
        (sessionsOf name).toList ++ Decimal.ofInt deviceId := by
      rw [text, String.toList_append, toList_decimal]
    rw [start, if_pos (List.isPrefixOf_iff_prefix.mpr (List.prefix_append _ _)), List.drop_left,
      Decimal.parseInt_ofInt]

theorem getSubDeviceSessions_nodup (represented : maps.RepresentedBy prefs) (name : String) :
    (getSubDeviceSessions formats prefs name).Nodup := by
  have distinct := List.Pairwise.and_mem.mp prefs.keys_nodup
  apply List.Pairwise.filterMap _ _ distinct
  rintro text other ⟨inPrefs, otherInPrefs, different⟩ deviceId found otherId otherFound rfl
  rcases represented.labelled text inPrefs with ⟨key, _, rfl⟩
  rcases represented.labelled other otherInPrefs with ⟨otherKey, _, rfl⟩
  apply different
  rw [(deviceOf_text key name deviceId).mp found,
    (deviceOf_text otherKey name deviceId).mp otherFound]

theorem mem_getSubDeviceSessions (represented : maps.RepresentedBy prefs) (name : String)
    (deviceId : Int32) :
    deviceId ∈ getSubDeviceSessions formats prefs name ↔
      (maps.sessions ⟨name, deviceId⟩).isSome = true := by
  have stored : (session ⟨name, deviceId⟩).text ∈ prefs ↔
      (maps.sessions ⟨name, deviceId⟩).isSome = true := by
    rw [FlatStore.Represents.mem_iff represented (by simp [separate])]
    simp [items]
  rw [← stored, getSubDeviceSessions, List.mem_filterMap]
  constructor
  · rintro ⟨text, inPrefs, found⟩
    rcases represented.labelled text inPrefs with ⟨key, _, rfl⟩
    rw [← (deviceOf_text key name deviceId).mp found]
    exact inPrefs
  · intro inPrefs
    exact ⟨_, inPrefs, (deviceOf_text _ name deviceId).mpr rfl⟩

end StoreMaps

end LegacySignal
