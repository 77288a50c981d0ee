import LegacySignal.Library.Decimal

/-!
# The keys of the protocol store

`SharedPrefsSignalProtocolStore` keeps items of eight kinds in one flat
namespace of texts. Each text starts with a word for its kind, so texts of
different kinds differ, with one exception: the identity of the name
`key_pair` has the text of the own identity key pair.
-/

namespace LegacySignal

structure SignalProtocolAddress where
  name : String
  deviceId : Int32
deriving DecidableEq, Repr

/-- What an item is stored for. -/
inductive StoreKey where
  | identityKeyPair
  | localRegistrationId
  | deliveryCertificate
  | identity (name : String)
  | preKey (id : Int32)
  | session (address : SignalProtocolAddress)
  | signedPreKey (id : Int32)
  | kyberPreKey (id : Int32)
deriving DecidableEq, Repr

namespace StoreKey

def decimal (value : Int32) : String :=
  String.ofList (Decimal.ofInt value)

/-- `"session_${name}_"`, which the texts of all sessions of the name start with. -/
def sessionsOf (name : String) : String :=
  "session_" ++ name ++ "_"

def text : StoreKey → String
  | .identityKeyPair => "identity_key_pair"
  | .localRegistrationId => "local_registration_id"
  | .deliveryCertificate => "delivery_certificate"
  | .identity name => "identity_" ++ name
  | .preKey id => "prekey_" ++ decimal id
  | .session address => sessionsOf address.name ++ decimal address.deviceId
  | .signedPreKey id => "signed_prekey_" ++ decimal id
  | .kyberPreKey id => "kyber_prekey_" ++ decimal id

/-- The word that a text starts with, as far as it tells the kinds apart. -/
def wordOf : List Char → ℕ
  | 'i' :: _ => 0
  | 'l' :: _ => 1
  | 'd' :: _ => 2
  | 'p' :: _ => 3
  | 's' :: 'e' :: _ => 4
  | 's' :: 'i' :: _ => 5
  | 'k' :: _ => 6
  | _ => 7

def word : StoreKey → ℕ
  | .identityKeyPair => 0
  | .localRegistrationId => 1
  | .deliveryCertificate => 2
  | .identity _ => 0
  | .preKey _ => 3
  | .session _ => 4
  | .signedPreKey _ => 5
  | .kyberPreKey _ => 6

theorem wordOf_text (key : StoreKey) : wordOf key.text.toList = key.word := by
  cases key with
  | identityKeyPair => rfl
  | localRegistrationId => rfl
  | deliveryCertificate => rfl
  | session address =>
    rw [text, sessionsOf, String.toList_append, String.toList_append, String.toList_append]
    rfl
  | _ =>
    rw [text, String.toList_append]
    rfl

@[simp]
theorem toList_decimal (value : Int32) : (decimal value).toList = Decimal.ofInt value :=
  String.toList_ofList

theorem decimal_injective : Function.Injective decimal := by
  intro value other same
  apply Decimal.ofInt_injective
  rw [← toList_decimal, same, toList_decimal]

theorem append_injective (word : String) : Function.Injective (word ++ ·) := by
  intro text other same
  have lists := congrArg String.toList same
  simp only [String.toList_append, List.append_cancel_left_eq] at lists
  exact String.toList_inj.mp lists

theorem text_session_toList (address : SignalProtocolAddress) :
    (text (.session address)).toList =
      "session_".toList ++ (address.name.toList ++ '_' :: Decimal.ofInt address.deviceId) := by
  rw [text, sessionsOf, String.toList_append, String.toList_append, String.toList_append,
    toList_decimal, List.append_assoc, List.append_assoc]
  rfl

theorem text_session_injective {address other : SignalProtocolAddress}
    (same : text (.session address) = text (.session other)) : address = other := by
  have lists := congrArg String.toList same
  rw [text_session_toList, text_session_toList, List.append_cancel_left_eq] at lists
  rcases address with ⟨name, deviceId⟩
  rcases other with ⟨otherName, otherDeviceId⟩
  rcases Decimal.eq_or_underscore_mem (Decimal.underscore_not_mem_ofInt deviceId) lists with
    ⟨sameName, sameDevice⟩ | inDigits
  · have names : name = otherName := String.toList_inj.mp sameName
    rw [names, Decimal.ofInt_injective sameDevice]
  · exact absurd inDigits (Decimal.underscore_not_mem_ofInt otherDeviceId)

/-- All keys but the identity that shares its text. -/
def separate : Set StoreKey :=
  { key | key ≠ .identity "key_pair" }

/-- No other two keys share a text. -/
theorem text_injOn : Set.InjOn text separate := by
  intro key keySeparate other otherSeparate same
  have words : key.word = other.word := by
    rw [← wordOf_text, ← wordOf_text, same]
  cases key with
  | identityKeyPair =>
    cases other with
    | identityKeyPair => rfl
    | identity name =>
      exfalso
      apply otherSeparate
      have shared : "identity_" ++ "key_pair" = "identity_" ++ name := same
      rw [append_injective _ shared]
    | _ => cases words
  | identity name =>
    cases other with
    | identityKeyPair =>
      exfalso
      apply keySeparate
      have shared : "identity_" ++ name = "identity_" ++ "key_pair" := same
      rw [append_injective _ shared]
    | identity otherName => rw [append_injective _ same]
    | _ => cases words
  | localRegistrationId =>
    cases other with
    | localRegistrationId => rfl
    | _ => cases words
  | deliveryCertificate =>
    cases other with
    | deliveryCertificate => rfl
    | _ => cases words
  | preKey id =>
    cases other with
    | preKey otherId => rw [decimal_injective (append_injective _ same)]
    | _ => cases words
  | session address =>
    cases other with
    | session otherAddress => rw [text_session_injective same]
    | _ => cases words
  | signedPreKey id =>
    cases other with
    | signedPreKey otherId => rw [decimal_injective (append_injective _ same)]
    | _ => cases words
  | kyberPreKey id =>
    cases other with
    | kyberPreKey otherId => rw [decimal_injective (append_injective _ same)]
    | _ => cases words

end StoreKey

end LegacySignal
