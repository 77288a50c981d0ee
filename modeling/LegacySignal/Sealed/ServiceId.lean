import Mathlib

/-!
# Service ids

The identifiers of `address.rs`: a UUID with the kind of account it stands for,
in its standard text and in 17 bytes, and the addresses of devices. The text
of a UUID is the hyphenated form of the crate `uuid`, written in lower case and
read in either case.
-/

namespace LegacySignal

/-- From 1 to 127. -/
structure DeviceId where
  value : UInt8
  positive : 1 ≤ value.toNat
  small : value.toNat ≤ 127
deriving DecidableEq, Repr

def DeviceId.new (value : UInt8) : Option DeviceId :=
  if valid : 1 ≤ value.toNat ∧ value.toNat ≤ 127 then some ⟨value, valid.1, valid.2⟩ else none

@[simp] theorem DeviceId.new_value (device : DeviceId) : DeviceId.new device.value = some device :=
  dif_pos ⟨device.positive, device.small⟩

theorem DeviceId.value_ne_zero (device : DeviceId) : device.value ≠ 0 := by
  intro isZero
  have positive := device.positive
  rw [isZero] at positive
  exact absurd positive (by decide)

structure ProtocolAddress where
  name : String
  deviceId : DeviceId
deriving DecidableEq, Repr

def ProtocolAddress.text (address : ProtocolAddress) : String :=
  address.name ++ "." ++ toString address.deviceId.value.toNat

structure UuidBytes where
  bytes : List UInt8
  length_eq : bytes.length = 16
deriving DecidableEq, Repr

namespace UuidBytes

section hexadecimal

def hexDigit (value : ℕ) : Char :=
  if value < 10 then Char.ofNat (48 + value) else Char.ofNat (87 + value)

def hexValue (digit : Char) : Option ℕ :=
  if 48 ≤ digit.toNat ∧ digit.toNat ≤ 57 then some (digit.toNat - 48)
  else if 97 ≤ digit.toNat ∧ digit.toNat ≤ 102 then some (digit.toNat - 87)
  else if 65 ≤ digit.toNat ∧ digit.toNat ≤ 70 then some (digit.toNat - 55)
  else none

def formatHex (bytes : List UInt8) : List Char :=
  bytes.flatMap fun byte => [hexDigit (byte.toNat / 16), hexDigit (byte.toNat % 16)]

def parseHex : List Char → Option (List UInt8)
  | [] => some []
  | [_] => none
  | high :: low :: rest => do
      let highValue ← hexValue high
      let lowValue ← hexValue low
      let others ← parseHex rest
      return UInt8.ofNat (highValue * 16 + lowValue) :: others

variable {value : ℕ}

theorem hexValue_hexDigit (small : value < 16) :
    hexValue (hexDigit value) = some value := by
  revert value
  decide

theorem hexDigit_ne (small : value < 16) : hexDigit value ≠ 'P' := by
  revert value
  decide

theorem length_formatHex (bytes : List UInt8) : (formatHex bytes).length = 2 * bytes.length := by
  induction bytes with
  | nil => rfl
  | cons byte rest ih =>
    simp only [formatHex, List.flatMap_cons, List.length_append, List.length_cons,
      List.length_nil] at ih ⊢
    omega

theorem parseHex_formatHex (bytes : List UInt8) : parseHex (formatHex bytes) = some bytes := by
  induction bytes with
  | nil => rfl
  | cons byte rest ih =>
    have byteSmall := byte.toNat_lt
    have highSmall : byte.toNat / 16 < 16 := by omega
    have lowSmall : byte.toNat % 16 < 16 := by omega
    have value : UInt8.ofNat (byte.toNat / 16 * 16 + byte.toNat % 16) = byte := by
      rw [show byte.toNat / 16 * 16 + byte.toNat % 16 = byte.toNat by omega, UInt8.ofNat_toNat]
    change parseHex (hexDigit _ :: hexDigit _ :: formatHex rest) = _
    simp only [parseHex, hexValue_hexDigit highSmall, hexValue_hexDigit lowSmall, ih,
      Option.bind_eq_bind, Option.bind_some, value]
    rfl

end hexadecimal

section hyphens

/-- Groups of so many bytes each, with hyphens between them. -/
def formatGroups : List ℕ → List UInt8 → List Char
  | [], _ => []
  | [_], bytes => formatHex bytes
  | count :: next :: counts, bytes =>
    formatHex (bytes.take count) ++ '-' :: formatGroups (next :: counts) (bytes.drop count)

def parseGroups : List ℕ → List Char → Option (List UInt8)
  | [], text => if text.isEmpty then some [] else none
  | [count], text => if text.length = 2 * count then parseHex text else none
  | count :: next :: counts, text =>
    match text.drop (2 * count) with
    | '-' :: rest => do
        let group ← parseHex (text.take (2 * count))
        let others ← parseGroups (next :: counts) rest
        return group ++ others
    | _ => none

theorem parseGroups_formatGroups {counts : List ℕ} {bytes : List UInt8}
    (whole : bytes.length = counts.sum) :
    parseGroups counts (formatGroups counts bytes) = some bytes := by
  induction counts generalizing bytes with
  | nil =>
    rw [List.sum_nil, List.length_eq_zero_iff] at whole
    rw [whole]
    rfl
  | cons count counts ih =>
    cases counts with
    | nil =>
      rw [List.sum_singleton] at whole
      simp only [formatGroups, parseGroups, length_formatHex, whole, if_true]
      exact parseHex_formatHex bytes
    | cons next counts =>
      rw [List.sum_cons] at whole
      have groupLength : (formatHex (bytes.take count)).length = 2 * count := by
        rw [length_formatHex, List.length_take]
        omega
      have restLength : (bytes.drop count).length = (next :: counts).sum := by
        rw [List.length_drop]
        omega
      simp only [formatGroups, parseGroups, List.drop_left' groupLength,
        List.take_left' groupLength, parseHex_formatHex, ih restLength, Option.bind_eq_bind,
        Option.bind_some]
      exact congrArg some (List.take_append_drop count bytes)

end hyphens

def groups : List ℕ := [4, 2, 2, 2, 6]

def format (uuid : UuidBytes) : List Char := formatGroups groups uuid.bytes

def fromSlice (bytes : List UInt8) : Option UuidBytes :=
  if length_eq : bytes.length = 16 then some ⟨bytes, length_eq⟩ else none

@[simp] theorem fromSlice_bytes (uuid : UuidBytes) : fromSlice uuid.bytes = some uuid :=
  dif_pos uuid.length_eq

def tryParseHyphenated (text : List Char) : Option UuidBytes :=
  (parseGroups groups text).bind fromSlice

theorem tryParseHyphenated_format (uuid : UuidBytes) :
    tryParseHyphenated uuid.format = some uuid := by
  have parsed : parseGroups groups uuid.format = some uuid.bytes :=
    parseGroups_formatGroups uuid.length_eq
  rw [tryParseHyphenated, parsed, Option.bind_some, fromSlice_bytes]

theorem head_format_ne (uuid : UuidBytes) (rest : List Char) : uuid.format ≠ 'P' :: rest := by
  obtain ⟨bytes, length_eq⟩ := uuid
  cases bytes with
  | nil => simp at length_eq
  | cons byte others =>
    intro marked
    have byteSmall := byte.toNat_lt
    exact hexDigit_ne (show byte.toNat / 16 < 16 by omega) (List.cons.inj marked).1

end UuidBytes

inductive ServiceId where
  | aci (uuid : UuidBytes)
  | pni (uuid : UuidBytes)
deriving DecidableEq, Repr

namespace ServiceId

def serviceIdFixedWidthBinary : ServiceId → List UInt8
  | .aci uuid => 0 :: uuid.bytes
  | .pni uuid => 1 :: uuid.bytes

def parseFromServiceIdFixedWidthBinary : List UInt8 → Option ServiceId
  | [] => none
  | kind :: bytes =>
    (UuidBytes.fromSlice bytes).bind fun uuid =>
      if kind = 0 then some (.aci uuid) else if kind = 1 then some (.pni uuid) else none

def serviceIdString : ServiceId → String
  | .aci uuid => String.ofList uuid.format
  | .pni uuid => String.ofList ('P' :: 'N' :: 'I' :: ':' :: uuid.format)

def parseFromServiceIdString (input : String) : Option ServiceId :=
  match input.toList with
  | 'P' :: 'N' :: 'I' :: ':' :: text => (UuidBytes.tryParseHyphenated text).map .pni
  | text => (UuidBytes.tryParseHyphenated text).map .aci

@[simp] theorem length_fixedWidthBinary (id : ServiceId) :
    id.serviceIdFixedWidthBinary.length = 17 := by
  cases id <;> simp [serviceIdFixedWidthBinary, UuidBytes.length_eq]

@[simp] theorem parse_fixedWidthBinary (id : ServiceId) :
    parseFromServiceIdFixedWidthBinary id.serviceIdFixedWidthBinary = some id := by
  cases id <;> simp [serviceIdFixedWidthBinary, parseFromServiceIdFixedWidthBinary]

theorem parse_serviceIdString (id : ServiceId) :
    parseFromServiceIdString id.serviceIdString = some id := by
  unfold parseFromServiceIdString serviceIdString
  cases id with
  | aci uuid =>
    simp only [String.toList_ofList]
    split
    next text marked => exact absurd marked (uuid.head_format_ne _)
    next => rw [uuid.tryParseHyphenated_format, Option.map_some]
  | pni uuid =>
    simp only [String.toList_ofList, uuid.tryParseHyphenated_format, Option.map_some]

end ServiceId

end LegacySignal
