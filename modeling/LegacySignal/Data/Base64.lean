import LegacySignal.Data.Text

/-!
# Base64

The codec belongs to the platform and not to the app, so it is a parameter
with the laws the app relies on. The usual codec of four digits for three
bytes satisfies them.
-/

namespace LegacySignal

/-- `android.util.Base64` with the flag `NO_WRAP`; `decode` is `none` where it throws. -/
structure Base64 where
  encodeToString : List UInt8 → String
  decode : String → Option (List UInt8)
  decode_encodeToString : ∀ bytes, decode (encodeToString bytes) = some bytes
  encodeToString_not_blank : ∀ bytes, bytes ≠ [] → isBlank (encodeToString bytes) = false

namespace Base64

def digit (value : ℕ) : Char :=
  if value < 26 then Char.ofNat (value + 65)
  else if value < 52 then Char.ofNat (value + 71)
  else if value < 62 then Char.ofNat (value - 4)
  else if value = 62 then '+'
  else '/'

def digitValue (char : Char) : Option ℕ :=
  let code := char.toNat
  if 65 ≤ code ∧ code ≤ 90 then some (code - 65)
  else if 97 ≤ code ∧ code ≤ 122 then some (code - 71)
  else if 48 ≤ code ∧ code ≤ 57 then some (code + 4)
  else if code = 43 then some 62
  else if code = 47 then some 63
  else none

theorem digitValue_digit : ∀ value < 64, digitValue (digit value) = some value := by
  decide

theorem digit_visible : ∀ value < 64, isWhitespace (digit value) = false := by
  decide

theorem digit_ne_pad : ∀ value < 64, digit value ≠ '=' := by
  decide

def encodeDigits : List UInt8 → List Char
  | [] => []
  | [a] => [digit (a.toNat / 4), digit (a.toNat % 4 * 16), '=', '=']
  | [a, b] =>
    [digit (a.toNat / 4), digit (a.toNat % 4 * 16 + b.toNat / 16), digit (b.toNat % 16 * 4), '=']
  | a :: b :: c :: rest =>
    digit (a.toNat / 4) :: digit (a.toNat % 4 * 16 + b.toNat / 16) ::
      digit (b.toNat % 16 * 4 + c.toNat / 64) :: digit (c.toNat % 64) :: encodeDigits rest

def decodeGroup (w x y z : Char) : Option (List UInt8) := do
  let w ← digitValue w
  let x ← digitValue x
  let first := UInt8.ofNat (w * 4 + x / 16)
  if y = '=' then
    if z = '=' then some [first] else none
  else
    let y ← digitValue y
    let second := UInt8.ofNat (x % 16 * 16 + y / 4)
    if z = '=' then some [first, second]
    else
      let z ← digitValue z
      some [first, second, UInt8.ofNat (y % 4 * 64 + z)]

def decodeDigits : List Char → Option (List UInt8)
  | [] => some []
  | w :: x :: y :: z :: rest => do
      let bytes ← decodeGroup w x y z
      let others ← decodeDigits rest
      some (bytes ++ others)
  | _ => none

theorem ofNat_eq {byte : UInt8} {value : ℕ} (same : value = byte.toNat) :
    UInt8.ofNat value = byte := by
  rw [same, UInt8.ofNat_toNat]

theorem decodeGroup_one (a : UInt8) :
    decodeGroup (digit (a.toNat / 4)) (digit (a.toNat % 4 * 16)) '=' '=' = some [a] := by
  have := a.toNat_lt
  simp only [decodeGroup, digitValue_digit _ (show a.toNat / 4 < 64 by omega),
    digitValue_digit _ (show a.toNat % 4 * 16 < 64 by omega), if_true, Option.bind_eq_bind,
    Option.bind_some]
  rw [ofNat_eq (show _ = a.toNat by omega)]

theorem decodeGroup_two (a b : UInt8) :
    decodeGroup (digit (a.toNat / 4)) (digit (a.toNat % 4 * 16 + b.toNat / 16))
      (digit (b.toNat % 16 * 4)) '=' = some [a, b] := by
  have := a.toNat_lt
  have := b.toNat_lt
  simp only [decodeGroup, digitValue_digit _ (show a.toNat / 4 < 64 by omega),
    digitValue_digit _ (show a.toNat % 4 * 16 + b.toNat / 16 < 64 by omega),
    digitValue_digit _ (show b.toNat % 16 * 4 < 64 by omega),
    digit_ne_pad _ (show b.toNat % 16 * 4 < 64 by omega), if_true, if_false, Option.bind_eq_bind,
    Option.bind_some]
  rw [ofNat_eq (show _ = a.toNat by omega), ofNat_eq (show _ = b.toNat by omega)]

theorem decodeGroup_three (a b c : UInt8) :
    decodeGroup (digit (a.toNat / 4)) (digit (a.toNat % 4 * 16 + b.toNat / 16))
      (digit (b.toNat % 16 * 4 + c.toNat / 64)) (digit (c.toNat % 64)) = some [a, b, c] := by
  have := a.toNat_lt
  have := b.toNat_lt
  have := c.toNat_lt
  simp only [decodeGroup, digitValue_digit _ (show a.toNat / 4 < 64 by omega),
    digitValue_digit _ (show a.toNat % 4 * 16 + b.toNat / 16 < 64 by omega),
    digitValue_digit _ (show b.toNat % 16 * 4 + c.toNat / 64 < 64 by omega),
    digitValue_digit _ (show c.toNat % 64 < 64 by omega),
    digit_ne_pad _ (show b.toNat % 16 * 4 + c.toNat / 64 < 64 by omega),
    digit_ne_pad _ (show c.toNat % 64 < 64 by omega), if_false, Option.bind_eq_bind,
    Option.bind_some]
  rw [ofNat_eq (show _ = a.toNat by omega), ofNat_eq (show _ = b.toNat by omega),
    ofNat_eq (show _ = c.toNat by omega)]

theorem decodeDigits_encodeDigits (bytes : List UInt8) :
    decodeDigits (encodeDigits bytes) = some bytes := by
  induction bytes using encodeDigits.induct with
  | case1 => rfl
  | case2 a => simp [encodeDigits, decodeDigits, decodeGroup_one]
  | case3 a b => simp [encodeDigits, decodeDigits, decodeGroup_two]
  | case4 a b c rest ih => simp [encodeDigits, decodeDigits, decodeGroup_three, ih]

theorem encodeDigits_head_visible {bytes : List UInt8} (nonempty : bytes ≠ []) :
    ∃ char ∈ encodeDigits bytes, isWhitespace char = false := by
  have visible : ∀ byte : UInt8, isWhitespace (digit (byte.toNat / 4)) = false :=
    fun byte => digit_visible _ (by have := byte.toNat_lt; omega)
  cases bytes using encodeDigits.fun_cases_unfolding with
  | case1 => exact absurd rfl nonempty
  | case2 a => exact ⟨_, List.mem_cons_self, visible a⟩
  | case3 a b => exact ⟨_, List.mem_cons_self, visible a⟩
  | case4 a b c rest => exact ⟨_, List.mem_cons_self, visible a⟩

def standard : Base64 where
  encodeToString bytes := String.ofList (encodeDigits bytes)
  decode text := decodeDigits text.toList
  decode_encodeToString bytes := by rw [String.toList_ofList, decodeDigits_encodeDigits]
  encodeToString_not_blank bytes nonempty := by
    rcases encodeDigits_head_visible nonempty with ⟨char, inDigits, visible⟩
    exact isBlank_eq_false_of_mem (by rwa [String.toList_ofList]) visible

example : standard.encodeToString [77, 97] = "TWE=" := by decide

end Base64

end LegacySignal
