import LegacySignal.Library.Result

/-!
# Profile fields

`ProfileCipher`: a field is padded with zeros to a fixed length and encrypted
with AES-GCM under the profile key. The length of the field is not recorded, so
all zeros at the end are taken for padding when it is decrypted.

The cipher is a parameter; that it throws is `none`.
-/

namespace LegacySignal

open List

structure ProfileAead where
  /-- Under a key and a nonce, with a tag of 16 bytes at the end. -/
  encrypt : List UInt8 → List UInt8 → List UInt8 → List UInt8
  decrypt : List UInt8 → List UInt8 → List UInt8 → Option (List UInt8)

/-- Decryption undoes encryption, and throws when there is not even a tag. -/
structure ProfileAead.Lawful (aead : ProfileAead) : Prop where
  decrypt_encrypt (key nonce text : List UInt8) :
    aead.decrypt key nonce (aead.encrypt key nonce text) = some text
  too_short (key nonce data : List UInt8) (short : data.length < 16) :
    aead.decrypt key nonce data = none

inductive ProfileException where
  | indexOutOfBounds
  | invalidCipherText
deriving DecidableEq, Repr

namespace ProfileCipher

open Result

variable (aead : ProfileAead)

def encrypt (key nonce input : List UInt8) (paddedLength : ℕ) :
    Except ProfileException (List UInt8) := do
  ensure (input.length ≤ paddedLength) .indexOutOfBounds
  let inputPadded := input ++ replicate (paddedLength - input.length) 0
  pure (nonce ++ aead.encrypt key nonce inputPadded)

def encryptBoolean (key nonce : List UInt8) (input : Bool) : Except ProfileException (List UInt8) :=
  encrypt aead key nonce [if input then 1 else 0] 1

/-- The loop that finds the last byte that is not zero. -/
def unpaddedLength (result : List UInt8) : ℕ → ℕ
  | 0 => 0
  | length + 1 => if result[length]? = some 0 then unpaddedLength result length else length + 1

def decrypt (key input : List UInt8) : Except ProfileException (List UInt8) := do
  ensure (12 ≤ input.length) .indexOutOfBounds
  let result ← okOr (aead.decrypt key (input.take 12) (input.drop 12)) .invalidCipherText
  pure (result.take (unpaddedLength result result.length))

theorem take_unpaddedLength (result : List UInt8) {length : ℕ} (le : length ≤ result.length) :
    result.take (unpaddedLength result length) = (result.take length).rdropWhile (· == 0) := by
  induction length with
  | zero => rfl
  | succ length ih =>
    have bound : length < result.length := by omega
    rw [unpaddedLength, getElem?_eq_getElem bound, take_succ_eq_append_getElem bound]
    by_cases zero : result[length] = 0
    · rw [if_pos (by rw [zero]), rdropWhile_concat_pos _ _ _ (by simpa using zero)]
      exact ih (by omega)
    · rw [if_neg (by simpa using zero), rdropWhile_concat_neg _ _ _ (by simpa using zero),
        take_succ_eq_append_getElem bound]

theorem rdropWhile_padded (text : List UInt8) (count : ℕ) :
    (text ++ replicate count 0).rdropWhile (· == 0) = text.rdropWhile (· == 0) := by
  induction count with
  | zero => rw [replicate_zero, append_nil]
  | succ count ih =>
    rw [replicate_succ', ← append_assoc,
      rdropWhile_concat_pos _ _ _ (by decide), ih]

section roundTrip

variable {aead} {key nonce text input : List UInt8} {paddedLength : ℕ}

theorem decrypt_encrypted (lawful : aead.Lawful) (twelve : nonce.length = 12)
    (fits : text.length ≤ paddedLength) :
    (encrypt aead key nonce text paddedLength >>= decrypt aead key) =
      .ok (text.rdropWhile (· == 0)) := by
  unfold encrypt
  rw [ensure, if_pos fits]
  change decrypt aead key (nonce ++ aead.encrypt key nonce _) = _
  unfold decrypt
  rw [take_left' twelve, drop_left' twelve, lawful.decrypt_encrypt,
    ensure, if_pos (by rw [length_append]; omega)]
  change Except.ok _ = Except.ok _
  rw [take_unpaddedLength _ le_rfl, take_length, rdropWhile_padded]

theorem decrypt_short (lawful : aead.Lawful) (short : input.length < 28) :
    ∃ exception, decrypt aead key input = .error exception := by
  unfold decrypt
  by_cases enough : 12 ≤ input.length
  · rw [ensure, if_pos enough, lawful.too_short _ _ _ (by rw [length_drop]; omega)]
    exact ⟨.invalidCipherText, rfl⟩
  · rw [ensure, if_neg enough]
    exact ⟨.indexOutOfBounds, rfl⟩

/-- A field comes back without the zeros at its end, so unchanged exactly if there are none. Fewer
than 28 bytes are never decrypted. -/
theorem decrypt_encrypt_iff (lawful : aead.Lawful) :
    (∀ (key nonce text : List UInt8) (paddedLength : ℕ), nonce.length = 12 →
      text.length ≤ paddedLength →
      (encrypt aead key nonce text paddedLength >>= decrypt aead key) =
        .ok (text.rdropWhile (· == 0)) ∧
      ((encrypt aead key nonce text paddedLength >>= decrypt aead key) = .ok text ↔
        text.getLast? ≠ some 0)) ∧
    ∀ key input : List UInt8, input.length < 28 →
      ∃ exception, decrypt aead key input = .error exception := by
  refine ⟨?_, fun key input short => decrypt_short lawful short⟩
  intro key nonce text paddedLength twelve fits
  have decrypted := @decrypt_encrypted aead key nonce text paddedLength lawful twelve fits
  refine ⟨decrypted, ?_⟩
  rw [decrypted, Except.ok.injEq, rdropWhile_eq_self_iff]
  constructor
  · intro notZero isZero
    have notEmpty : text ≠ [] := by
      rintro rfl
      cases isZero
    rw [getLast?_eq_some_getLast notEmpty] at isZero
    exact notZero notEmpty (by simpa using isZero)
  · intro notZero notEmpty isZero
    rw [getLast?_eq_some_getLast notEmpty] at notZero
    exact notZero (congrArg some (by simpa using isZero))

end roundTrip

namespace Toy

/-- The tag repeats the first byte of the key. -/
def toyAead : ProfileAead where
  encrypt key _ text := text ++ replicate 16 (key.headD 0)
  decrypt key _ data :=
    if 16 ≤ data.length ∧ data.drop (data.length - 16) = replicate 16 (key.headD 0) then
      some (data.take (data.length - 16))
    else none

theorem toyAead_lawful : toyAead.Lawful where
  decrypt_encrypt key nonce text := by
    simp [toyAead]
  too_short key nonce data short := if_neg fun both => absurd both.1 (Nat.not_le_of_lt short)

def key : List UInt8 := replicate 32 7

def nonce : List UInt8 := replicate 12 0

theorem decrypt_encrypt_iff_name :
    (encrypt toyAead key nonce [74, 111] 53 >>= decrypt toyAead key) = .ok [74, 111] :=
  (((decrypt_encrypt_iff toyAead_lawful).1 key nonce [74, 111] 53 rfl (by decide)).2).mpr
    (by decide)

/-- A zero at the end of a field is taken for padding. -/
theorem decrypt_trailingZero :
    [1, 0].length ≤ 4 ∧ nonce.length = 12 ∧
      (encrypt toyAead key nonce [1, 0] 4 >>= decrypt toyAead key) = .ok [1] := by
  decide

example : (encryptBoolean toyAead key nonce false >>= decrypt toyAead key) = .ok [] := by decide

end Toy

end ProfileCipher

end LegacySignal
