import Mathlib.Tactic.Ring
import Mathlib.Data.List.Basic

/-!
# Variable-width numbers

Numbers in groups of seven bits, the lowest first, with the top bit set on
every byte but the last. A number of 64 bits takes at most ten bytes, and of
the tenth only the lowest bit may be set. This is `encode_varint` and
`decode_varint` of the crate `prost`, of which reading back what was written
(`decode_encode`) is the law in use.
-/

namespace Varint

/-- The bytes of a number, at most as many as the limit. -/
def encodeLoop : ℕ → ℕ → List UInt8
  | 0, _ => []
  | limit + 1, number =>
    if number < 128 then [UInt8.ofNat number]
    else UInt8.ofNat (number % 128 + 128) :: encodeLoop limit (number / 128)

def encode (number : ℕ) : List UInt8 := encodeLoop 10 number

/-- The number that the bytes start with, of at most as many bytes as the limit. -/
def decodeLoop : ℕ → List UInt8 → Option ℕ
  | 0, _ => none
  | _ + 1, [] => none
  | limit + 1, byte :: rest =>
    if byte.toNat < 128 then
      if limit = 0 ∧ 2 ≤ byte.toNat then none else some byte.toNat
    else (decodeLoop limit rest).map fun high => byte.toNat % 128 + 128 * high

def decode (bytes : List UInt8) : Option ℕ := decodeLoop 10 bytes

theorem decodeLoop_encodeLoop (limit number : ℕ) (rest : List UInt8)
    (small : number < 2 * 128 ^ limit) :
    decodeLoop (limit + 1) (encodeLoop (limit + 1) number ++ rest) = some number := by
  induction limit generalizing number with
  | zero =>
    have oneBit : number < 2 := by simpa using small
    have value : (UInt8.ofNat number).toNat = number := by
      rw [UInt8.toNat_ofNat']
      omega
    simp [encodeLoop, decodeLoop, show number < 128 by omega, value, show ¬2 ≤ number by omega]
  | succ limit ih =>
    unfold encodeLoop decodeLoop
    by_cases single : number < 128
    · have value : (UInt8.ofNat number).toNat = number := by
        rw [UInt8.toNat_ofNat']
        omega
      simp [single, value]
    · have value : (UInt8.ofNat (number % 128 + 128)).toNat = number % 128 + 128 := by
        rw [UInt8.toNat_ofNat']
        omega
      have highSmall : number / 128 < 2 * 128 ^ limit := by
        rw [Nat.div_lt_iff_lt_mul (by decide)]
        calc number < 2 * 128 ^ (limit + 1) := small
          _ = 2 * 128 ^ limit * 128 := by ring
      simp only [single, if_false, List.cons_append, value, ih _ highSmall, Option.map_some]
      rw [if_neg (by omega), Option.some.injEq]
      omega

variable {number : ℕ}

theorem decode_encode (small : number < 2 ^ 64) (rest : List UInt8) :
    decode (encode number ++ rest) = some number := by
  apply decodeLoop_encodeLoop
  calc number < 2 ^ 64 := small
    _ = 2 * 128 ^ 9 := by norm_num

/-- The bytes encode the number, in its shortest form or with zeros at the end. -/
inductive Encodes : List UInt8 → ℕ → Prop
  | last {byte : UInt8} : byte.toNat < 128 → Encodes [byte] byte.toNat
  | more {byte : UInt8} {rest : List UInt8} {high : ℕ} : 128 ≤ byte.toNat →
      Encodes rest high → Encodes (byte :: rest) (byte.toNat % 128 + 128 * high)

variable {bytes : List UInt8} {limit : ℕ}

theorem Encodes.length_pos (encodes : Encodes bytes number) :
    0 < bytes.length := by
  cases encodes <;> exact Nat.succ_pos _

/-- The end of an encoding can be seen in the bytes. -/
theorem Encodes.unique {bytes others rest otherRest : List UInt8} {number other : ℕ}
    (encodes : Encodes bytes number) (otherEncodes : Encodes others other)
    (same : bytes ++ rest = others ++ otherRest) :
    bytes = others ∧ number = other ∧ rest = otherRest := by
  induction encodes generalizing others other with
  | last small =>
    cases otherEncodes with
    | last _ =>
      obtain ⟨rfl, rfl⟩ : _ = _ ∧ rest = otherRest := by simpa using same
      exact ⟨rfl, rfl, rfl⟩
    | more large _ =>
      obtain ⟨rfl, _⟩ := List.cons.inj same
      omega
  | more large _ ih =>
    cases otherEncodes with
    | last small =>
      obtain ⟨rfl, _⟩ := List.cons.inj same
      omega
    | more _ otherRestEncodes =>
      obtain ⟨rfl, restSame⟩ := List.cons.inj same
      obtain ⟨rfl, rfl, rfl⟩ := ih otherRestEncodes restSame
      exact ⟨rfl, rfl, rfl⟩

theorem Encodes.eq_of_length {bytes others : List UInt8} (encodes : Encodes bytes number)
    (otherEncodes : Encodes others number) (same : bytes.length = others.length) :
    bytes = others := by
  induction encodes generalizing others with
  | @last byte small =>
    generalize value : byte.toNat = number at otherEncodes
    cases otherEncodes with
    | last _ => rw [UInt8.toNat_inj.mp value]
    | more _ otherRest =>
      have := otherRest.length_pos
      simp only [List.length_cons, List.length_nil] at same
      omega
  | @more byte rest high large restEncodes ih =>
    generalize value : byte.toNat % 128 + 128 * high = number at otherEncodes
    cases otherEncodes with
    | last _ =>
      have := restEncodes.length_pos
      simp only [List.length_cons, List.length_nil] at same
      omega
    | @more other otherRest otherHigh otherLarge otherEncodes =>
      have small := byte.toNat_lt
      have otherSmall := other.toNat_lt
      have sameHigh : high = otherHigh := by omega
      have sameByte : byte = other := UInt8.toNat_inj.mp (by omega)
      subst sameHigh sameByte
      rw [ih otherEncodes (by simpa using same)]

theorem encodes_singleton (small : number < 128) :
    Encodes [UInt8.ofNat number] number := by
  have value : (UInt8.ofNat number).toNat = number := by
    rw [UInt8.toNat_ofNat']
    omega
  have encodes : Encodes [UInt8.ofNat number] (UInt8.ofNat number).toNat := .last (by omega)
  rwa [value] at encodes

theorem encodes_encodeLoop {limit number : ℕ} (small : number < 128 ^ (limit + 1)) :
    Encodes (encodeLoop (limit + 1) number) number := by
  induction limit generalizing number with
  | zero =>
    have oneByte : number < 128 := by simpa using small
    rw [encodeLoop, if_pos oneByte]
    exact encodes_singleton oneByte
  | succ limit ih =>
    rw [encodeLoop]
    by_cases single : number < 128
    · rw [if_pos single]
      exact encodes_singleton single
    · have value : (UInt8.ofNat (number % 128 + 128)).toNat = number % 128 + 128 := by
        rw [UInt8.toNat_ofNat']
        omega
      have highSmall : number / 128 < 128 ^ (limit + 1) := by
        rw [Nat.div_lt_iff_lt_mul (by decide), ← pow_succ]
        exact small
      have encodes := Encodes.more (show 128 ≤ (UInt8.ofNat (number % 128 + 128)).toNat by omega)
        (ih highSmall)
      rw [value, show (number % 128 + 128) % 128 + 128 * (number / 128) = number by omega]
        at encodes
      rwa [if_neg single]

theorem encodes_encode (small : number < 2 ^ 64) : Encodes (encode number) number :=
  encodes_encodeLoop (small.trans (show 2 ^ 64 < 128 ^ 10 by decide))

theorem Encodes.length_encodeLoop_le (encodes : Encodes bytes number) (limit : ℕ) :
    (encodeLoop limit number).length ≤ bytes.length := by
  induction encodes generalizing limit with
  | last small =>
    cases limit with
    | zero => exact Nat.zero_le _
    | succ limit => simp [encodeLoop, small]
  | @more byte rest high large restEncodes ih =>
    cases limit with
    | zero => exact Nat.zero_le _
    | succ limit =>
      rw [encodeLoop]
      split
      · exact Nat.succ_pos _
      · rw [List.length_cons, List.length_cons,
          show (byte.toNat % 128 + 128 * high) / 128 = high by omega]
        exact Nat.succ_le_succ (ih limit)

theorem encodes_of_decodeLoop (decoded : decodeLoop (limit + 1) bytes = some number) :
    ∃ front rest, bytes = front ++ rest ∧ Encodes front number ∧ front.length ≤ limit + 1 := by
  induction bytes generalizing limit number with
  | nil => cases decoded
  | cons byte rest ih =>
    by_cases small : byte.toNat < 128
    · rw [decodeLoop, if_pos small, Option.ite_none_left_eq_some, Option.some.injEq] at decoded
      obtain ⟨_, rfl⟩ := decoded
      exact ⟨[byte], rest, rfl, .last small, by simp⟩
    · rw [decodeLoop, if_neg small, Option.map_eq_some_iff] at decoded
      obtain ⟨high, restDecoded, rfl⟩ := decoded
      cases limit with
      | zero => cases restDecoded
      | succ limit =>
        obtain ⟨front, after, rfl, encodes, short⟩ := ih restDecoded
        exact ⟨byte :: front, after, rfl, .more (by omega) encodes,
          by rw [List.length_cons]; omega⟩

theorem Encodes.decodeLoop {front : List UInt8} (encodes : Encodes front number)
    (short : front.length ≤ limit + 1) (small : number < 2 * 128 ^ limit) (rest : List UInt8) :
    Varint.decodeLoop (limit + 1) (front ++ rest) = some number := by
  induction encodes generalizing limit with
  | @last byte oneByte =>
    rw [List.singleton_append, Varint.decodeLoop, if_pos oneByte, if_neg]
    rintro ⟨rfl, large⟩
    simp at small
    omega
  | @more byte bytes high large restEncodes ih =>
    have nonempty := restEncodes.length_pos
    rw [List.length_cons] at short
    obtain ⟨limit, rfl⟩ : ∃ less, limit = less + 1 := ⟨limit - 1, by omega⟩
    have highSmall : high < 2 * 128 ^ limit := by
      rw [pow_succ] at small
      omega
    rw [List.cons_append, Varint.decodeLoop, if_neg (by omega), ih (by omega) highSmall]
    rfl

theorem decode_eq_some_iff (small : number < 2 ^ 64) :
    decode bytes = some number ↔
      ∃ front rest, bytes = front ++ rest ∧ Encodes front number ∧ front.length ≤ 10 := by
  constructor
  · exact encodes_of_decodeLoop
  · rintro ⟨front, rest, rfl, encodes, short⟩
    exact encodes.decodeLoop short (small.trans_eq (by decide)) rest

end Varint
