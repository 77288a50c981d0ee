import Mathlib

/-!
# Decimal texts of 32-bit integers

The text of an integer and the parser that reads it back, as in the Java
standard library. The parser also takes decimal digits of other scripts; which
characters these are is left open.

Keys that end in a separator and an integer can be taken apart again, because
the text of an integer has no underscore: `eq_or_underscore_mem`.
-/

namespace Decimal

def ofInt (value : Int32) : List Char :=
  if value.toInt < 0 then '-' :: Nat.toDigits 10 value.toInt.natAbs
  else Nat.toDigits 10 value.toInt.natAbs

section

variable (otherDigit : Char → Option ℕ)

/-- `Character.digit`; only characters beyond ASCII can be digits of another script. -/
def digit (char : Char) : Option ℕ :=
  if char.isDigit then some (char.toNat - 48)
  else if char.toNat < 128 then none
  else otherDigit char

def parseDigits : List Char → ℕ → Option ℕ
  | [], value => some value
  | char :: rest, value =>
    (digit otherDigit char).bind fun next => parseDigits rest (10 * value + next)

/-- The digits must be there, and their value must not exceed the limit. -/
def parseMagnitude (limit : ℕ) (digits : List Char) : Option ℕ :=
  if digits = [] then none
  else (parseDigits otherDigit digits 0).filter fun value => value ≤ limit

/-- `Integer.parseInt`, where none is a `NumberFormatException`. -/
def parseInt : List Char → Option Int32
  | '-' :: digits =>
    (parseMagnitude otherDigit (2 ^ 31) digits).map fun value : ℕ => Int32.ofInt (-(value : ℤ))
  | '+' :: digits =>
    (parseMagnitude otherDigit (2 ^ 31 - 1) digits).map fun value : ℕ => Int32.ofInt (value : ℤ)
  | digits =>
    (parseMagnitude otherDigit (2 ^ 31 - 1) digits).map fun value : ℕ => Int32.ofInt (value : ℤ)

end

variable {otherDigit : Char → Option ℕ} {digits : List Char}

theorem parseDigits_of_isDigit (ascii : ∀ char ∈ digits, char.isDigit = true) (value : ℕ) :
    parseDigits otherDigit digits value = some (Nat.ofDigitChars 10 digits value) := by
  induction digits generalizing value with
  | nil => simp [parseDigits]
  | cons char rest ih =>
    have isDigit := ascii char List.mem_cons_self
    simp only [parseDigits, digit, isDigit, if_true, Option.bind_some, Nat.ofDigitChars_cons]
    apply ih
    intro other member
    exact ascii other (List.mem_cons_of_mem _ member)

theorem isDigit_of_mem_toDigits {value : ℕ} {char : Char} (member : char ∈ Nat.toDigits 10 value) :
    char.isDigit = true :=
  Nat.isDigit_of_mem_toDigits (by omega) (by omega) member

theorem parseMagnitude_toDigits {limit value : ℕ} (bounded : value ≤ limit) :
    parseMagnitude otherDigit limit (Nat.toDigits 10 value) = some value := by
  have parsed := @parseDigits_of_isDigit otherDigit (Nat.toDigits 10 value)
    (fun char member => isDigit_of_mem_toDigits member) 0
  rw [Nat.ofDigitChars_ten_toDigits] at parsed
  simp [parseMagnitude, Nat.toDigits_ne_nil, parsed, bounded]

theorem parseDigits_underscore (member : '_' ∈ digits) (value : ℕ) :
    parseDigits otherDigit digits value = none := by
  induction digits generalizing value with
  | nil => cases member
  | cons char rest ih =>
    rcases List.mem_cons.mp member with rfl | inRest
    · rfl
    · simp only [parseDigits, Option.bind_eq_none_iff]
      intro next _
      exact ih inRest _

theorem parseMagnitude_underscore {limit : ℕ} (member : '_' ∈ digits) :
    parseMagnitude otherDigit limit digits = none := by
  unfold parseMagnitude
  split
  · rfl
  · rw [parseDigits_underscore member]
    rfl

theorem parseInt_underscore {text : List Char} (member : '_' ∈ text) :
    parseInt otherDigit text = none := by
  unfold parseInt
  split
  · rw [parseMagnitude_underscore (by simpa using member)]
    rfl
  · rw [parseMagnitude_underscore (by simpa using member)]
    rfl
  · rw [parseMagnitude_underscore member]
    rfl

theorem parseInt_ofInt (value : Int32) : parseInt otherDigit (ofInt value) = some value := by
  have lower := value.le_toInt
  have upper := value.toInt_lt
  unfold ofInt
  split
  · rename_i negative
    have bounded : value.toInt.natAbs ≤ 2 ^ 31 := by omega
    have back : -(value.toInt.natAbs : ℤ) = value.toInt := by omega
    simp only [parseInt, parseMagnitude_toDigits bounded, Option.map_some, back]
    rw [Int32.ofInt_toInt]
  · rename_i nonnegative
    have bounded : value.toInt.natAbs ≤ 2 ^ 31 - 1 := by omega
    have back : (value.toInt.natAbs : ℤ) = value.toInt := by omega
    have parsed := @parseMagnitude_toDigits otherDigit _ _ bounded
    unfold parseInt
    split
    · rename_i digits shape
      have := @isDigit_of_mem_toDigits value.toInt.natAbs '-' (shape ▸ List.mem_cons_self)
      cases this
    · rename_i digits shape
      have := @isDigit_of_mem_toDigits value.toInt.natAbs '+' (shape ▸ List.mem_cons_self)
      cases this
    · simp only [parsed, Option.map_some, back]
      rw [Int32.ofInt_toInt]

theorem ofInt_injective : Function.Injective ofInt := by
  intro value other same
  have parsed := @parseInt_ofInt (fun _ => none) value
  rw [same, parseInt_ofInt, Option.some.injEq] at parsed
  exact parsed.symm

theorem underscore_not_mem_ofInt (value : Int32) : '_' ∉ ofInt value := by
  unfold ofInt
  split
  · simp [Nat.underscore_not_in_toDigits]
  · exact Nat.underscore_not_in_toDigits

/-- Two ways to cut a text at an underscore, the first of them at the last one. -/
theorem eq_or_underscore_mem {name other digits rest : List Char} (plain : '_' ∉ digits)
    (same : name ++ '_' :: digits = other ++ '_' :: rest) :
    (name = other ∧ digits = rest) ∨ '_' ∈ rest := by
  rcases List.append_eq_append_iff.mp same with ⟨middle, rfl, tail⟩ | ⟨middle, rfl, tail⟩
  · cases middle with
    | nil =>
      simp only [List.nil_append, List.cons.injEq, true_and] at tail
      exact Or.inl ⟨by simp, tail⟩
    | cons char middle =>
      simp only [List.cons_append, List.cons.injEq] at tail
      exfalso
      apply plain
      rw [tail.2]
      simp
  · cases middle with
    | nil =>
      simp only [List.nil_append, List.cons.injEq, true_and] at tail
      exact Or.inl ⟨by simp, tail.symm⟩
    | cons char middle =>
      simp only [List.cons_append, List.cons.injEq] at tail
      right
      rw [tail.2]
      simp

end Decimal
