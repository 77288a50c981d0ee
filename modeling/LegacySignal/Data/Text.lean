import Mathlib.Data.List.Basic

/-!
# Texts

The predicates of the Kotlin standard library that the app applies to texts.
-/

namespace LegacySignal

/-- `Char.isWhitespace`: the tabs, separators and spaces of Unicode. -/
def isWhitespace (char : Char) : Bool :=
  let code := char.toNat
  (9 ≤ code && code ≤ 13) || (28 ≤ code && code ≤ 32) || code = 0xA0 || code = 0x1680 ||
    (0x2000 ≤ code && code ≤ 0x200A) || code = 0x2028 || code = 0x2029 || code = 0x202F ||
    code = 0x205F || code = 0x3000

def isBlank (text : String) : Bool :=
  text.toList.all isWhitespace

def isNullOrEmpty (text : Option String) : Bool :=
  match text with
  | none => true
  | some text => text = ""

def isNullOrBlank (text : Option String) : Bool :=
  match text with
  | none => true
  | some text => isBlank text

theorem isBlank_eq_false_of_mem {text : String} {char : Char} (inText : char ∈ text.toList)
    (visible : isWhitespace char = false) : isBlank text = false := by
  simp only [isBlank, List.all_eq_false, Bool.not_eq_true]
  exact ⟨char, inText, visible⟩

end LegacySignal
