import Mathlib

/-!
# Numbers as bytes, the highest first
-/

/-- The lowest so many bytes of the number. -/
def bigEndian : ℕ → ℕ → List UInt8
  | 0, _ => []
  | width + 1, value => bigEndian width (value / 256) ++ [UInt8.ofNat value]

@[simp]
theorem length_bigEndian (width value : ℕ) : (bigEndian width value).length = width := by
  induction width generalizing value with
  | zero => rfl
  | succ width ih => simp [bigEndian, ih]

theorem bigEndian_injective {width value other : ℕ} (small : value < 256 ^ width)
    (otherSmall : other < 256 ^ width) (same : bigEndian width value = bigEndian width other) :
    value = other := by
  induction width generalizing value other with
  | zero =>
    rw [Nat.pow_zero] at small otherSmall
    omega
  | succ width ih =>
    rw [Nat.pow_succ] at small otherSmall
    unfold bigEndian at same
    have parts := List.append_inj same (by simp)
    have upper : value / 256 = other / 256 := ih (by omega) (by omega) parts.1
    have lower : value % 256 = other % 256 := by
      have bytes := congrArg UInt8.toNat (List.singleton_inj.mp parts.2)
      simpa using bytes
    omega
