import Mathlib

/-!
# Computations that may fail

How a successful computation is taken apart into the successes of its parts.
-/

namespace Result

variable {Error Value Next : Type} {first : Except Error Value} {rest : Value → Except Error Next}
  {result : Next} {Last : Type} {error : Error} {function : Value → Except Error Next}
  {values : List Value}

theorem bind_eq_ok :
    (first >>= rest) = .ok result ↔ ∃ value, first = .ok value ∧ rest value = .ok result := by
  cases first <;> simp [bind, Except.bind]

theorem map_eq_ok {function : Value → Next} :
    first.map function = .ok result ↔ ∃ value, first = .ok value ∧ function value = result := by
  cases first <;> simp [Except.map]

theorem map_bind (first : Except Error Value) (rest : Value → Except Error Next)
    (function : Next → Last) :
    (first >>= rest).map function = first >>= fun value => (rest value).map function := by
  cases first <;> rfl

theorem bind_map (first : Except Error Value) (function : Value → Next)
    (rest : Next → Except Error Last) :
    (first.map function >>= rest) = first >>= fun value => rest (function value) := by
  cases first <;> rfl

theorem bind_congr {rest other : Value → Except Error Next}
    (same : ∀ value, rest value = other value) : (first >>= rest) = (first >>= other) := by
  rw [funext same]

def ensure (condition : Prop) [Decidable condition] (error : Error) : Except Error Unit :=
  if condition then .ok () else .error error

def okOr (value : Option Value) (error : Error) : Except Error Value :=
  match value with
  | none => .error error
  | some found => .ok found

theorem ensure_eq_ok {condition : Prop} [Decidable condition] {done : Unit} :
    ensure condition error = .ok done ↔ condition := by
  unfold ensure
  by_cases holds : condition <;> simp [holds]

theorem okOr_eq_ok {value : Option Value} {result : Value} :
    okOr value error = .ok result ↔ value = some result := by
  unfold okOr
  cases value <;> simp

theorem mapM_eq_ok {results : Value → Next}
    (succeed : ∀ value ∈ values, function value = .ok (results value)) :
    values.mapM function = .ok (values.map results) := by
  induction values with
  | nil => rfl
  | cons value rest ih =>
    rw [List.mapM_cons, succeed value List.mem_cons_self,
      ih fun other member => succeed other (List.mem_cons_of_mem _ member)]
    rfl

theorem forM_eq_ok {check : Value → Except Error Unit} :
    values.forM check = .ok () ↔ ∀ value ∈ values, check value = .ok () := by
  induction values with
  | nil => simp [List.forM, pure, Except.pure]
  | cons value rest ih =>
    rw [List.forM, bind_eq_ok, List.forall_mem_cons, ← ih]
    constructor
    · rintro ⟨_, first, others⟩
      exact ⟨first, others⟩
    · rintro ⟨first, others⟩
      exact ⟨_, first, others⟩

end Result
