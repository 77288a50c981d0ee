import LegacySignal.Library.Result

/-!
# Computations that may panic

A call returns when it ends with a value or with a failure that it reports.
It does not return when it panics, or when one of its loops never ends.
-/

/-- Why a call ends without a value. -/
inductive Halt (Failure : Type) where
  | panic (message : String)
  | endless
  | failure (failure : Failure)
  deriving DecidableEq, Repr

abbrev Run (Failure Value : Type) := Except (Halt Failure) Value

namespace Run

variable {Failure Other Value Next : Type} {run : Run Failure Value} {value : Value}
  {function : Failure → Other} {condition : Prop} {message : String} {done : Unit} {result : Value}
  {failure : Failure} {option : Option Value}

def panicked (message : String) : Run Failure Value := .error (.panic message)

def fail (failure : Failure) : Run Failure Value := .error (.failure failure)

def Returns : Run Failure Value → Prop
  | .ok _ => True
  | .error (.failure _) => True
  | .error (.panic _) => False
  | .error .endless => False

@[simp]
theorem returns_pure (value : Value) : Returns (pure value : Run Failure Value) := trivial

theorem returns_of_eq_ok (returned : run = .ok value) :
    Returns run := by
  rw [returned]
  trivial

theorem returns_bind {first : Run Failure Value} {rest : Value → Run Failure Next} :
    Returns (first >>= rest) ↔
      Returns first ∧ ∀ value, first = .ok value → Returns (rest value) := by
  rcases first with (message | _ | failure) | value <;> simp [bind, Except.bind, Returns]

def mapFailure (function : Failure → Other) : Run Failure Value → Run Other Value
  | .ok value => .ok value
  | .error (.failure failure) => .error (.failure (function failure))
  | .error (.panic message) => .error (.panic message)
  | .error .endless => .error .endless

theorem mapFailure_eq_ok :
    mapFailure function run = .ok value ↔ run = .ok value := by
  rcases run with (message | _ | failure) | found <;> simp [mapFailure]

@[simp]
theorem returns_mapFailure :
    Returns (mapFailure function run) ↔ Returns run := by
  rcases run with (message | _ | failure) | found <;> rfl

def ensure (condition : Prop) [Decidable condition] (failure : Failure) : Run Failure Unit :=
  if condition then .ok () else fail failure

def okOr (value : Option Value) (failure : Failure) : Run Failure Value :=
  match value with
  | none => fail failure
  | some found => .ok found

def expect (value : Option Value) (message : String) : Run Failure Value :=
  match value with
  | none => panicked message
  | some found => .ok found

theorem expect_eq_ok :
    (expect option message : Run Failure Value) = .ok result ↔ option = some result := by
  cases option <;> simp [expect, panicked]

theorem expect_some (found : option = some result) :
    (expect option message : Run Failure Value) = .ok result :=
  expect_eq_ok.mpr found

theorem ensure_eq_ok [Decidable condition] :
    ensure condition failure = .ok done ↔ condition := by
  unfold ensure
  by_cases holds : condition <;> simp [holds, fail]

theorem okOr_eq_ok :
    okOr option failure = .ok result ↔ option = some result := by
  cases option <;> simp [okOr, fail]

@[simp]
theorem returns_ensure [Decidable condition] :
    Returns (ensure condition failure) := by
  unfold ensure
  split <;> trivial

@[simp]
theorem returns_okOr :
    Returns (okOr option failure) := by
  cases option <;> trivial

theorem returns_ensure_bind [Decidable condition] {rest : Unit → Run Failure Next} :
    Returns (ensure condition failure >>= rest) ↔ (condition → Returns (rest ())) := by
  simp only [returns_bind, returns_ensure, ensure_eq_ok, true_and]
  exact ⟨fun returns => returns (), fun returns _ => returns⟩

theorem returns_okOr_bind {rest : Value → Run Failure Next} :
    Returns (okOr option failure >>= rest) ↔
      ∀ found, option = some found → Returns (rest found) := by
  simp [returns_bind, okOr_eq_ok]

section loop

variable {Item State : Type} {values : List Item}
  {visit : Item → State → Run Failure (ForInStep State)}

theorem returns_forIn (returns : ∀ value ∈ values, ∀ state, Returns (visit value state))
    (state : State) : Returns (forIn values state visit) := by
  induction values generalizing state with
  | nil => trivial
  | cons value rest ih =>
    rw [List.forIn_cons, returns_bind]
    refine ⟨returns value List.mem_cons_self state, ?_⟩
    intro next _
    cases next with
    | done final => trivial
    | yield next => exact ih (fun other member => returns other (.tail _ member)) next

theorem forIn_invariant {motive : State → Prop}
    (keeps : ∀ value ∈ values, ∀ state next, motive state →
      (visit value state = .ok (.yield next) ∨ visit value state = .ok (.done next)) → motive next)
    {state final : State} (holds : motive state) (ended : forIn values state visit = .ok final) :
    motive final := by
  induction values generalizing state with
  | nil =>
    cases ended
    exact holds
  | cons value rest ih =>
    rw [List.forIn_cons, Result.bind_eq_ok] at ended
    obtain ⟨round, visited, ended⟩ := ended
    cases round with
    | done next =>
      cases ended
      exact keeps value List.mem_cons_self state _ holds (.inr visited)
    | yield next =>
      exact ih (fun other member => keeps other (.tail _ member))
        (keeps value List.mem_cons_self state next holds (.inl visited)) ended

end loop

/-- A loop that only checks returns when each check that it reaches does. -/
theorem returns_forM {Item : Type} {check : Item → Run Failure Unit} {values : List Item} :
    Returns (values.forM check) ↔ ∀ before value after, values = before ++ value :: after →
      (∀ other ∈ before, check other = .ok ()) → Returns (check value) := by
  induction values with
  | nil =>
    refine ⟨fun _ before value after split => ?_, fun _ => trivial⟩
    cases before <;> cases split
  | cons first rest ih =>
    rw [List.forM, returns_bind, ih]
    constructor
    · rintro ⟨returns, others⟩ before value after split earlier
      cases before with
      | nil =>
        cases split
        exact returns
      | cons head before =>
        cases split
        exact others () (earlier first List.mem_cons_self) before value after rfl
          fun other member => earlier other (.tail _ member)
    · intro reached
      refine ⟨reached [] first rest rfl fun _ member => absurd member List.not_mem_nil, ?_⟩
      intro _ done before value after split earlier
      refine reached (first :: before) value after (by rw [split]; rfl) ?_
      intro other member
      rcases List.mem_cons.mp member with rfl | member
      · exact done
      · exact earlier other member

end Run
