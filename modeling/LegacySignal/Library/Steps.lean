import Mathlib.Logic.Basic

/-!
# Computations on a state that may stop

A computation changes a state and ends with a value, or stops early; what it
changed before it stopped stays. `Lockstep` carries facts about two
computations that stay related part by part.
-/

def Steps (Stop State Value : Type) : Type :=
  State → Except Stop Value × State

namespace Steps

variable {Stop State Value Next Other OtherNext : Type} {first : Steps Stop State Value}
  {rest : Value → Steps Stop State Next} {state after : State}

instance : Monad (Steps Stop State) where
  pure value := fun state => (.ok value, state)
  bind first rest := fun state =>
    match first state with
    | (.ok value, after) => rest value after
    | (.error stop, after) => (.error stop, after)

def get : Steps Stop State State := fun state => (.ok state, state)

def stop (reason : Stop) : Steps Stop State Value := fun state => (.error reason, state)

def ofExcept (result : Except Stop Value) : Steps Stop State Value := fun state => (result, state)

@[simp]
theorem snd_ofExcept (result : Except Stop Value) (state : State) :
    (ofExcept result state).2 = state := rfl

theorem bind_of_ok {value : Value} (ran : first state = (.ok value, after)) :
    (first >>= rest) state = rest value after := by
  simp only [bind, ran]

theorem bind_of_error {reason : Stop} (ran : first state = (.error reason, after)) :
    (first >>= rest) state = (.error reason, after) := by
  simp only [bind, ran]

theorem bind_congr_at {first other : Steps Stop State Value} {state : State}
    (same : first state = other state) :
    (first >>= rest) state = (other >>= rest) state := by
  simp only [bind, same]

theorem snd_bind_ofExcept {rest : Value → Except Stop Next} (state : State) :
    ((first >>= fun value => ofExcept (rest value)) state).2 =
      (first state).2 := by
  rcases ran : first state with ⟨reason | value, after⟩
  · rw [bind_of_error ran]
  · rw [bind_of_ok ran]
    rfl

/-- In every state the computation ends with this result. -/
def Yields (steps : Steps Stop State Value) (result : Except Stop Value) : Prop :=
  ∀ state, (steps state).1 = result

theorem yields_ofExcept (result : Except Stop Value) :
    Yields (ofExcept result : Steps Stop State Value) result :=
  fun _ => rfl

theorem Yields.bind {result : Except Stop Value} {others : Value → Except Stop Next}
    (start : Yields first result) (continued : ∀ value, Yields (rest value) (others value)) :
    Yields (first >>= rest) (result >>= others) := by
  intro state
  have ended := start state
  rcases ran : first state with ⟨reason | value, after⟩
  · rw [bind_of_error ran, ← ended, ran]
    rfl
  · rw [bind_of_ok ran, ← ended, ran]
    exact continued value after

/-- Both end with related values, or stop for the same reason. -/
def SameEnd (values : Value → Other → Prop) : Except Stop Value → Except Stop Other → Prop
  | .ok value, .ok other => values value other
  | .error reason, .error otherReason => reason = otherReason
  | _, _ => False

theorem eq_of_sameEnd {first second : Except Stop Value} (same : SameEnd Eq first second) :
    first = second := by
  cases first <;> cases second <;> cases same <;> rfl

/-- From related states, both computations end alike in related states. -/
def Lockstep (states : State → State → Prop) (values : Value → Other → Prop)
    (steps : Steps Stop State Value) (others : Steps Stop State Other) : Prop :=
  ∀ state other, states state other →
    SameEnd values (steps state).1 (others other).1 ∧ states (steps state).2 (others other).2

section lockstep

variable {states : State → State → Prop} {values : Value → Other → Prop}
  {nexts : Next → OtherNext → Prop} {second : Steps Stop State Other}
  {otherRest : Other → Steps Stop State OtherNext}

theorem lockstep_pure {value : Value} {other : Other} (related : values value other) :
    Lockstep states values (pure value : Steps Stop State Value) (pure other) :=
  fun _ _ before => ⟨related, before⟩

theorem lockstep_stop (reason : Stop) :
    Lockstep states values (stop reason : Steps Stop State Value) (stop reason) :=
  fun _ _ before => ⟨rfl, before⟩

theorem lockstep_get : Lockstep states states (get : Steps Stop State State) get :=
  fun _ _ before => ⟨before, before⟩

theorem lockstep_ofExcept (result : Except Stop Value) :
    Lockstep states Eq (ofExcept result : Steps Stop State Value) (ofExcept result) := by
  intro state other before
  refine ⟨?_, before⟩
  cases result with
  | error reason => exact rfl
  | ok value => exact rfl

/-- The rule for two given states: what follows may use how the first parts ran. -/
theorem sameEnd_bind {state other : State}
    (start : SameEnd values (first state).1 (second other).1 ∧
      states (first state).2 (second other).2)
    (continued : ∀ value otherValue after otherAfter, first state = (.ok value, after) →
      second other = (.ok otherValue, otherAfter) → values value otherValue →
      states after otherAfter →
        SameEnd nexts (rest value after).1 (otherRest otherValue otherAfter).1 ∧
          states (rest value after).2 (otherRest otherValue otherAfter).2) :
    SameEnd nexts ((first >>= rest) state).1 ((second >>= otherRest) other).1 ∧
      states ((first >>= rest) state).2 ((second >>= otherRest) other).2 := by
  rcases start with ⟨ends, after⟩
  rcases ran : first state with ⟨reason | value, left⟩ <;>
    rcases otherRan : second other with ⟨otherReason | otherValue, right⟩ <;>
    rw [ran, otherRan] at ends after
  · rw [bind_of_error ran, bind_of_error otherRan]
    exact ⟨ends, after⟩
  · cases ends
  · cases ends
  · rw [bind_of_ok ran, bind_of_ok otherRan]
    exact continued value otherValue left right ran otherRan ends after

theorem Lockstep.bind (start : Lockstep states values first second)
    (continued : ∀ value other, values value other →
      Lockstep states nexts (rest value) (otherRest other)) :
    Lockstep states nexts (first >>= rest) (second >>= otherRest) := by
  intro state other before
  apply sameEnd_bind (start state other before)
  intro value otherValue after otherAfter _ _ related alike
  exact continued value otherValue related after otherAfter alike

end lockstep

end Steps
