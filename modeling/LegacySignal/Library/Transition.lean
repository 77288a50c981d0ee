import Mathlib.Order.Basic
import Mathlib.Logic.Function.Iterate
import Mathlib.Tactic.Choose

/-!
# Runs of event-driven systems

A system is given by a function from a state and an event to the next state,
undefined where the event cannot happen. Everything a component is asked to
guarantee is then a statement about the states that finite event lists reach,
or about the absence of an infinite run.

`run_invariant_of_meets` is the one induction behind the safety results: it
carries an invariant along a run whose steps all satisfy a side condition.
`not_infiniteRun_of_measure` and `infiniteRun_of_recurrent` are the two sides
of termination.
-/

namespace Transition

universe u v w

variable {State : Type u} {Event : Type v} (step : State → Event → Option State) {event : Event}
  {events : List Event} {state next final : State} {before after : List Event}
  {condition : State → Event → Prop} {Invariant property : State → Prop} {start : State}

/-- The state reached when the events happen one after the other. -/
def run : State → List Event → Option State
  | state, [] => some state
  | state, event :: events => (step state event).bind fun next => run next events

/-- Every event of the list happens in a state in which `condition` allows it. -/
def Meets (condition : State → Event → Prop) : State → List Event → Prop
  | _, [] => True
  | state, event :: events =>
    condition state event ∧ ∀ next, step state event = some next → Meets condition next events

/-- Every state that the events pass through, the first one included, satisfies `property`. -/
def Always (property : State → Prop) : State → List Event → Prop
  | state, [] => property state
  | state, event :: events =>
    property state ∧ ∀ next, step state event = some next → Always property next events

/-- Some sequence of events never stops. -/
def InfiniteRun (start : State) : Prop :=
  ∃ states : ℕ → State, states 0 = start ∧
    ∀ n, ∃ event, step (states n) event = some (states (n + 1))

variable {step}

@[simp]
theorem run_nil (state : State) : run step state [] = some state := rfl

theorem run_cons {state next final : State} (stepped : step state event = some next)
    (rest : run step next events = some final) :
    run step state (event :: events) = some final := by
  simp [run, stepped, rest]

theorem exists_run_cons {property : State → Prop} (stepped : step state event = some next)
    (rest : ∃ final, run step next events = some final ∧ property final) :
    ∃ final, run step state (event :: events) = some final ∧ property final := by
  rcases rest with ⟨final, reached, holds⟩
  exact ⟨final, run_cons stepped reached, holds⟩

theorem run_cons_inv (reached : run step state (event :: events) = some final) :
    ∃ next, step state event = some next ∧ run step next events = some final := by
  simpa [run, Option.bind_eq_some_iff] using reached

theorem run_append {state middle final : State} (first : run step state before = some middle)
    (second : run step middle after = some final) :
    run step state (before ++ after) = some final := by
  induction before generalizing state with
  | nil =>
    simp only [run_nil, Option.some.injEq] at first
    subst first
    exact second
  | cons event events ih =>
    rcases run_cons_inv first with ⟨next, stepped, rest⟩
    exact run_cons stepped (ih rest)

theorem run_invariant_of_meets
    (preserved : ∀ state event next, Invariant state → condition state event →
      step state event = some next → Invariant next) (initial : Invariant state)
    (meets : Meets step condition state events) (reached : run step state events = some final) :
    Invariant final := by
  induction events generalizing state with
  | nil =>
    simp only [run_nil, Option.some.injEq] at reached
    exact reached ▸ initial
  | cons event events ih =>
    rcases run_cons_inv reached with ⟨next, stepped, rest⟩
    rcases meets with ⟨allowed, later⟩
    exact ih (preserved state event next initial allowed stepped) (later next stepped) rest

theorem meets_cons (allowed : condition state event) (stepped : step state event = some next)
    (rest : Meets step condition next events) : Meets step condition state (event :: events) := by
  refine ⟨allowed, ?_⟩
  intro other otherStepped
  rw [stepped] at otherStepped
  cases otherStepped
  exact rest

theorem meets_append {state middle : State} (first : Meets step condition state before)
    (reached : run step state before = some middle) (second : Meets step condition middle after) :
    Meets step condition state (before ++ after) := by
  induction before generalizing state with
  | nil =>
    simp only [run_nil, Option.some.injEq] at reached
    subst reached
    exact second
  | cons event events ih =>
    rcases run_cons_inv reached with ⟨next, stepped, rest⟩
    exact meets_cons first.1 stepped (ih (first.2 next stepped) rest)

theorem meets_and {first second : State → Event → Prop} (one : Meets step first state events)
    (two : Meets step second state events) :
    Meets step (fun state event => first state event ∧ second state event) state events := by
  induction events generalizing state with
  | nil => trivial
  | cons event events ih =>
    refine ⟨⟨one.1, two.1⟩, ?_⟩
    intro next stepped
    exact ih (one.2 next stepped) (two.2 next stepped)

theorem meets_trivial (state : State) (events : List Event) :
    Meets step (fun _ _ => True) state events := by
  induction events generalizing state with
  | nil => trivial
  | cons event events ih => exact ⟨trivial, fun next _ => ih next⟩

/-- Along a run that meets the condition, everything holds of the steps that the invariant and the
condition imply. -/
theorem meets_of_invariant {condition goal : State → Event → Prop}
    (preserved : ∀ state event, Invariant state → condition state event → goal state event ∧
      ∀ next, step state event = some next → Invariant next) (initial : Invariant state)
    (meets : Meets step condition state events) : Meets step goal state events := by
  induction events generalizing state with
  | nil => trivial
  | cons event events ih =>
    rcases meets with ⟨allowed, later⟩
    rcases preserved state event initial allowed with ⟨holds, kept⟩
    exact ⟨holds, fun next stepped => ih (kept next stepped) (later next stepped)⟩

theorem always_of_meets (preserved : ∀ state event next, Invariant state → condition state event →
      step state event = some next → Invariant next)
    (implies : ∀ state, Invariant state → property state) (initial : Invariant state)
    (meets : Meets step condition state events) : Always step property state events := by
  induction events generalizing state with
  | nil => exact implies state initial
  | cons event events ih =>
    refine ⟨implies state initial, ?_⟩
    intro next stepped
    exact ih (preserved state event next initial meets.1 stepped) (meets.2 next stepped)

/-- Whether a given list of events meets a decidable condition can be computed. -/
instance decidableMeets {condition : State → Event → Prop}
    [∀ state event, Decidable (condition state event)] :
    ∀ (state : State) (events : List Event), Decidable (Meets step condition state events)
  | _, [] => isTrue trivial
  | state, event :: events =>
    match stepped : step state event with
    | none =>
      decidable_of_iff (condition state event)
        ⟨fun allowed => ⟨allowed, fun next other => by simp [stepped] at other⟩, And.left⟩
    | some next =>
      have : Decidable (Meets step condition next events) := decidableMeets next events
      decidable_of_iff (condition state event ∧ Meets step condition next events)
        ⟨fun ⟨allowed, later⟩ => ⟨allowed, fun other otherStep => by
          rw [stepped, Option.some.injEq] at otherStep
          exact otherStep ▸ later⟩,
        fun ⟨allowed, later⟩ => ⟨allowed, later next stepped⟩⟩

theorem run_invariant
    (preserved : ∀ state event next, Invariant state → step state event = some next →
      Invariant next) (initial : Invariant state) (reached : run step state events = some final) :
    Invariant final :=
  run_invariant_of_meets (fun state event next holds _ => preserved state event next holds)
    initial (meets_trivial state events) reached

/-- When a step from an invariant state keeps a property exactly if the condition allows it, the
property holds all along exactly those runs that meet the condition. -/
theorem always_iff_meets
    (preserved : ∀ state event next, Invariant state → condition state event →
      step state event = some next → Invariant next)
    (exact_step : ∀ state event next, Invariant state → property state →
      step state event = some next → (property next ↔ condition state event))
    (invariant : Invariant state) (initial : property state)
    (reached : run step state events = some final) :
    Always step property state events ↔ Meets step condition state events := by
  induction events generalizing state with
  | nil => exact ⟨fun _ => trivial, fun _ => initial⟩
  | cons event events ih =>
    rcases run_cons_inv reached with ⟨next, stepped, rest⟩
    have here := exact_step state event next invariant initial stepped
    constructor
    · rintro ⟨_, later⟩
      have holds : property next := by
        cases events with
        | nil => exact later next stepped
        | cons event events => exact (later next stepped).1
      have kept := preserved state event next invariant (here.mp holds) stepped
      refine ⟨here.mp holds, fun other otherStep => ?_⟩
      rw [stepped, Option.some.injEq] at otherStep
      exact otherStep ▸ (ih kept holds rest).mp (later next stepped)
    · rintro ⟨allowed, later⟩
      have kept := preserved state event next invariant allowed stepped
      refine ⟨initial, fun other otherStep => ?_⟩
      rw [stepped, Option.some.injEq] at otherStep
      exact otherStep ▸ (ih kept (here.mpr allowed) rest).mpr (later next stepped)

/-- A run cannot go on forever when a natural number decreases at every step from an
invariant state. -/
theorem not_infiniteRun_of_measure (measure : State → ℕ)
    (preserved : ∀ state event next, Invariant state → step state event = some next →
      Invariant next ∧ measure next < measure state) (initial : Invariant start) :
    ¬InfiniteRun step start := by
  rintro ⟨states, atStart, steps⟩
  have descends : ∀ n, Invariant (states n) ∧ measure (states n) + n ≤ measure start := by
    intro n
    induction n with
    | zero => exact ⟨atStart ▸ initial, by rw [atStart]; omega⟩
    | succ n ih =>
      rcases steps n with ⟨event, stepped⟩
      rcases preserved _ event _ ih.1 stepped with ⟨holds, smaller⟩
      exact ⟨holds, by omega⟩
  have := (descends (measure start + 1)).2
  omega

/-- If every recurrent state leads in one or more steps to another recurrent state, an
infinite run starts in each of them. -/
theorem infiniteRun_of_recurrent {Recurrent : State → Prop}
    (again : ∀ state, Recurrent state → ∃ event events next,
      run step state (event :: events) = some next ∧ Recurrent next) (initial : Recurrent start) :
    InfiniteRun step start := by
  classical
  let Good : State → Prop := fun state =>
    ∃ events next, run step state events = some next ∧ Recurrent next
  have advance : ∀ state, Good state → ∃ next, (∃ event, step state event = some next) ∧
      Good next := by
    rintro state ⟨events, target, reached, recurrent⟩
    cases events with
    | nil =>
      simp only [run_nil, Option.some.injEq] at reached
      subst reached
      rcases again state recurrent with ⟨event, events, target, reached, recurrent⟩
      rcases run_cons_inv reached with ⟨next, stepped, rest⟩
      exact ⟨next, ⟨event, stepped⟩, events, target, rest, recurrent⟩
    | cons event events =>
      rcases run_cons_inv reached with ⟨next, stepped, rest⟩
      exact ⟨next, ⟨event, stepped⟩, events, target, rest, recurrent⟩
  choose! successor successorStep successorGood using advance
  have good : ∀ n, Good (successor^[n] start) := by
    intro n
    induction n with
    | zero => exact ⟨[], start, rfl, initial⟩
    | succ n ih =>
      rw [Function.iterate_succ_apply']
      exact successorGood _ ih
  refine ⟨fun n => successor^[n] start, rfl, fun n => ?_⟩
  simp only [Function.iterate_succ_apply']
  exact successorStep _ (good n)

theorem infiniteRun_of_run {start middle : State} (reached : run step start events = some middle)
    (forever : InfiniteRun step middle) :
    InfiniteRun step start := by
  induction events generalizing start with
  | nil =>
    simp only [run_nil, Option.some.injEq] at reached
    exact reached ▸ forever
  | cons event events ih =>
    rcases run_cons_inv reached with ⟨next, stepped, rest⟩
    rcases ih rest with ⟨states, atStart, steps⟩
    refine ⟨fun n => if n = 0 then start else states (n - 1), by simp, fun n => ?_⟩
    cases n with
    | zero => exact ⟨event, by simpa [atStart] using stepped⟩
    | succ n => simpa using steps n

end Transition
