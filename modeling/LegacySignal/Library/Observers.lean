import LegacySignal.Library.Transition
import LegacySignal.Library.TaskList

/-!
# Observers of changing data

Writers change the data and then send a signal. An observer reads a view of
the data, shows it, subscribes to the signals, and from then on reads and shows
its view again for each signal it takes.

The signals pass through one buffer, without replay, that all observers share.
They are numbered, and the slot of an observer is the number of the signal it
takes next. The buffer keeps what the slowest observer has not taken; a signal
that does not fit is dropped for all of them.

Two things can make an observer miss a change: its signal is sent between the
first reading and the subscription, or it is dropped because another observer
is slow. Where neither happens (`Unmissed`), every observer that waits while
nothing is under way shows the data as it is (`upToDate_of_meets`).
-/

namespace Observers

open Transition

structure Source (Data Write Query View : Type) where
  write : Write → Data → Data
  /-- The write is followed by a signal. -/
  signals : Write → Data → Bool
  view : Query → Data → View
  view_write : ∀ change data query, signals change data = false →
    view query (write change data) = view query data

inductive Phase (View : Type) where
  | starting
  | opening (view : View)
  | opened
  | waiting (slot : ℕ)
  | signalled (slot : ℕ)
  | reading (slot : ℕ) (view : View)
  | cancelled
deriving DecidableEq, Repr

def Phase.slot {View : Type} : Phase View → Option ℕ
  | .waiting slot => some slot
  | .signalled slot => some slot
  | .reading slot _ => some slot
  | _ => none

structure Observer (Query View : Type) where
  query : Query
  phase : Phase View
  /-- What it has shown last. -/
  last : Option View
deriving DecidableEq, Repr

structure World (Data Query View : Type) where
  data : Data
  /-- The writers that have changed the data and not sent their signal. -/
  writers : ℕ
  /-- The signals that got into the buffer so far. -/
  sent : ℕ
  observers : List (Observer Query View)

inductive Event (Write Query : Type) where
  | write (change : Write)
  | signal
  | observe (query : Query)
  /-- The next step of an observer. -/
  | advance (observer : ℕ)
  | cancel (observer : ℕ)

variable {Data Write Query View : Type} {source : Source Data Write Query View} {capacity : ℕ}
  {world next : World Data Query View}

/-- The next step of an observer, none while it waits for a signal. -/
def Observer.advance (source : Source Data Write Query View) (data : Data) (sent : ℕ)
    (observer : Observer Query View) : Option (Observer Query View) :=
  match observer.phase with
  | .starting => some { observer with phase := .opening (source.view observer.query data) }
  | .opening view => some { observer with phase := .opened, last := some view }
  | .opened => some { observer with phase := .waiting sent }
  | .waiting slot =>
    if slot < sent then some { observer with phase := .signalled (slot + 1) } else none
  | .signalled slot =>
    some { observer with phase := .reading slot (source.view observer.query data) }
  | .reading slot view => some { observer with phase := .waiting slot, last := some view }
  | .cancelled => none

/-- The slowest observer leaves room for another signal. -/
def World.hasRoom (capacity : ℕ) (world : World Data Query View) : Bool :=
  world.observers.all fun observer => observer.phase.slot.all fun slot =>
    world.sent < slot + capacity

def step (source : Source Data Write Query View) (capacity : ℕ) (world : World Data Query View) :
    Event Write Query → Option (World Data Query View)
  | .write change =>
    some { world with
      data := source.write change world.data
      writers := if source.signals change world.data then world.writers + 1 else world.writers }
  | .signal =>
    if world.writers = 0 then none
    else some { world with
      writers := world.writers - 1
      sent := if world.hasRoom capacity then world.sent + 1 else world.sent }
  | .observe query => some { world with observers := world.observers ++ [⟨query, .starting, none⟩] }
  | .advance index =>
    match world.observers[index]? with
    | some observer => (observer.advance source world.data world.sent).map fun next =>
      { world with observers := world.observers.set index next }
    | none => none
  | .cancel index =>
    match world.observers[index]? with
    | some observer => some { world with
        observers := world.observers.set index { observer with phase := .cancelled } }
    | none => none

def initial (data : Data) : World Data Query View := ⟨data, 0, 0, []⟩

def World.Buffered (world : World Data Query View) : Prop :=
  ∃ observer ∈ world.observers, ∃ slot, observer.phase.slot = some slot ∧ slot < world.sent

/-- When nothing is under way, an observer that waits shows the data as it is. -/
def UpToDate (source : Source Data Write Query View) (world : World Data Query View) : Prop :=
  world.writers = 0 → ¬world.Buffered → ∀ observer ∈ world.observers, ∀ slot,
    observer.phase = .waiting slot → observer.last = some (source.view observer.query world.data)

/-- What the observer has read last, or will read without a further signal, is up to date. -/
def Observer.Fresh (source : Source Data Write Query View) (data : Data)
    (observer : Observer Query View) : Prop :=
  match observer.phase with
  | .opening view => view = source.view observer.query data
  | .opened => observer.last = some (source.view observer.query data)
  | .waiting _ => observer.last = some (source.view observer.query data)
  | .reading _ view => view = source.view observer.query data
  | _ => True

/-- No signal is sent too early or dropped for an observer that needs it: one that subscribes is
up to date or some writer has still to send its signal, and so is, when a signal is dropped, one
that has taken all signals in the buffer. -/
def Unmissed (source : Source Data Write Query View) (capacity : ℕ)
    (world : World Data Query View) : Event Write Query → Prop
  | .advance index => ∀ observer ∈ world.observers[index]?, observer.phase = .opened →
      observer.Fresh source world.data ∨ world.writers ≠ 0
  | .signal => world.hasRoom capacity = false → world.writers = 1 →
      ∀ observer ∈ world.observers, observer.phase.slot = some world.sent →
        observer.Fresh source world.data
  | _ => True

instance [DecidableEq View] (data : Data) (observer : Observer Query View) :
    Decidable (observer.Fresh source data) := by
  unfold Observer.Fresh
  split <;> infer_instance

instance [DecidableEq View] (event : Event Write Query) :
    Decidable (Unmissed source capacity world event) := by
  cases event <;> unfold Unmissed <;> infer_instance

/-- A subscribed observer is up to date, or a signal will come. -/
structure Covered (source : Source Data Write Query View) (world : World Data Query View)
    (observer : Observer Query View) : Prop where
  slot_le : ∀ slot, observer.phase.slot = some slot → slot ≤ world.sent
  fresh : ∀ slot, observer.phase.slot = some slot → observer.Fresh source world.data ∨
    world.writers ≠ 0 ∨ slot < world.sent

variable {observer : Observer Query View} {data : Data} {change : Write}
  {moved : Observer Query View} {events : List (Event Write Query)}

theorem covered_of_slot_none (unsubscribed : observer.phase.slot = none) :
    Covered source world observer := by
  constructor
  · intro slot isSlot
    rw [unsubscribed] at isSlot
    cases isSlot
  · intro slot isSlot
    rw [unsubscribed] at isSlot
    cases isSlot

theorem Observer.Fresh.write (fresh : observer.Fresh source data)
    (silent : source.signals change data = false) :
    observer.Fresh source (source.write change data) := by
  rcases observer with ⟨query, phase, last⟩
  have same := source.view_write change data query silent
  cases phase with
  | starting => trivial
  | opening view => exact fresh.trans same.symm
  | opened => exact fresh.trans (congrArg some same.symm)
  | waiting slot => exact fresh.trans (congrArg some same.symm)
  | signalled slot => trivial
  | reading slot view => exact fresh.trans same.symm
  | cancelled => trivial

theorem Covered.write (covered : Covered source world observer)
    (stepped : step source capacity world (.write change) = some next) :
    Covered source next observer := by
  cases stepped
  refine ⟨covered.slot_le, ?_⟩
  intro slot isSlot
  by_cases signalled : source.signals change world.data = true
  · right
    left
    simp [signalled]
  · have silent : source.signals change world.data = false := by simpa using signalled
    rcases covered.fresh slot isSlot with fresh | writers | buffered
    · exact Or.inl (fresh.write silent)
    · right
      left
      simpa [silent] using writers
    · exact Or.inr (Or.inr buffered)

theorem Covered.signal (covered : Covered source world observer)
    (member : observer ∈ world.observers) (unmissed : Unmissed source capacity world .signal)
    (stepped : step source capacity world .signal = some next) :
    Covered source next observer := by
  simp only [step] at stepped
  split at stepped
  · cases stepped
  · rename_i someWriter
    cases stepped
    by_cases room : world.hasRoom capacity = true
    · constructor
      · intro slot isSlot
        simp only [room, if_true]
        exact Nat.le_succ_of_le (covered.slot_le slot isSlot)
      · intro slot isSlot
        right
        right
        simp only [room, if_true]
        exact Nat.lt_succ_of_le (covered.slot_le slot isSlot)
    · have full : world.hasRoom capacity = false := by simpa using room
      simp only [full, Bool.false_eq_true, if_false]
      refine ⟨covered.slot_le, ?_⟩
      intro slot isSlot
      rcases Nat.lt_or_eq_of_le (covered.slot_le slot isSlot) with buffered | rfl
      · exact Or.inr (Or.inr buffered)
      · by_cases last : world.writers = 1
        · exact Or.inl (unmissed full last observer member isSlot)
        · right
          left
          change world.writers - 1 ≠ 0
          omega

theorem Covered.advance (covered : Covered source world observer)
    (subscribes : observer.phase = .opened →
      observer.Fresh source world.data ∨ world.writers ≠ 0)
    (advanced : observer.advance source world.data world.sent = some moved) :
    Covered source world moved := by
  rcases observer with ⟨query, phase, last⟩
  cases phase with
  | starting =>
    cases advanced
    exact covered_of_slot_none rfl
  | opening view =>
    cases advanced
    exact covered_of_slot_none rfl
  | opened =>
    cases advanced
    constructor
    · intro slot isSlot
      cases isSlot
      exact Nat.le_refl _
    · intro slot _
      rcases subscribes rfl with fresh | writers
      · exact Or.inl fresh
      · exact Or.inr (Or.inl writers)
  | waiting slot =>
    simp only [Observer.advance] at advanced
    split at advanced
    · rename_i buffered
      cases advanced
      constructor
      · intro taken isTaken
        cases isTaken
        exact buffered
      · intro _ _
        exact Or.inl True.intro
    · cases advanced
  | signalled slot =>
    cases advanced
    refine ⟨covered.slot_le, ?_⟩
    intro _ _
    exact Or.inl rfl
  | reading slot view =>
    cases advanced
    refine ⟨covered.slot_le, ?_⟩
    intro taken isTaken
    rcases covered.fresh taken isTaken with fresh | coming
    · exact Or.inl (congrArg some fresh)
    · exact Or.inr coming
  | cancelled => cases advanced

def AllCovered (source : Source Data Write Query View) (world : World Data Query View) : Prop :=
  ∀ observer ∈ world.observers, Covered source world observer

theorem allCovered_observers {observers : List (Observer Query View)}
    (covered : ∀ observer ∈ observers, Covered source world observer) :
    AllCovered source { world with observers := observers } := by
  intro observer member
  exact ⟨(covered observer member).slot_le, (covered observer member).fresh⟩

theorem allCovered_step (world : World Data Query View) (event : Event Write Query)
    (next : World Data Query View) (covered : AllCovered source world)
    (unmissed : Unmissed source capacity world event)
    (stepped : step source capacity world event = some next) : AllCovered source next := by
  cases event with
  | write change =>
    have same : next.observers = world.observers := by
      cases stepped
      rfl
    intro observer member
    rw [same] at member
    exact (covered observer member).write stepped
  | signal =>
    have same : next.observers = world.observers := by
      simp only [step] at stepped
      split at stepped
      · cases stepped
      · cases stepped
        rfl
    intro observer member
    rw [same] at member
    exact (covered observer member).signal member unmissed stepped
  | observe query =>
    cases stepped
    apply allCovered_observers
    apply TaskList.forall_mem_append covered
    intro observer member
    cases List.mem_singleton.mp member
    exact covered_of_slot_none rfl
  | advance index =>
    simp only [step] at stepped
    split at stepped
    · rename_i observer found
      rcases Option.map_eq_some_iff.mp stepped with ⟨moved, advanced, rfl⟩
      apply allCovered_observers
      apply TaskList.forall_mem_set covered
      exact (covered observer (List.mem_of_getElem? found)).advance (unmissed observer found)
        advanced
    · cases stepped
  | cancel index =>
    simp only [step] at stepped
    split at stepped
    · cases stepped
      apply allCovered_observers
      apply TaskList.forall_mem_set covered
      exact covered_of_slot_none rfl
    · cases stepped

theorem AllCovered.upToDate (covered : AllCovered source world) : UpToDate source world := by
  intro noWriter unbuffered observer member slot waits
  have isSlot : observer.phase.slot = some slot := by
    rw [waits]
    rfl
  rcases (covered observer member).fresh slot isSlot with fresh | writers | buffered
  · rw [Observer.Fresh, waits] at fresh
    exact fresh
  · exact absurd noWriter writers
  · exact absurd ⟨observer, member, slot, isSlot, buffered⟩ unbuffered

theorem upToDate_of_meets
    (meets : Meets (step source capacity) (Unmissed source capacity) (initial data)
      events) :
    Always (step source capacity) (UpToDate source) (initial data) events := by
  apply always_of_meets allCovered_step (fun _ => AllCovered.upToDate) _ meets
  intro observer member
  cases member

/-- An observer comes only when those before it were cancelled. -/
def Alone (world : World Data Query View) : Event Write Query → Prop
  | .observe _ => ∀ observer ∈ world.observers, observer.phase = .cancelled
  | _ => True

def Single (world : World Data Query View) : Prop :=
  ∀ (index other : ℕ) (observer another : Observer Query View),
    world.observers[index]? = some observer →
    world.observers[other]? = some another → observer.phase ≠ .cancelled →
    another.phase ≠ .cancelled → index = other

theorem Single.set (single : Single world) {index : ℕ}
    (found : world.observers[index]? = some observer) (active : observer.phase ≠ .cancelled)
    (moved : Observer Query View) :
    Single { world with observers := world.observers.set index moved } := by
  have others : ∀ (other : ℕ) (another : Observer Query View),
      (world.observers.set index moved)[other]? = some another →
      another.phase ≠ .cancelled → index = other := by
    intro other another isAnother isActive
    by_cases same : index = other
    · exact same
    · rw [List.getElem?_set_ne same] at isAnother
      exact single index other observer another found isAnother active isActive
  intro one two first second isFirst isSecond firstActive secondActive
  rw [← others one first isFirst firstActive, ← others two second isSecond secondActive]

theorem Observer.active_of_advance {sent : ℕ}
    (advanced : observer.advance source data sent = some moved) : observer.phase ≠ .cancelled := by
  intro cancelled
  rw [Observer.advance, cancelled] at advanced
  cases advanced

theorem Single.cancel (single : Single world) (index : ℕ) (observer : Observer Query View) :
    Single { world with
      observers := world.observers.set index { observer with phase := .cancelled } } := by
  have kept : ∀ (other : ℕ) (another : Observer Query View),
      (world.observers.set index { observer with phase := .cancelled })[other]? = some another →
      another.phase ≠ .cancelled → world.observers[other]? = some another := by
    intro other another isAnother active
    rw [List.getElem?_set] at isAnother
    split at isAnother
    · split at isAnother
      · cases isAnother
        exact absurd rfl active
      · cases isAnother
    · exact isAnother
  intro one two first second isFirst isSecond firstActive secondActive
  exact single one two first second (kept one first isFirst firstActive)
    (kept two second isSecond secondActive) firstActive secondActive

theorem single_step (world : World Data Query View) (event : Event Write Query)
    (next : World Data Query View) (single : Single world) (alone : Alone world event)
    (stepped : step source capacity world event = some next) : Single next := by
  cases event with
  | write change =>
    cases stepped
    exact single
  | signal =>
    simp only [step] at stepped
    split at stepped
    · cases stepped
    · cases stepped
      exact single
  | observe query =>
    cases stepped
    have added : ∀ (index : ℕ) (observer : Observer Query View),
        (world.observers ++ [⟨query, .starting, none⟩])[index]? = some observer →
        observer.phase ≠ .cancelled → index = world.observers.length := by
      intro index observer found active
      rcases Nat.lt_trichotomy index world.observers.length with before | same | after
      · rw [List.getElem?_append_left before] at found
        exact absurd (alone observer (List.mem_of_getElem? found)) active
      · exact same
      · have length := (List.getElem?_eq_some_iff.mp found).1
        simp only [List.length_append, List.length_singleton] at length
        omega
    intro one two first second isFirst isSecond firstActive secondActive
    rw [added one first isFirst firstActive, added two second isSecond secondActive]
  | advance index =>
    simp only [step] at stepped
    split at stepped
    · rename_i observer found
      rcases Option.map_eq_some_iff.mp stepped with ⟨moved, advanced, rfl⟩
      exact single.set found (Observer.active_of_advance advanced) moved
    · cases stepped
  | cancel index =>
    simp only [step] at stepped
    split at stepped
    · cases stepped
      exact single.cancel index _
    · cases stepped

theorem Phase.ne_cancelled_of_slot {phase : Phase View} {slot : ℕ}
    (isSlot : phase.slot = some slot) : phase ≠ .cancelled := by
  rintro rfl
  cases isSlot

/-- A signal that a single observer does not need is the only one that is dropped. -/
theorem Single.unmissed_signal (single : Single world) (positive : 0 < capacity) :
    Unmissed source capacity world .signal := by
  intro full _ observer member isSlot
  exfalso
  rcases List.getElem?_of_mem member with ⟨index, found⟩
  have slow : ∃ another ∈ world.observers, ∃ slot, another.phase.slot = some slot ∧
      ¬world.sent < slot + capacity := by
    rcases List.all_eq_false.mp full with ⟨another, anotherMember, behind⟩
    cases isSlot : another.phase.slot with
    | none => simp [isSlot] at behind
    | some slot => exact ⟨another, anotherMember, slot, isSlot, by simpa [isSlot] using behind⟩
  rcases slow with ⟨another, anotherMember, slot, isAnotherSlot, behind⟩
  rcases List.getElem?_of_mem anotherMember with ⟨other, anotherFound⟩
  have same := single index other observer another found anotherFound
    (Phase.ne_cancelled_of_slot isSlot) (Phase.ne_cancelled_of_slot isAnotherSlot)
  subst same
  cases found.symm.trans anotherFound
  cases isSlot.symm.trans isAnotherSlot
  omega

theorem Single.unmissed_of_upToDate (single : Single world) (positive : 0 < capacity)
    {event : Event Write Query} (stepped : step source capacity world event = some next)
    (upToDate : UpToDate source next) : Unmissed source capacity world event := by
  cases event with
  | signal => exact single.unmissed_signal positive
  | advance index =>
    rintro ⟨query, phase, last⟩ isFound rfl
    have found := Option.mem_def.mp isFound
    by_cases noWriter : world.writers = 0
    · left
      simp only [step, found] at stepped
      cases stepped
      have moved := TaskList.getElem?_set_found found ⟨query, .waiting world.sent, last⟩
      have member := List.mem_of_getElem? moved
      apply upToDate noWriter _ _ member world.sent rfl
      rintro ⟨another, anotherMember, slot, isSlot, behind⟩
      rcases List.getElem?_of_mem anotherMember with ⟨other, anotherFound⟩
      have after := single.set found (by simp) ⟨query, .waiting world.sent, last⟩
      have same := after index other _ another moved anotherFound (by simp)
        (Phase.ne_cancelled_of_slot isSlot)
      subst same
      cases moved.symm.trans anotherFound
      cases isSlot
      exact Nat.lt_irrefl _ behind
    · exact Or.inr noWriter
  | _ => trivial

theorem meets_of_upToDate (positive : 0 < capacity)
    (alone : Meets (step source capacity) Alone (initial data) events)
    (upToDate : Always (step source capacity) (UpToDate source) (initial data) events)
    {final : World Data Query View}
    (reached : run (step source capacity) (initial data) events = some final) :
    Meets (step source capacity) (Unmissed source capacity) (initial data) events := by
  have single : Single (initial data : World Data Query View) := by
    intro index other observer another found
    cases found
  generalize (initial data : World Data Query View) = world at *
  induction events generalizing world with
  | nil => trivial
  | cons event events ih =>
    rcases run_cons_inv reached with ⟨next, stepped, rest⟩
    have later := upToDate.2 next stepped
    have here : UpToDate source next := by
      cases events with
      | nil => exact later
      | cons _ _ => exact later.1
    apply meets_cons (single.unmissed_of_upToDate positive stepped here) stepped
    exact ih next (alone.2 next stepped) later rest
      (single_step world event next single alone.1 stepped)

end Observers
