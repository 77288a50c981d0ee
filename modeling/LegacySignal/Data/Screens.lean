import LegacySignal.Data.Database
import LegacySignal.Library.Observers

/-!
# What the screens show

The flows of `DatabaseHelper`. `getAllThreads` and `getMessagesForThread` emit
the result of their query, subscribe to `dbChangeSignal`, and emit it again for
each signal. Every call that changes threads or messages ends with
`notifyDbChanged`, a `tryEmit` on that flow, whose buffer has one place; a call
that throws has changed nothing and signals nothing.

A write whose signal comes between the first query of a collector and its
subscription is not seen by it until the next write. Neither is one whose
signal finds the buffer full because another collector is slow.
-/

namespace LegacySignal

namespace DatabaseHelper

open Transition

/-- The calls that write. -/
inductive Write where
  | insertThread (thread : ThreadEntity)
  | updateThread (thread : ThreadEntity)
  | updateSnippet (id : ℕ) (snippet : String) (timestamp : ℤ)
  | insertMessage (message : MessageEntity)
  | deleteMessage (id : ℕ)
  | saveContact (contact : Contact)
  | saveContactAvatar (uuid avatarPath : String)

/-- The two flows. -/
inductive Query where
  | getAllThreads
  | getMessagesForThread (threadId : ℕ)
deriving DecidableEq, Repr

inductive Listing where
  | threads (rows : List ThreadEntity)
  | messages (rows : List MessageEntity)
deriving DecidableEq, Repr

/-- What the call makes of the tables, and whether it reaches `notifyDbChanged`. -/
def Write.apply (db : Database) : Write → Database × Bool
  | .insertThread thread =>
    match db.insertThread thread with
    | .ok (_, after) => (after, true)
    | .error _ => (db, false)
  | .updateThread thread =>
    match db.updateThread thread with
    | .ok after => (after, true)
    | .error _ => (db, false)
  | .updateSnippet id snippet timestamp => (db.updateSnippet id snippet timestamp, true)
  | .insertMessage message => ((db.insertMessage message).2, true)
  | .deleteMessage id => (db.deleteMessage id, true)
  | .saveContact contact => (db.saveContact contact, false)
  | .saveContactAvatar uuid avatarPath => (db.saveContactAvatar uuid avatarPath, true)

def Query.result (db : Database) : Query → Listing
  | .getAllThreads => .threads db.queryAllThreads
  | .getMessagesForThread threadId => .messages (db.queryMessagesForThread threadId)

theorem Query.result_apply (db : Database) {write : Write} (silent : (write.apply db).2 = false)
    (query : Query) : query.result (write.apply db).1 = query.result db := by
  cases write with
  | insertThread thread =>
    simp only [Write.apply] at silent ⊢
    split
    · rename_i inserted
      simp [inserted] at silent
    · rfl
  | updateThread thread =>
    simp only [Write.apply] at silent ⊢
    split
    · rename_i updated
      simp [updated] at silent
    · rfl
  | saveContact contact => cases query <;> rfl
  | updateSnippet id snippet timestamp => cases silent
  | insertMessage message => cases silent
  | deleteMessage id => cases silent
  | saveContactAvatar uuid avatarPath => cases silent

def tables : Observers.Source Database Write Query Listing where
  write := fun write db => (write.apply db).1
  signals := fun write db => (write.apply db).2
  view := fun query db => query.result db
  view_write := fun _ db query silent => query.result_apply db silent

def step : Observers.World Database Query Listing → Observers.Event Write Query →
    Option (Observers.World Database Query Listing) :=
  Observers.step tables 1

/-- Where no signal is missed, a collector that waits while no writer is at work and no signal is
buffered has emitted the current result last. A single collector does so only then. -/
theorem screens_upToDate (db : Database) {events : List (Observers.Event Write Query)}
    {final : Observers.World Database Query Listing}
    (reached : run step (Observers.initial db) events = some final) :
    (Meets step (Observers.Unmissed tables 1) (Observers.initial db) events →
      Always step (Observers.UpToDate tables) (Observers.initial db) events) ∧
    (Meets step Observers.Alone (Observers.initial db) events →
      Always step (Observers.UpToDate tables) (Observers.initial db) events →
      Meets step (Observers.Unmissed tables 1) (Observers.initial db) events) := by
  constructor
  · intro meets
    exact Observers.upToDate_of_meets meets
  · intro alone upToDate
    exact Observers.meets_of_upToDate Nat.one_pos alone upToDate reached

def firstThread : Write := .insertThread { recipientNumber := "+100" }

def shownThread : List (Observers.Event Write Query) :=
  [.observe .getAllThreads, .advance 0, .advance 0, .advance 0, .write firstThread, .signal,
    .advance 0, .advance 0, .advance 0]

theorem screens_upToDate_shownThread :
    Always step (Observers.UpToDate tables) (Observers.initial .empty) shownThread := by
  have meets : Meets step (Observers.Unmissed tables 1) (Observers.initial .empty)
      shownThread := by
    decide +kernel
  exact (screens_upToDate .empty rfl).1 meets

def missedThread : List (Observers.Event Write Query) :=
  [.observe .getAllThreads, .advance 0, .advance 0, .write firstThread, .signal, .advance 0]

theorem screen_without_thread :
    ∃ final, run step (Observers.initial .empty) missedThread = some final ∧
      ¬Observers.UpToDate tables final := by
  refine ⟨_, rfl, ?_⟩
  intro upToDate
  have shown := upToDate rfl ?_ _ (List.mem_singleton.mpr rfl) 1 rfl
  · have same : Listing.threads (Database.queryAllThreads .empty) =
      .threads (firstThread.apply .empty).1.queryAllThreads := Option.some.inj shown
    have lengths := congrArg List.length (Listing.threads.inj same)
    rw [Database.queryAllThreads, Database.queryAllThreads, List.length_mergeSort,
      List.length_mergeSort] at lengths
    cases lengths
  · rintro ⟨collector, member, slot, isSlot, behind⟩
    cases List.mem_singleton.mp member
    cases isSlot
    exact Nat.lt_irrefl 1 behind

end DatabaseHelper

end LegacySignal
