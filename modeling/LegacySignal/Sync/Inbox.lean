import LegacySignal.Library.Transition
import LegacySignal.Library.TaskList
import LegacySignal.Sync.Handler

/-!
# Handlers that run side by side

Any number of envelopes may be handled at once. The state holds the database,
the handlers and the profile fetches they have launched; an event is the
arrival of an envelope or the next database call of one coroutine.
-/

namespace LegacySignal

structure Inbox where
  db : Database
  handlers : List Handler
  fetches : List Fetch

namespace Inbox

open TaskList

def initial (db : Database) : Inbox where
  db := db
  handlers := []
  fetches := []

inductive Event where
  | receive (incoming : Incoming)
  /-- The next call of a handler; `response` answers the fetch it may launch. -/
  | handle (index : ℕ) (now : ℤ) (response : Option ProfileResponse)
  | fetch (index : ℕ)
deriving DecidableEq, Repr

def launched (incoming : Incoming) (fetches : Bool) (response : Option ProfileResponse) :
    List Fetch :=
  match fetches, incoming.profileKey with
  | true, some profileKey => (fetchAndSaveProfile incoming.senderId profileKey response).toList
  | _, _ => []

def step (base64 : Base64) (filesDir : String) (inbox : Inbox) : Event → Option Inbox
  | .receive incoming => some { inbox with handlers := inbox.handlers ++ [.launch incoming] }
  | .handle index now response =>
    match inbox.handlers[index]? with
    | none => none
    | some handler =>
      if handler.phase.Ended then none
      else
        let outcome := handler.advance inbox.db now
        some {
          db := outcome.db
          handlers := inbox.handlers.set index { handler with phase := outcome.phase }
          fetches := inbox.fetches ++ launched handler.incoming outcome.fetches response }
  | .fetch index =>
    match inbox.fetches[index]? with
    | none => none
    | some fetch =>
      if fetch.phase = .done then none
      else
        let (after, phase, _) := fetch.advance base64 filesDir inbox.db
        some { inbox with
          db := after
          fetches := inbox.fetches.set index { fetch with phase } }

/-- Once all handlers are over, the messages are those of before and one row for each handler
that recorded one; every message that is no receipt has been recorded, under the only thread of
its sender. -/
def Delivered (start : Database) (inbox : Inbox) : Prop :=
  (∀ handler ∈ inbox.handlers, handler.phase.Ended) →
    inbox.db.messages.Perm
      (start.messages ++ inbox.handlers.filterMap Handler.recorded) ∧
    ∀ handler ∈ inbox.handlers, ¬handler.incoming.IsReceipt →
      ∃ row, handler.recorded = some row ∧ Filed inbox.db handler.incoming row ∧
        ∃ thread ∈ inbox.db.threads, thread.id = row.threadId ∧
          ∀ other ∈ inbox.db.threads,
            other.recipientNumber = handler.incoming.senderId ↔ other = thread

/-- The event is not an `insertThread` for a recipient that has a thread. -/
def InsertsOnlyMissing (inbox : Inbox) : Event → Prop
  | .handle index _ _ =>
    ∀ handler ∈ inbox.handlers[index]?, handler.InsertsOnlyMissing inbox.db
  | _ => True

instance (inbox : Inbox) : DecidablePred inbox.InsertsOnlyMissing
  | .handle index _ _ =>
    inferInstanceAs (Decidable (∀ handler ∈ inbox.handlers[index]?,
      handler.InsertsOnlyMissing inbox.db))
  | .receive _ | .fetch _ => isTrue trivial

/-- The rows are those of before, and one for each handler that recorded a message. -/
def Conserved (start : Database) (inbox : Inbox) : Prop :=
  inbox.db.messages.Perm (start.messages ++ inbox.handlers.filterMap Handler.recorded)

variable {start : Database} {inbox next : Inbox} {event : Event} {base64 : Base64}
  {filesDir : String} {index : ℕ} {now : ℤ} {response : Option ProfileResponse}

theorem step_handle
    (stepped : inbox.step base64 filesDir (.handle index now response) = some next) :
    ∃ handler, inbox.handlers[index]? = some handler ∧ ¬handler.phase.Ended ∧
      next = {
        db := (handler.advance inbox.db now).db
        handlers := inbox.handlers.set index (handler.next inbox.db now)
        fetches := inbox.fetches ++
          launched handler.incoming (handler.advance inbox.db now).fetches response } := by
  simp only [step] at stepped
  split at stepped
  · cases stepped
  · rename_i handler found
    split at stepped <;> cases stepped
    exact ⟨handler, found, ‹_›, rfl⟩

theorem step_fetch (stepped : inbox.step base64 filesDir (.fetch index) = some next) :
    ∃ fetch, inbox.fetches[index]? = some fetch ∧
      next = { inbox with
        db := (fetch.advance base64 filesDir inbox.db).1
        fetches := inbox.fetches.set index
          { fetch with phase := (fetch.advance base64 filesDir inbox.db).2.1 } } := by
  simp only [step] at stepped
  split at stepped
  · cases stepped
  · rename_i fetch found
    split at stepped <;> cases stepped
    exact ⟨fetch, found, rfl⟩

theorem handlers_incoming_step (stepped : inbox.step base64 filesDir event = some next)
    (noArrival : ∀ incoming, event ≠ .receive incoming) :
    next.handlers.map (·.incoming) = inbox.handlers.map (·.incoming) := by
  cases event with
  | receive incoming => exact absurd rfl (noArrival incoming)
  | handle index now response =>
    obtain ⟨handler, found, _, rfl⟩ := step_handle stepped
    exact map_set_of_eq found rfl
  | fetch index =>
    obtain ⟨_, _, rfl⟩ := step_fetch stepped
    rfl

theorem conserved_initial (start : Database) : Conserved start (initial start) := by
  simp [Conserved, initial]

theorem conserved_step (conserved : Conserved start inbox)
    (stepped : inbox.step base64 filesDir event = some next) : Conserved start next := by
  unfold Conserved at conserved ⊢
  cases event with
  | receive incoming =>
    cases stepped
    simpa [List.filterMap_append] using conserved
  | handle index now response =>
    obtain ⟨handler, found, working, rfl⟩ := step_handle stepped
    rw [Handler.advance_messages working]
    refine (conserved.append_right _).trans ?_
    rw [List.append_assoc]
    exact (filterMap_set_perm found (Handler.recorded_of_working working) _).symm.append_left _
  | fetch index =>
    obtain ⟨fetch, _, rfl⟩ := step_fetch stepped
    rw [fetch.advance_messages]
    exact conserved

end Inbox

end LegacySignal
