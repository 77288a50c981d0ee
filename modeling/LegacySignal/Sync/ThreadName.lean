import LegacySignal.Sync.LostMessages

/-!
# Who names a thread

Three coroutines write the row of a thread: the handler of a message, a profile fetch that found
a name, and `Set Contact Name` of the chat. Each of them reads the whole row, changes its own
part and writes all columns back, in two calls of `DatabaseHelper`; and each takes the name from
another place. What a name update read may be out of date when it writes, and the name that the
user has chosen is known to the thread row only.

The state is observed together with two facts that the code does not record: the name that the
user has set last, and what the last handler has written.
-/

namespace LegacySignal

open Transition

/-- The database call of `Set Contact Name` that comes next. -/
inductive RenamePhase where
  | getThread
  | updateThread (existingThread : ThreadEntity)
  | done
deriving DecidableEq, Repr

/-- The coroutine that the button of the dialog launches. -/
structure Rename where
  threadId : ℕ
  newName : String
  phase : RenamePhase
deriving DecidableEq, Repr

namespace Rename

def name (rename : Rename) : Option String :=
  if isBlank rename.newName then none else some rename.newName

def advance (db : Database) (rename : Rename) : Database × RenamePhase :=
  match rename.phase with
  | .getThread =>
    match db.getThreadById rename.threadId with
    | none => (db, .done)
    | some existingThread => (db, .updateThread existingThread)
  | .updateThread existingThread =>
    match db.updateThread { existingThread with name := rename.name } with
    | .error _ => (db, .done)
    | .ok after => (after, .done)
  | .done => (db, .done)

def threadCall (rename : Rename) : Option ThreadCall :=
  match rename.phase with
  | .updateThread existingThread => some (.update { existingThread with name := rename.name })
  | _ => none

def held (rename : Rename) : Option ThreadEntity :=
  match rename.phase with
  | .updateThread existingThread => some existingThread
  | _ => none

theorem advance_sameThreads (db : Database) (rename : Rename) :
    (rename.advance db).1.SameThreads (db.afterCall rename.threadCall) := by
  rcases rename with ⟨threadId, newName, phase⟩
  cases phase with
  | getThread =>
    simp only [advance]
    split <;> exact .refl db
  | updateThread existingThread =>
    simp only [advance, threadCall, Database.afterCall, Database.callThread]
    cases db.updateThread _ <;> exact .refl _
  | done => exact .refl db

variable {db : Database} {rename : Rename}

theorem advance_messages : (rename.advance db).1.messages = db.messages := by
  unfold advance
  split
  · split <;> rfl
  · split
    · rfl
    · exact Database.updateThread_messages ‹_›
  · rfl

theorem advance_held {thread : ThreadEntity}
    (holds : ({ rename with phase := (rename.advance db).2 } : Rename).held = some thread) :
    (rename.advance db).1 = db ∧ thread ∈ db.threads := by
  rcases rename with ⟨threadId, newName, phase⟩
  cases phase with
  | getThread =>
    cases found : db.getThreadById threadId with
    | none => simp [advance, found, held] at holds
    | some row =>
      simp only [advance, found, held, Option.some.injEq] at holds ⊢
      exact ⟨trivial, holds ▸ Database.getThreadById_mem found⟩
  | updateThread existingThread =>
    simp only [advance] at holds
    split at holds <;> cases holds
  | done => cases holds

theorem valid_threadCall (heldRows : ∀ thread ∈ rename.held, db.Held thread) :
    ∀ call ∈ rename.threadCall, db.Valid call := by
  rcases rename with ⟨threadId, newName, phase⟩
  intro call called
  cases phase with
  | updateThread existingThread =>
    cases called
    have read := heldRows existingThread rfl
    exact ⟨read.id_le, read.recipientNumber⟩
  | _ => cases called

end Rename

/-- The coroutines around one database. -/
structure Naming where
  inbox : Inbox
  renames : List Rename

inductive ThreadWriter where
  | handler
  | fetch
  | user
deriving DecidableEq, Repr

namespace Naming

open TaskList

inductive Event where
  /-- A message comes, or a handler or a fetch goes on. -/
  | inbox (event : Inbox.Event)
  /-- The dialog is confirmed in the chat of a thread. -/
  | setContactName (threadId : ℕ) (newName : String)
  | rename (index : ℕ)
deriving DecidableEq, Repr

def initial (db : Database) : Naming where
  inbox := .initial db
  renames := []

def step (base64 : Base64) (filesDir : String) (naming : Naming) : Event → Option Naming
  | .inbox event =>
    (naming.inbox.step base64 filesDir event).map fun inbox => { naming with inbox }
  | .setContactName threadId newName =>
    some { naming with renames := naming.renames ++ [⟨threadId, newName, .getThread⟩] }
  | .rename index =>
    match naming.renames[index]? with
    | none => none
    | some rename =>
      if rename.phase = .done then none
      else
        some {
          inbox := { naming.inbox with db := (rename.advance naming.inbox.db).1 }
          renames := naming.renames.set index
            { rename with phase := (rename.advance naming.inbox.db).2 } }

def threadCall (naming : Naming) : Event → Option (ThreadWriter × ThreadCall)
  | .inbox (.handle index now _) =>
    (naming.inbox.handlers[index]?).bind fun handler =>
      (handler.threadCall now).map fun call => (.handler, call)
  | .inbox (.fetch index) =>
    (naming.inbox.fetches[index]?).bind fun fetch =>
      fetch.threadCall.map fun call => (.fetch, call)
  | .rename index =>
    (naming.renames[index]?).bind fun rename =>
      rename.threadCall.map fun call => (.user, call)
  | .inbox (.receive _) | .setContactName _ _ => none

def writes (recipientNumber : String) (naming : Naming) (event : Event) :
    Option (ThreadWriter × ThreadEntity) :=
  (naming.threadCall event).bind fun (writer, call) =>
    (naming.inbox.db.written recipientNumber call).map fun row => (writer, row)

/-- Every row that a coroutine holds was read. -/
structure Sound (naming : Naming) : Prop where
  inbox : naming.inbox.Sound
  renames : ∀ rename ∈ naming.renames, ∀ thread ∈ rename.held, naming.inbox.db.Held thread

theorem sound_initial (db : Database) : (initial db).Sound where
  inbox := Inbox.sound_initial db
  renames := by simp [initial]

structure Advances (naming next : Naming) (call : Option ThreadCall) : Prop where
  valid : ∀ known ∈ call, naming.inbox.db.Valid known
  same : next.inbox.db.SameThreads (naming.inbox.db.afterCall call)
  sound : next.Sound

variable {naming next : Naming} {base64 : Base64} {filesDir : String} {event : Event}

theorem Sound.rename {index : ℕ} (sound : naming.Sound)
    (stepped : naming.step base64 filesDir (.rename index) = some next) :
    Advances naming next ((naming.threadCall (.rename index)).map Prod.snd) := by
  simp only [step] at stepped
  cases found : naming.renames[index]? with
  | none => simp [found] at stepped
  | some rename =>
    simp only [found, Option.ite_none_left_eq_some, Option.some.injEq] at stepped
    obtain ⟨_, rfl⟩ := stepped
    have call : (naming.threadCall (.rename index)).map Prod.snd = rename.threadCall := by
      simp [threadCall, found, Function.comp_def]
    have valid := Rename.valid_threadCall (sound.renames rename (List.mem_of_getElem? found))
    have same := rename.advance_sameThreads naming.inbox.db
    rw [call]
    refine ⟨valid, same, sound.inbox.afterCall ?_ valid same, ?_⟩
    · rw [rename.advance_messages]
      exact List.Subset.refl _
    refine forall_mem_set (fun other member thread holds =>
      (sound.renames other member thread holds).afterCall valid same) (fun thread holds => ?_) index
    obtain ⟨unchanged, inThreads⟩ := Rename.advance_held holds
    rw [unchanged]
    exact Database.held_of_mem inThreads

theorem Sound.step (sound : naming.Sound)
    (stepped : naming.step base64 filesDir event = some next) :
    Advances naming next ((naming.threadCall event).map Prod.snd) := by
  cases event with
  | setContactName threadId newName =>
    cases stepped
    refine ⟨by simp [threadCall], .refl _, sound.inbox, ?_⟩
    refine forall_mem_append sound.renames fun rename member => ?_
    rw [List.mem_singleton.mp member]
    simp [Rename.held]
  | rename index => exact sound.rename stepped
  | inbox event =>
    obtain ⟨inbox, moved, rfl⟩ := Option.map_eq_some_iff.mp stepped
    have advances := sound.inbox.step moved
    have call : (naming.threadCall (.inbox event)).map Prod.snd =
        naming.inbox.threadCall event := by
      cases event <;> simp [threadCall, Inbox.threadCall, Option.map_bind, Function.comp_def]
    rw [call]
    exact ⟨advances.valid, advances.same, advances.sound, fun rename member thread holds =>
      (sound.renames rename member thread holds).afterCall advances.valid advances.same⟩

theorem getThreadByRecipient_step (sound : naming.Sound)
    (stepped : naming.step base64 filesDir event = some next) (recipientNumber : String) :
    next.inbox.db.getThreadByRecipient recipientNumber =
      ((naming.writes recipientNumber event).map Prod.snd).or
        (naming.inbox.db.getThreadByRecipient recipientNumber) := by
  have advances := sound.step stepped
  have valid := advances.valid
  rw [advances.same.getThreadByRecipient, writes]
  cases called : naming.threadCall event with
  | none => rfl
  | some known =>
    obtain ⟨writer, call⟩ := known
    rw [called] at valid
    have row := Database.getThreadByRecipient_callThread (valid call rfl) recipientNumber
    simp only [Option.map_some, Database.afterCall, row]
    cases written : naming.inbox.db.written recipientNumber call <;> simp [written]

end Naming

/-- The system with what the user and the handlers have last written to one thread. -/
structure ObservedThread where
  naming : Naming
  /-- The name that the user has set, unless it was blank. -/
  userName : Option String
  /-- The snippet and the time stamp of the last handler. -/
  handled : Option (String × ℤ)

namespace ObservedThread

def initial (db : Database) : ObservedThread where
  naming := .initial db
  userName := none
  handled := none

def observe (observed : ObservedThread) (next : Naming) :
    Option (ThreadWriter × ThreadEntity) → ObservedThread
  | some (.user, row) => { observed with naming := next, userName := row.name }
  | some (.handler, row) =>
    { observed with naming := next, handled := some (row.lastMessageSnippet, row.timestamp) }
  | some (.fetch, _) | none => { observed with naming := next }

def step (base64 : Base64) (filesDir recipientNumber : String) (observed : ObservedThread)
    (event : Naming.Event) : Option ObservedThread :=
  (observed.naming.step base64 filesDir event).map fun next =>
    observed.observe next (observed.naming.writes recipientNumber event)

def row (recipientNumber : String) (observed : ObservedThread) : Option ThreadEntity :=
  observed.naming.inbox.db.getThreadByRecipient recipientNumber

/-- The thread has the name that the user gave it, and the snippet and the time stamp of the
last handler. -/
structure Kept (recipientNumber : String) (observed : ObservedThread) : Prop where
  name : ∀ name, observed.userName = some name →
    (observed.row recipientNumber).map (·.name) = some (some name)
  handled : ∀ written, observed.handled = some written →
    (observed.row recipientNumber).map (fun row => (row.lastMessageSnippet, row.timestamp)) =
      some written

/-- Once a handler has written the thread, a name update writes it only with the snippet and the
time stamp that it has; once the user has named it, a handler or a fetch writes it only with the
name that it has. -/
def Undisturbed (recipientNumber : String) (observed : ObservedThread) (event : Naming.Event) :
    Prop :=
  ∀ written ∈ observed.naming.writes recipientNumber event,
    ∀ old ∈ observed.row recipientNumber,
      (written.1 ≠ .handler → observed.handled ≠ none →
        written.2.lastMessageSnippet = old.lastMessageSnippet ∧
          written.2.timestamp = old.timestamp) ∧
      (written.1 ≠ .user → observed.userName ≠ none → written.2.name = old.name)

instance (recipientNumber : String) (observed : ObservedThread) (event : Naming.Event) :
    Decidable (Undisturbed recipientNumber observed event) := by
  unfold Undisturbed
  infer_instance

variable {base64 : Base64} {filesDir recipientNumber : String} {observed next : ObservedThread}
  {event : Naming.Event}

/-- A part of the row is as it was observed after a write exactly if the write leaves it as it
is. -/
theorem observed_iff {Value Part : Type} {part : ThreadEntity → Part} {value : Value → Part}
    {observed : Option Value} {row : Option ThreadEntity}
    (kept : ∀ known, observed = some known → row.map part = some (value known))
    (new : ThreadEntity) :
    (∀ known, observed = some known → part new = value known) ↔
      ∀ old, row = some old → observed ≠ none → part new = part old := by
  constructor
  · rintro same old rfl set
    obtain ⟨known, rfl⟩ := Option.ne_none_iff_exists'.mp set
    have before : part old = value known := by simpa using kept known rfl
    rw [before]
    exact same known rfl
  · rintro same known rfl
    obtain ⟨old, rfl, before⟩ := Option.map_eq_some_iff.mp (kept known rfl)
    rw [← before]
    exact same old rfl (Option.some_ne_none known)

theorem kept_iff_of_row {observed : ObservedThread} {new : ThreadEntity}
    (row : observed.row recipientNumber = some new) :
    Kept recipientNumber observed ↔
      (∀ known, observed.handled = some known →
        (new.lastMessageSnippet, new.timestamp) = known) ∧
      ∀ known, observed.userName = some known → new.name = some known := by
  constructor
  · rintro ⟨name, handled⟩
    simp only [row, Option.map_some, Option.some.injEq] at name handled
    exact ⟨handled, name⟩
  · rintro ⟨handled, name⟩
    refine ⟨?_, ?_⟩ <;> simpa only [row, Option.map_some, Option.some.injEq]

theorem kept_step_iff (sound : observed.naming.Sound) (kept : Kept recipientNumber observed)
    (stepped : observed.step base64 filesDir recipientNumber event = some next) :
    Kept recipientNumber next ↔ Undisturbed recipientNumber observed event := by
  obtain ⟨naming, moved, rfl⟩ := Option.map_eq_some_iff.mp stepped
  have row := Naming.getThreadByRecipient_step sound moved recipientNumber
  cases written : observed.naming.writes recipientNumber event with
  | none =>
    rw [written, Option.map_none, Option.none_or] at row
    refine iff_of_true ⟨?_, ?_⟩ (by simp [Undisturbed, written])
    · rw [ObservedThread.row, observe, row]
      exact kept.name
    · rw [ObservedThread.row, observe, row]
      exact kept.handled
  | some known =>
    obtain ⟨writer, new⟩ := known
    rw [written, Option.map_some, Option.some_or] at row
    have name := observed_iff kept.name new
    have handled := observed_iff kept.handled new
    -- The observation of the writer itself is up to date; the other one decides.
    have undisturbed : Undisturbed recipientNumber observed event ↔
        (writer ≠ .handler → ∀ known, observed.handled = some known →
          (new.lastMessageSnippet, new.timestamp) = known) ∧
        (writer ≠ .user → ∀ known, observed.userName = some known →
          new.name = some known) := by
      rw [name, handled]
      simp only [Undisturbed, written, Option.mem_def, Option.some.injEq, Prod.mk.injEq]
      constructor
      · intro same
        refine ⟨fun other old before set => ?_, fun other old before set => ?_⟩
        · exact (same _ rfl old before).1 other set
        · exact (same _ rfl old before).2 other set
      · rintro ⟨snippet, named⟩ _ rfl old before
        exact ⟨fun other => snippet other old before, fun other => named other old before⟩
    have nextRow : (observed.observe naming (some (writer, new))).row recipientNumber =
        some new := by
      cases writer <;> exact row
    rw [undisturbed, kept_iff_of_row nextRow]
    cases writer with
    | handler => simp [observe]
    | fetch => simp [observe]
    | user => simp [observe]

theorem naming_step (stepped : observed.step base64 filesDir recipientNumber event = some next) :
    observed.naming.step base64 filesDir event = some next.naming := by
  obtain ⟨naming, moved, rfl⟩ := Option.map_eq_some_iff.mp stepped
  rw [moved]
  rcases observed.naming.writes recipientNumber event with _ | ⟨writer, row⟩
  · rfl
  · cases writer <;> rfl

/-- The user's name and the last message of a thread are kept all along a run exactly if every
write of the run finds the thread undisturbed. -/
theorem kept_always_iff (base64 : Base64) (filesDir recipientNumber : String) (db : Database)
    {events : List Naming.Event} {final : ObservedThread}
    (reached : run (step base64 filesDir recipientNumber) (initial db) events =
      some final) :
    Always (step base64 filesDir recipientNumber) (Kept recipientNumber) (initial db)
        events ↔
      Meets (step base64 filesDir recipientNumber) (Undisturbed recipientNumber)
        (initial db) events :=
  always_iff_meets (fun (observed : ObservedThread) _ _ (sound : observed.naming.Sound) _ stepped =>
      (sound.step (naming_step stepped)).sound)
    (fun _ _ _ sound kept stepped => kept_step_iff sound kept stepped)
    (Naming.sound_initial db) ⟨by simp [initial], by simp [initial]⟩ reached

def firstMessage : List Naming.Event :=
  [.inbox (.receive ⟨"alice", "hello", none, none⟩), .inbox (.handle 0 1 none),
    .inbox (.handle 0 1 none), .inbox (.handle 0 2 none), .inbox (.handle 0 2 none),
    .inbox (.handle 0 3 none)]

def namedRun : List Naming.Event :=
  firstMessage ++ [.setContactName 1 "Mum", .rename 0, .rename 0]

theorem kept_always_iff_named :
    Always (step .standard "/files" "alice") (Kept "alice") (initial .empty)
      namedRun := by
  have reached : run (step .standard "/files" "alice") (initial .empty) namedRun =
      some _ := rfl
  rw [kept_always_iff _ _ _ _ reached]
  decide

/-- The second message is handled after the rename has read the row and before it writes it. -/
def staleRun : List Naming.Event :=
  firstMessage ++ [.setContactName 1 "Mum", .rename 0,
    .inbox (.receive ⟨"alice", "are you there?", none, none⟩), .inbox (.handle 1 4 none),
    .inbox (.handle 1 4 none), .inbox (.handle 1 5 none), .rename 0]

/-- The second message is handled after the rename. -/
def overwrittenRun : List Naming.Event :=
  namedRun ++ [.inbox (.receive ⟨"alice", "are you there?", none, none⟩),
    .inbox (.handle 1 4 none), .inbox (.handle 1 4 none), .inbox (.handle 1 5 none)]

/-- In the one run the thread shows the first message again, in the other it has lost the name
that the user gave it. -/
theorem thread_not_kept :
    (∃ final, run (step .standard "/files" "alice") (initial .empty) staleRun =
        some final ∧ ¬Kept "alice" final) ∧
      ∃ final, run (step .standard "/files" "alice") (initial .empty) overwrittenRun =
        some final ∧ ¬Kept "alice" final := by
  refine ⟨⟨_, rfl, fun kept => ?_⟩, ⟨_, rfl, fun kept => ?_⟩⟩
  · exact absurd (kept.handled ("are you there?", 5) rfl) (by decide)
  · exact absurd (kept.name "Mum" rfl) (by decide)

end ObservedThread

end LegacySignal
