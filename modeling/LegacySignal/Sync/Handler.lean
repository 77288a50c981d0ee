import LegacySignal.Sync.Profile

/-!
# The handler of one envelope

The coroutine that `onMessageReceived` launches decrypts an envelope and files
the message: it finds or makes the thread of the sender, then inserts the
message row. Here the decryption and the attachment downloads are done, and
each step is one call of `DatabaseHelper`; between two calls of one handler
any other coroutine may run.
-/

namespace LegacySignal

/-- What the handler knows before it turns to the database. -/
structure Incoming where
  senderId : String
  /-- `decrypted.body` -/
  plaintext : String
  profileKey : Option (List UInt8)
  downloadedImagePath : Option String
deriving DecidableEq, Repr

namespace Incoming

def IsReceipt (incoming : Incoming) : Prop :=
  (incoming.plaintext = "[No Body/Receipt]" ∨ incoming.plaintext = "[Receipt]" ∨
    incoming.plaintext = "[No Data Message]") ∧ incoming.downloadedImagePath = none

instance (incoming : Incoming) : Decidable incoming.IsReceipt :=
  inferInstanceAs (Decidable ((incoming.plaintext = "[No Body/Receipt]" ∨
    incoming.plaintext = "[Receipt]" ∨ incoming.plaintext = "[No Data Message]") ∧
    incoming.downloadedImagePath = none))

def messageSnippet (incoming : Incoming) : String :=
  match incoming.downloadedImagePath with
  | some _ =>
    if incoming.plaintext ≠ "[Attachment]" ∧ incoming.plaintext ≠ "[No Body/Receipt]" ∧
        isBlank incoming.plaintext = false then
      "📷 " ++ incoming.plaintext
    else "📷 Photo"
  | none =>
    if incoming.plaintext = "[Attachment]" then "📷 Photo (downloading failed)"
    else incoming.plaintext

def messageBody (incoming : Incoming) : String :=
  if incoming.plaintext = "[Attachment]" ∨ incoming.plaintext = "[No Body/Receipt]" then ""
  else incoming.plaintext

def messageEntity (incoming : Incoming) (threadId : ℕ) (now : ℤ) : MessageEntity where
  threadId := threadId
  senderId := incoming.senderId
  body := incoming.messageBody
  timestamp := now
  isOutgoing := false
  imagePath := incoming.downloadedImagePath

end Incoming

/-- The database call that comes next, with the local variables it uses. -/
inductive HandlerPhase where
  /-- `getContactName`, to decide whether the profile is fetched. -/
  | currentName
  /-- `getContactAvatar`, for the same decision. -/
  | currentAvatar (currentName : Option String)
  | contactName
  | getThread (contactName : Option String)
  | insertThread (contactName : Option String)
  /-- The second `getThreadByRecipient`, after the insertion. -/
  | getInserted
  | updateThread (contactName : Option String) (senderThread : ThreadEntity)
  | insertMessage (senderThread : Option ThreadEntity)
  /-- The row that was inserted, none when `insertMessage` returned `-1`. -/
  | finished (row : Option MessageEntity)
  | skipped
  /-- An exception was caught and logged. -/
  | failed
deriving DecidableEq, Repr

namespace HandlerPhase

def Ended : HandlerPhase → Prop
  | .finished _ | .skipped | .failed => True
  | _ => False

instance : DecidablePred Ended
  | .finished _ | .skipped | .failed => isTrue trivial
  | .currentName | .currentAvatar _ | .contactName | .getThread _ | .insertThread _
  | .getInserted | .updateThread _ _ | .insertMessage _ => isFalse id

end HandlerPhase

structure Handler where
  incoming : Incoming
  phase : HandlerPhase
deriving DecidableEq, Repr

/-- What one call of the handler leaves behind. -/
structure HandlerOutcome where
  db : Database
  phase : HandlerPhase
  /-- `fetchAndSaveProfile` was called. -/
  fetches : Bool := false

namespace Handler

def launch (incoming : Incoming) : Handler where
  incoming := incoming
  phase := if incoming.profileKey.isSome then .currentName else .contactName

def recorded (handler : Handler) : Option MessageEntity :=
  match handler.phase with
  | .finished row => row
  | _ => none

theorem recorded_of_working {handler : Handler} (working : ¬handler.phase.Ended) :
    handler.recorded = none := by
  rcases handler with ⟨incoming, phase⟩
  cases phase with
  | finished row => exact absurd trivial working
  | _ => rfl

@[simp]
theorem launch_recorded (incoming : Incoming) : (launch incoming).recorded = none := by
  refine recorded_of_working ?_
  unfold launch
  split <;> exact id

/-- The next call of the handler, at time `now`. -/
def advance (db : Database) (now : ℤ) (handler : Handler) : HandlerOutcome :=
  let incoming := handler.incoming
  match handler.phase with
  | .currentName => { db, phase := .currentAvatar (db.getContactName incoming.senderId) }
  | .currentAvatar name =>
    { db, phase := .contactName
      fetches := isNullOrEmpty name || isNullOrEmpty (db.getContactAvatar incoming.senderId) }
  | .contactName =>
    if incoming.IsReceipt then { db, phase := .skipped }
    else { db, phase := .getThread (db.getContactName incoming.senderId) }
  | .getThread name =>
    match db.getThreadByRecipient incoming.senderId with
    | none => { db, phase := .insertThread name }
    | some thread => { db, phase := .updateThread name thread }
  | .insertThread name =>
    let thread : ThreadEntity :=
      { recipientNumber := incoming.senderId, name, timestamp := now
        lastMessageSnippet := incoming.messageSnippet }
    match db.insertThread thread with
    | .error _ => { db, phase := .failed }
    | .ok (_, after) => { db := after, phase := .getInserted }
  | .getInserted => { db, phase := .insertMessage (db.getThreadByRecipient incoming.senderId) }
  | .updateThread name thread =>
    let changed : ThreadEntity :=
      { thread with name, timestamp := now, lastMessageSnippet := incoming.messageSnippet }
    match db.updateThread changed with
    | .error _ => { db, phase := .failed }
    | .ok after => { db := after, phase := .insertMessage (some changed) }
  | .insertMessage none => { db, phase := .failed }
  | .insertMessage (some thread) =>
    let message := incoming.messageEntity thread.id now
    match db.insertMessage message with
    | (none, after) => { db := after, phase := .finished none }
    | (some id, after) => { db := after, phase := .finished (some { message with id }) }
  | .finished row => { db, phase := .finished row }
  | .skipped => { db, phase := .skipped }
  | .failed => { db, phase := .failed }

def next (db : Database) (now : ℤ) (handler : Handler) : Handler :=
  { handler with phase := (handler.advance db now).phase }

/-- The call is not an `insertThread` that replaces a row. -/
def InsertsOnlyMissing (db : Database) (handler : Handler) : Prop :=
  match handler.phase with
  | .insertThread _ => db.getThreadByRecipient handler.incoming.senderId = none
  | _ => True

instance (db : Database) (handler : Handler) : Decidable (handler.InsertsOnlyMissing db) := by
  unfold InsertsOnlyMissing
  split <;> infer_instance

end Handler

structure Holds (incoming : Incoming) (row : MessageEntity) : Prop where
  senderId : row.senderId = incoming.senderId
  body : row.body = incoming.messageBody
  imagePath : row.imagePath = incoming.downloadedImagePath
  isOutgoing : row.isOutgoing = false

structure Filed (db : Database) (incoming : Incoming) (row : MessageEntity) : Prop
    extends Holds incoming row where
  hasThread : db.HasThread incoming.senderId row.threadId

variable {incoming : Incoming} {phase : HandlerPhase}

/-- What a handler that is over has done. -/
def HandlerPhase.Accounted (messages : List MessageEntity) (incoming : Incoming) :
    HandlerPhase → Prop
  | .finished (some row) => row ∈ messages ∧ Holds incoming row
  | .skipped => incoming.IsReceipt
  | _ => True

theorem HandlerPhase.Accounted.mono {before after : List MessageEntity}
    (accounted : phase.Accounted before incoming) (kept : before ⊆ after) :
    phase.Accounted after incoming := by
  cases phase with
  | finished row =>
    cases row with
    | none => trivial
    | some row => exact ⟨kept accounted.1, accounted.2⟩
  | skipped => exact accounted
  | _ => trivial

namespace Handler

variable {handler : Handler}

theorem advance_messages (working : ¬handler.phase.Ended) (db : Database) (now : ℤ) :
    (handler.advance db now).db.messages =
      db.messages ++ (handler.next db now).recorded.toList := by
  have same := (List.append_nil db.messages).symm
  rcases handler with ⟨incoming, phase⟩
  cases phase with
  | currentName | currentAvatar | getInserted => exact same
  | contactName | getThread =>
    simp only [next, advance]
    split <;> exact same
  | insertThread name =>
    simp only [next, advance]
    split
    · exact same
    · rename_i inserted
      exact (Database.insertThread_messages inserted).trans same
  | updateThread name thread =>
    simp only [next, advance]
    split
    · exact same
    · rename_i updated
      exact (Database.updateThread_messages updated).trans same
  | insertMessage thread =>
    cases thread with
    | none => exact same
    | some thread =>
      simp only [next, advance]
      split <;> exact Database.insertMessage_messages ‹_›
  | _ => exact absurd trivial working

theorem advance_accounted (working : ¬handler.phase.Ended) (db : Database) (now : ℤ) :
    (handler.next db now).phase.Accounted (handler.advance db now).db.messages
      handler.incoming := by
  have messages := advance_messages working db now
  rcases handler with ⟨incoming, phase⟩
  cases phase with
  | contactName =>
    by_cases receipt : incoming.IsReceipt
    · simp only [next, advance, if_pos receipt]
      exact receipt
    · simp only [next, advance, if_neg receipt]
      trivial
  | insertMessage thread =>
    cases thread with
    | none => trivial
    | some thread =>
      cases inserted : db.insertMessage (incoming.messageEntity thread.id now) with
      | mk result after =>
        cases result with
        | none =>
          simp only [next, advance, inserted]
          trivial
        | some id =>
          simp only [next, advance, inserted] at messages ⊢
          rw [messages]
          exact ⟨List.mem_append_right _ List.mem_cons_self, rfl, rfl, rfl, rfl⟩
  | currentName | currentAvatar | getInserted => trivial
  | finished | skipped | failed => exact absurd trivial working
  | _ =>
    simp only [next, advance]
    split <;> trivial

end Handler

end LegacySignal
