import LegacySignal.Sync.LostMessages
import LegacySignal.Sync.MessageReceiver

/-!
# The text of a stored message

A handler that no other coroutine interrupts ends after at most seven calls of `DatabaseHelper`:
it has inserted one row, or skipped the message. Which of the two, and with which text, depends
on the text alone where the body of a message equals one of the texts in square brackets that
`decryptMessage` uses for messages without a body.
-/

namespace LegacySignal

namespace HandlerPhase

/-- At most so many calls are left. -/
def remaining : HandlerPhase → ℕ
  | .currentName => 7
  | .currentAvatar _ => 6
  | .contactName => 5
  | .getThread _ => 4
  | .insertThread _ => 3
  | .getInserted => 2
  | .updateThread _ _ => 2
  | .insertMessage _ => 1
  | .finished _ | .skipped | .failed => 0

theorem ended_iff_remaining {phase : HandlerPhase} : phase.Ended ↔ phase.remaining = 0 := by
  cases phase <;> simp [Ended, remaining]

/-- The handler has looked at the text and not skipped the message. -/
def PastReceipt : HandlerPhase → Prop
  | .currentName | .currentAvatar _ | .contactName | .skipped => False
  | _ => True

end HandlerPhase

namespace Handler

/-- The calls of one handler at the given times, with none of another coroutine in between. -/
def runAlone (db : Database) (handler : Handler) : List ℤ → Database × Handler
  | [] => (db, handler)
  | now :: times =>
    let outcome := handler.advance db now
    runAlone outcome.db { handler with phase := outcome.phase } times

variable {handler : Handler}

theorem advance_of_ended (ended : handler.phase.Ended) (db : Database) (now : ℤ) :
    (handler.advance db now).db = db ∧ (handler.advance db now).phase = handler.phase := by
  rcases handler with ⟨incoming, phase⟩
  cases phase with
  | finished row => exact ⟨rfl, rfl⟩
  | skipped => exact ⟨rfl, rfl⟩
  | failed => exact ⟨rfl, rfl⟩
  | _ => exact ended.elim

theorem remaining_advance (db : Database) (now : ℤ) :
    (handler.advance db now).phase.remaining ≤ handler.phase.remaining - 1 := by
  rcases handler with ⟨incoming, phase⟩
  cases phase with
  | insertMessage thread =>
    cases thread with
    | none => exact Nat.le_refl 0
    | some thread =>
      simp only [advance]
      split <;> exact Nat.le_refl 0
  | contactName | getThread | insertThread | updateThread =>
    simp only [advance]
    split <;> simp only [HandlerPhase.remaining] <;> omega
  | _ => exact Nat.le_refl _

/-- The state of a handler that works alone, since the messages were `start`. -/
structure Alone (start : List MessageEntity) (db : Database) (handler : Handler) : Prop where
  sound : handler.Sound db
  kept : ¬handler.Lost db
  allowed : handler.InsertsOnlyMissing db
  past : handler.phase.PastReceipt → ¬handler.incoming.IsReceipt
  messages : db.messages = start ++ handler.recorded.toList

theorem alone_launch (db : Database) (incoming : Incoming) :
    Alone db.messages db (launch incoming) where
  sound := sound_launch db incoming
  kept := lost_launch db incoming
  allowed := by
    unfold launch
    split <;> trivial
  past := by
    unfold launch
    split <;> exact False.elim
  messages := by simp

variable {db : Database} {start : List MessageEntity} {times : List ℤ}

theorem insertsOnlyMissing_advance (now : ℤ) :
    (handler.next db now).InsertsOnlyMissing (handler.advance db now).db := by
  rcases handler with ⟨incoming, phase⟩
  cases phase with
  | getThread name =>
    cases found : db.getThreadByRecipient incoming.senderId with
    | none =>
      simp only [next, advance, found]
      exact found
    | some thread =>
      simp only [next, advance, found]
      trivial
  | insertThread name =>
    simp only [next, advance]
    split <;> trivial
  | updateThread name thread =>
    simp only [next, advance]
    split <;> trivial
  | contactName =>
    simp only [next, advance]
    split <;> trivial
  | insertMessage thread =>
    cases thread with
    | none => trivial
    | some thread =>
      simp only [next, advance]
      split <;> trivial
  | _ => trivial

theorem past_advance (past : handler.phase.PastReceipt → ¬handler.incoming.IsReceipt) (now : ℤ)
    (reached : (handler.advance db now).phase.PastReceipt) : ¬handler.incoming.IsReceipt := by
  rcases handler with ⟨incoming, phase⟩
  cases phase with
  | currentName => exact reached.elim
  | currentAvatar name => exact reached.elim
  | contactName =>
    by_cases receipt : incoming.IsReceipt
    · simp only [advance, if_pos receipt] at reached
      exact reached.elim
    · exact receipt
  | skipped => exact reached.elim
  | _ => exact past trivial

theorem Alone.advance (alone : Alone start db handler) (now : ℤ) :
    Alone start (handler.advance db now).db (handler.next db now) := by
  by_cases ended : handler.phase.Ended
  · obtain ⟨sameDb, samePhase⟩ := advance_of_ended ended db now
    rw [next, sameDb, samePhase]
    exact alone
  · have kept : ¬(handler.next db now).Lost (handler.advance db now).db := by
      rw [(alone.sound.advanced ended now).lost]
      rintro (lost | ⟨inserts, referenced⟩)
      · exact alone.kept lost
      · obtain ⟨id, present, _⟩ := Database.referenced_iff.mp referenced
        simp [threadId_of_insertsOnlyMissing alone.allowed inserts] at present
    refine ⟨alone.sound.next ended now, kept, insertsOnlyMissing_advance now,
      past_advance alone.past now, ?_⟩
    have before : db.messages = start := by
      rw [alone.messages, recorded_of_working ended]
      exact List.append_nil start
    rw [advance_messages ended, before]

theorem runAlone_spec (alone : Alone start db handler)
    (enough : handler.phase.remaining ≤ times.length) :
    Alone start (runAlone db handler times).1 (runAlone db handler times).2 ∧
      (runAlone db handler times).2.phase.Ended ∧
      (runAlone db handler times).2.incoming = handler.incoming := by
  induction times generalizing db handler with
  | nil => exact ⟨alone, HandlerPhase.ended_iff_remaining.mpr (Nat.le_zero.mp enough), rfl⟩
  | cons now times ih =>
    have fewer := @remaining_advance handler db now
    rw [List.length_cons] at enough
    exact ih (alone.advance now) (by dsimp only; omega)

theorem runAlone_launch (db : Database) (incoming : Incoming) (enough : 7 ≤ times.length) :
    (incoming.IsReceipt ∧ (runAlone db (launch incoming) times).1.messages = db.messages) ∨
      (¬incoming.IsReceipt ∧ ∃ row, Holds incoming row ∧
        (runAlone db (launch incoming) times).1.messages = db.messages ++ [row]) := by
  have first : (launch incoming).phase.remaining ≤ times.length := by
    unfold launch
    split <;> simp only [HandlerPhase.remaining] <;> omega
  obtain ⟨alone, ended, same⟩ := runAlone_spec (alone_launch db incoming) first
  generalize runAlone db (launch incoming) times = result at alone ended same
  obtain ⟨after, incoming', phase⟩ := result
  obtain rfl : incoming' = incoming := same
  cases phase with
  | finished row =>
    cases row with
    | none => exact absurd (.inl (.inr rfl)) alone.kept
    | some row =>
      exact .inr ⟨alone.past trivial, row, alone.sound.accounted.2, alone.messages⟩
  | skipped =>
    refine .inl ⟨alone.sound.accounted, ?_⟩
    rw [alone.messages]
    exact List.append_nil _
  | failed => exact absurd (.inl (.inl rfl)) alone.kept
  | _ => exact ended.elim

/-- The text of a data message is stored as it was sent exactly when it is none of the texts
that the handler takes for a missing body, and none of those that it takes for a receipt unless
an image came with it. -/
theorem stored_iff (C : AttachmentPrimitives) (ciphers : MessageCiphers) (downloads : Downloads)
    {envelope : SignalServiceProtos.Envelope} {senderId : String}
    {dataMessage : SignalServiceProtos.DataMessage} {body : String}
    (carries : MessageReceiver.Carries ciphers envelope senderId dataMessage)
    (text : dataMessage.body = some body) (notEmpty : body ≠ "") (db : Database)
    {times : List ℤ} (enough : 7 ≤ times.length) :
    (∃ row, row.body = body ∧
      (runAlone db (launch (.ofDecrypted C downloads
        (MessageReceiver.decryptMessage ciphers envelope))) times).1.messages =
          db.messages ++ [row]) ↔
    body ≠ "[Attachment]" ∧ body ≠ "[No Body/Receipt]" ∧
      (body = "[Receipt]" ∨ body = "[No Data Message]" →
        downloads.Succeeds C dataMessage.attachments) := by
  rw [MessageReceiver.decryptMessage_of_carries carries]
  set incoming := Incoming.ofDecrypted C downloads
    (MessageReceiver.ofDataMessage senderId dataMessage) with incoming_eq
  have plaintext : incoming.plaintext = body :=
    MessageReceiver.ofDataMessage_body senderId text notEmpty
  have downloaded : incoming.downloadedImagePath ≠ none ↔
      downloads.Succeeds C dataMessage.attachments :=
    Downloads.downloadedImagePath_ne_none_iff
  have receipt : incoming.IsReceipt ↔ (body = "[No Body/Receipt]" ∨ body = "[Receipt]" ∨
      body = "[No Data Message]") ∧ ¬downloads.Succeeds C dataMessage.attachments := by
    rw [Incoming.IsReceipt, plaintext, ← downloaded, not_not]
  have messageBody : incoming.messageBody = body ↔
      body ≠ "[Attachment]" ∧ body ≠ "[No Body/Receipt]" := by
    rw [Incoming.messageBody, plaintext]
    split
    · rename_i marker
      exact ⟨fun empty => absurd empty.symm notEmpty, fun neither => by tauto⟩
    · rename_i neither
      exact ⟨fun _ => not_or.mp neither, fun _ => rfl⟩
  rcases runAlone_launch db incoming enough with ⟨skipped, none⟩ | ⟨kept, row, holds, one⟩
  · rw [none]
    refine iff_of_false ?_ ?_
    · rintro ⟨row, _, grown⟩
      exact absurd (congrArg List.length grown) (by simp)
    · have := receipt.mp skipped
      tauto
  · rw [one]
    have rows : (∃ other : MessageEntity, other.body = body ∧
        db.messages ++ [row] = db.messages ++ [other]) ↔ incoming.messageBody = body := by
      rw [← holds.body]
      constructor
      · rintro ⟨other, same, equal⟩
        obtain rfl : row = other := by simpa using equal
        exact same
      · exact fun same => ⟨row, same, rfl⟩
    rw [rows, messageBody]
    rw [receipt] at kept
    tauto

/-- The ciphers leave the bytes as they are, and every content has this body. -/
def plainCiphers (body : String) : MessageCiphers where
  decryptPreKeyMessage _ _ bytes := some bytes
  decryptSignalMessage _ _ bytes := some bytes
  decryptSealed _ := none
  parseFrom _ := some ⟨some { body := some body }⟩

def plainEnvelope : SignalServiceProtos.Envelope where
  type := .doubleRatchet
  sourceServiceId := some "a"
  content := [1]

def noDownloads : Downloads where
  execute _ _ _ _ := none
  save _ _ _ := none

def messagesAfter (body : String) : List MessageEntity :=
  (runAlone .empty (launch (.ofDecrypted AttachmentCipher.Toy.primitives noDownloads
    (MessageReceiver.decryptMessage (plainCiphers body) plainEnvelope)))
      (List.replicate 7 0)).1.messages

theorem stored_iff_hello :
    ∃ row, row.body = "hello" ∧ messagesAfter "hello" = Database.empty.messages ++ [row] :=
  (stored_iff AttachmentCipher.Toy.primitives (plainCiphers "hello") noDownloads
    ⟨[1], rfl, rfl⟩ rfl (by decide) .empty (by simp)).mpr
      ⟨by decide, by decide, fun marker => absurd marker (by decide)⟩

/-- A text that looks like a receipt is skipped as one. -/
theorem receipt_text_not_stored :
    MessageReceiver.Carries (plainCiphers "[Receipt]") plainEnvelope "a"
      { body := some "[Receipt]" } ∧ messagesAfter "[Receipt]" = [] :=
  ⟨⟨[1], rfl, rfl⟩, by decide +kernel⟩

end Handler

end LegacySignal
