import LegacySignal.Sync.ThreadCalls

/-!
# How a handler loses its message

A handler looks for the thread of its sender and inserts one when there is none, in two calls.
When two first messages of one sender are handled together, the second insertion replaces the
thread of the first, and a message that refers to the replaced id is refused. Every step of the
inbox is exact in this: a handler has lost its message after the step if it had lost it before, or
if the step is one of those that cost it. `delivered_of_insertsOnlyMissing` shows that there is no
other way to lose or misfile a message.
-/

namespace LegacySignal

namespace Handler

/-- The handler is over without a row: an exception, or a refused insertion. -/
def Dropped (handler : Handler) : Prop :=
  handler.phase = .failed ∨ handler.phase = .finished none

/-- The handler is over without a row, or holds one that is no longer the thread of its sender. -/
def Lost (db : Database) (handler : Handler) : Prop :=
  handler.Dropped ∨
    ∃ row ∈ handler.phase.row, db.threadId handler.incoming.senderId ≠ some row.id

/-- What a handler can rely on, whatever the others do. -/
@[mk_iff]
structure Reads (db : Database) (handler : Handler) : Prop where
  row : ∀ row ∈ handler.phase.row,
    row.recipientNumber = handler.incoming.senderId ∧ db.Held row
  inserted : handler.phase = .getInserted →
    (db.threadId handler.incoming.senderId).isSome
  found : handler.phase ≠ .insertMessage none

structure Sound (db : Database) (handler : Handler) : Prop extends handler.Reads db where
  accounted : handler.phase.Accounted db.messages handler.incoming
  filed : ∀ row, handler.phase = .finished (some row) →
    db.threadId handler.incoming.senderId = some row.threadId

variable {db after : Database} {handler : Handler} {calls : Option ThreadCall} {now : ℤ}

theorem sound_launch (db : Database) (incoming : Incoming) : (launch incoming).Sound db := by
  unfold launch
  split <;> exact ⟨⟨by simp, by simp, by simp⟩, trivial, by simp⟩

theorem lost_launch (db : Database) (incoming : Incoming) : ¬(launch incoming).Lost db := by
  unfold launch
  split <;> simp [Lost, Dropped]

theorem Sound.afterCall (sound : handler.Sound db) (kept : db.messages ⊆ after.messages)
    (valid : ∀ call ∈ calls, db.Valid call) (same : after.SameThreads (db.afterCall calls)) :
    handler.Sound after where
  row row holds := ⟨(sound.row row holds).1, (sound.row row holds).2.afterCall valid same⟩
  inserted waits := by
    rcases Database.threadId_afterCall valid same handler.incoming.senderId with
      ⟨_, sameId⟩ | ⟨_, sameId⟩
    · exact sameId ▸ rfl
    · exact sameId ▸ sound.inserted waits
  found := sound.found
  accounted := sound.accounted.mono kept
  filed row finished := by
    have before := sound.filed row finished
    have stored := sound.accounted
    rw [finished] at stored
    rcases Database.threadId_afterCall valid same handler.incoming.senderId with
      ⟨⟨call, _, replaces⟩, _⟩ | ⟨_, sameId⟩
    · exact absurd (Database.referenced_iff.mpr ⟨_, before, row, stored.1, rfl⟩) replaces.free
    · rw [sameId, before]

/-- Another coroutine's call costs the handler its message if it replaces the row it holds. -/
theorem lost_afterCall (reads : handler.Reads db) (valid : ∀ call ∈ calls, db.Valid call)
    (same : after.SameThreads (db.afterCall calls)) :
    handler.Lost after ↔ handler.Lost db ∨ handler.phase.row.isSome ∧
      ∃ call ∈ calls, db.Replaces handler.incoming.senderId call := by
  unfold Lost
  rw [or_assoc]
  refine or_congr_right ?_
  rcases Database.threadId_afterCall valid same handler.incoming.senderId with
    ⟨replaces, sameId⟩ | ⟨kept, sameId⟩
  · simp only [sameId, replaces, and_true, Option.isSome_iff_exists]
    constructor
    · rintro ⟨row, holds, _⟩
      exact .inr ⟨row, holds⟩
    · rintro (⟨row, holds, _⟩ | ⟨row, holds⟩)
      all_goals
        have := (reads.row row holds).2.id_le
        exact ⟨row, holds, by simp; omega⟩
  · simp only [sameId, kept, and_false, or_false]

theorem threadCall_replaces_iff {recipientNumber : String} :
    (∃ call ∈ handler.threadCall now, db.Replaces recipientNumber call) ↔
      handler.phase.Inserts ∧ handler.incoming.senderId = recipientNumber ∧
        ¬db.Referenced recipientNumber := by
  rcases handler with ⟨incoming, phase⟩
  cases phase <;> simp [threadCall, Database.Replaces]

/-- What a call of the handler itself does to it. -/
structure Advanced (db : Database) (now : ℤ) (handler : Handler) : Prop where
  reads : (handler.next db now).Reads (handler.advance db now).db
  filed : ∀ row, (handler.advance db now).phase = .finished (some row) →
    (handler.advance db now).db.threadId handler.incoming.senderId = some row.threadId
  lost : (handler.next db now).Lost (handler.advance db now).db ↔
    handler.Lost db ∨ handler.phase.Inserts ∧ db.Referenced handler.incoming.senderId

section advance

variable {incoming : Incoming} {name : Option String} {thread : ThreadEntity}

theorem advanced_insertThread : (⟨incoming, .insertThread name⟩ : Handler).Advanced db now := by
  have same := advance_sameThreads db now ⟨incoming, .insertThread name⟩
  by_cases referenced : db.Referenced incoming.senderId
  · constructor <;> simp [reads_iff, next, advance, Database.insertThread, referenced, Lost,
      Dropped]
  · have replaces := (@threadCall_replaces_iff db ⟨incoming, .insertThread name⟩ now _).mpr
      ⟨trivial, rfl, referenced⟩
    rcases Database.threadId_afterCall (valid_threadCall (by simp) now) same
      incoming.senderId with ⟨_, sameId⟩ | ⟨kept, _⟩
    · constructor <;> simp_all [reads_iff, next, advance, Database.insertThread, Lost, Dropped]
    · exact absurd replaces kept

theorem advanced_updateThread
    (reads : (⟨incoming, .updateThread name thread⟩ : Handler).Reads db) :
    (⟨incoming, .updateThread name thread⟩ : Handler).Advanced db now := by
  obtain ⟨own, held⟩ := reads.row thread rfl
  let changed : ThreadEntity :=
    { thread with name, timestamp := now, lastMessageSnippet := incoming.messageSnippet }
  have heldChanged : db.Held changed := ⟨held.id_le, held.recipientNumber⟩
  obtain ⟨after, updated, _⟩ := heldChanged.updateThread
  have called : db.callThread (.update changed) = after := by simp [Database.callThread, updated]
  have valid : db.Valid (.update changed) := heldChanged
  have stillHeld : after.Held changed := called ▸ heldChanged.callThread valid
  have sameId := (Database.threadId_callThread valid incoming.senderId).2 id
  rw [called] at sameId
  have advanced : (⟨incoming, .updateThread name thread⟩ : Handler).advance db now =
      { db := after, phase := .insertMessage (some changed) } := by
    simp only [advance, changed] at updated ⊢
    rw [updated]
  have sameRow : changed.recipientNumber = incoming.senderId ∧ changed.id = thread.id := ⟨own, rfl⟩
  constructor <;> simp [reads_iff, next, advanced, sameRow, stillHeld, sameId, Lost, Dropped]

theorem advanced_insertMessage
    (reads : (⟨incoming, .insertMessage (some thread)⟩ : Handler).Reads db) :
    (⟨incoming, .insertMessage (some thread)⟩ : Handler).Advanced db now := by
  obtain ⟨own, held⟩ := reads.row thread rfl
  have present := own ▸ held.exists_id_iff
  by_cases kept : db.threadId incoming.senderId = some thread.id
  · have present := present.mpr kept
    constructor <;> simp [reads_iff, next, advance, Database.insertMessage, Incoming.messageEntity,
      present, kept, Lost, Dropped]
    exact kept
  · have gone := mt present.mp kept
    constructor <;> simp [reads_iff, next, advance, Database.insertMessage, Incoming.messageEntity,
      gone, kept, Lost, Dropped]

end advance

theorem Reads.advanced (reads : handler.Reads db) (working : ¬handler.phase.Ended) (now : ℤ) :
    handler.Advanced db now := by
  rcases handler with ⟨incoming, phase⟩
  have read : ∀ {thread}, db.getThreadByRecipient incoming.senderId = some thread →
      (thread.recipientNumber = incoming.senderId ∧ db.Held thread) ∧
        db.threadId incoming.senderId = some thread.id := by
    intro thread found
    obtain ⟨inThreads, own⟩ := Database.getThreadByRecipient_some found
    exact ⟨⟨own, Database.held_of_mem inThreads⟩, by simp [Database.threadId, found]⟩
  cases phase with
  | currentName | currentAvatar | contactName =>
    constructor <;> simp only [next, advance] <;> (try split) <;>
      simp [reads_iff, Lost, Dropped]
  | getThread name =>
    cases found : db.getThreadByRecipient incoming.senderId with
    | none =>
      constructor <;> simp [reads_iff, next, advance, found, Lost, Dropped]
    | some thread =>
      constructor <;> simp [reads_iff, next, advance, found, read found, Lost, Dropped]
  | insertThread name => exact advanced_insertThread
  | getInserted =>
    rcases Option.isSome_iff_exists.mp (reads.inserted rfl) with ⟨id, isThread⟩
    rcases Option.map_eq_some_iff.mp isThread with ⟨thread, found, _⟩
    constructor <;> simp [reads_iff, next, advance, found, read found, Lost, Dropped]
  | updateThread name thread => exact advanced_updateThread reads
  | insertMessage thread =>
    cases thread with
    | none => exact absurd rfl reads.found
    | some thread => exact advanced_insertMessage reads
  | finished row => exact absurd trivial working
  | skipped => exact absurd trivial working
  | failed => exact absurd trivial working

theorem Sound.next (sound : handler.Sound db) (working : ¬handler.phase.Ended) (now : ℤ) :
    (handler.next db now).Sound (handler.advance db now).db where
  toReads := (sound.advanced working now).reads
  accounted := advance_accounted working db now
  filed := (sound.advanced working now).filed

theorem threadId_of_insertsOnlyMissing (allowed : handler.InsertsOnlyMissing db)
    (inserts : handler.phase.Inserts) : db.threadId handler.incoming.senderId = none := by
  rcases handler with ⟨incoming, phase⟩
  cases phase with
  | insertThread name => exact Option.map_eq_none_iff.mpr allowed
  | _ => exact inserts.elim

end Handler

namespace Inbox

open TaskList Transition

structure Sound (inbox : Inbox) : Prop where
  handlers : ∀ handler ∈ inbox.handlers, handler.Sound inbox.db
  fetches : ∀ fetch ∈ inbox.fetches, ∀ thread ∈ fetch.held, inbox.db.Held thread

def LostAt (inbox : Inbox) (index : ℕ) : Prop :=
  ∃ handler ∈ inbox.handlers[index]?, handler.Lost inbox.db

/-- The event costs a handler its message: a handler inserts the thread of the same sender, and
either it is the handler itself and the old thread has messages, so that it cannot be replaced, or
it is replaced and was the row that the handler holds. -/
def Costs (inbox : Inbox) (index : ℕ) : Event → Prop
  | .handle caller _ _ =>
    ∃ handler ∈ inbox.handlers[index]?, ∃ inserting ∈ inbox.handlers[caller]?,
      inserting.phase.Inserts ∧ inserting.incoming.senderId = handler.incoming.senderId ∧
        (caller = index ∧ inbox.db.Referenced handler.incoming.senderId ∨
          handler.phase.row.isSome ∧ ¬inbox.db.Referenced handler.incoming.senderId)
  | .receive _ | .fetch _ => False

def threadCall (inbox : Inbox) : Event → Option ThreadCall
  | .receive _ => none
  | .handle index now _ => (inbox.handlers[index]?).bind (Handler.threadCall now)
  | .fetch index => (inbox.fetches[index]?).bind Fetch.threadCall

structure Advances (inbox next : Inbox) (event : Event) : Prop where
  valid : ∀ call ∈ inbox.threadCall event, inbox.db.Valid call
  same : next.db.SameThreads (inbox.db.afterCall (inbox.threadCall event))
  sound : next.Sound
  lost : ∀ index, next.LostAt index ↔ inbox.LostAt index ∨ inbox.Costs index event

theorem sound_initial (db : Database) : (initial db).Sound :=
  ⟨by simp [initial], by simp [initial]⟩

theorem not_lostAt_initial (db : Database) (index : ℕ) : ¬(initial db).LostAt index := by
  simp [initial, LostAt]

variable {inbox next : Inbox} {index : ℕ} {base64 : Base64} {filesDir : String} {event : Event}
  {now : ℤ} {response : Option ProfileResponse} {calls : Option ThreadCall} {after start : Database}

theorem Sound.afterCall (sound : inbox.Sound) (kept : inbox.db.messages ⊆ after.messages)
    (valid : ∀ call ∈ calls, inbox.db.Valid call)
    (same : after.SameThreads (inbox.db.afterCall calls)) : Sound { inbox with db := after } where
  handlers handler member := (sound.handlers handler member).afterCall kept valid same
  fetches fetch member thread holds :=
    (sound.fetches fetch member thread holds).afterCall valid same

theorem Sound.receive (sound : inbox.Sound) (incoming : Incoming) :
    Advances inbox { inbox with handlers := inbox.handlers ++ [.launch incoming] }
      (.receive incoming) where
  valid := by simp [threadCall]
  same := .refl _
  sound := by
    refine ⟨forall_mem_append sound.handlers fun handler member => ?_, sound.fetches⟩
    rw [List.mem_singleton.mp member]
    exact Handler.sound_launch inbox.db incoming
  lost index := by
    rw [Costs, or_false, LostAt, LostAt, List.getElem?_append]
    split
    · rfl
    · rename_i beyond
      rw [List.getElem?_eq_none (Nat.le_of_not_lt beyond)]
      refine iff_of_false ?_ (by simp)
      rintro ⟨handler, found, lost⟩
      rw [List.mem_singleton.mp (List.mem_of_getElem? found)] at lost
      exact Handler.lost_launch inbox.db incoming lost

theorem Sound.handle {caller : ℕ} (sound : inbox.Sound)
    (stepped : inbox.step base64 filesDir (.handle caller now response) = some next) :
    Advances inbox next (.handle caller now response) := by
  obtain ⟨handler, found, working, rfl⟩ := step_handle stepped
  have handlerSound := sound.handlers handler (List.mem_of_getElem? found)
  have call : inbox.threadCall (.handle caller now response) = handler.threadCall now := by
    simp [threadCall, found]
  have valid := Handler.valid_threadCall (fun row holds => (handlerSound.row row holds).2) now
  have same := handler.advance_sameThreads inbox.db now
  have kept : inbox.db.messages ⊆ (handler.advance inbox.db now).db.messages := by
    rw [Handler.advance_messages working]
    exact List.subset_append_left _ _
  have others := sound.afterCall kept valid same
  refine ⟨call ▸ valid, call ▸ same, ⟨?_, ?_⟩, fun index => ?_⟩
  · exact forall_mem_set others.handlers (handlerSound.next working now) caller
  · refine forall_mem_append others.fetches fun fetch launched => ?_
    rw [launched_held fetch launched]
    simp
  · unfold LostAt Costs
    by_cases own : caller = index
    · subst own
      simp only [getElem?_set_found found, found, Option.mem_some_iff, exists_eq_left', true_and]
      rw [(handlerSound.advanced working now).lost]
      refine or_congr_right (and_congr_right fun inserts => ?_)
      have noRow : ¬handler.phase.row.isSome := by
        rcases handler with ⟨incoming, phase⟩
        cases phase with
        | insertThread => simp
        | _ => exact inserts.elim
      exact (or_iff_left fun both => noRow both.1).symm
    · simp only [List.getElem?_set_ne own, found, Option.mem_some_iff, exists_eq_left', own,
        false_and, false_or, ← exists_or, ← and_or_left]
      refine exists_congr fun other => and_congr_right fun isOther => ?_
      rw [Handler.lost_afterCall (sound.handlers other (List.mem_of_getElem? isOther)).toReads valid
        same, Handler.threadCall_replaces_iff]
      tauto

theorem Sound.fetch {caller : ℕ} (sound : inbox.Sound)
    (stepped : inbox.step base64 filesDir (.fetch caller) = some next) :
    Advances inbox next (.fetch caller) := by
  obtain ⟨fetch, found, rfl⟩ := step_fetch stepped
  have call : inbox.threadCall (.fetch caller) = fetch.threadCall := by simp [threadCall, found]
  have valid := Fetch.valid_threadCall (sound.fetches fetch (List.mem_of_getElem? found))
  have same := fetch.advance_sameThreads base64 filesDir inbox.db
  have kept : inbox.db.messages ⊆ (fetch.advance base64 filesDir inbox.db).1.messages := by
    rw [fetch.advance_messages]
    exact List.Subset.refl _
  have others := sound.afterCall kept valid same
  refine ⟨call ▸ valid, call ▸ same, ⟨others.handlers, ?_⟩, fun index => ?_⟩
  · refine forall_mem_set others.fetches (fun thread holds => ?_) caller
    obtain ⟨unchanged, inThreads⟩ := Fetch.advance_held holds
    rw [unchanged]
    exact Database.held_of_mem inThreads
  · rw [Costs, or_false]
    refine exists_congr fun other => and_congr_right fun isOther => ?_
    rw [Handler.lost_afterCall (sound.handlers other (List.mem_of_getElem? isOther)).toReads valid
      same, or_iff_left]
    rintro ⟨_, call, called, replaces⟩
    rcases fetch with ⟨senderId, profileKey, answer, phase⟩
    cases phase with
    | updateThread =>
      cases called
      exact replaces.elim
    | _ => cases called

theorem Sound.step (sound : inbox.Sound)
    (stepped : inbox.step base64 filesDir event = some next) : Advances inbox next event := by
  cases event with
  | receive incoming =>
    cases stepped
    exact sound.receive incoming
  | handle index now response => exact sound.handle stepped
  | fetch index => exact sound.fetch stepped

theorem not_costs_of_insertsOnlyMissing (kept : ¬inbox.LostAt index)
    (allowed : inbox.InsertsOnlyMissing event) : ¬inbox.Costs index event := by
  cases event with
  | handle caller now response =>
    rintro ⟨handler, found, inserting, isCaller, inserts, sameSender, reason⟩
    have missing := Handler.threadId_of_insertsOnlyMissing (allowed inserting isCaller) inserts
    rw [sameSender] at missing
    rcases reason with ⟨_, referenced⟩ | ⟨holds, _⟩
    · obtain ⟨id, present, _⟩ := Database.referenced_iff.mp referenced
      simp [missing] at present
    · obtain ⟨row, isRow⟩ := Option.isSome_iff_exists.mp holds
      exact kept ⟨handler, found, .inr ⟨row, isRow, by simp [missing]⟩⟩
  | receive incoming => exact id
  | fetch index => exact id

theorem Sound.delivered (sound : inbox.Sound) (conserved : Conserved start inbox)
    (kept : ∀ index, ¬inbox.LostAt index) : Delivered start inbox := by
  intro ended
  refine ⟨conserved, fun handler member data => ?_⟩
  have handlerSound := sound.handlers handler member
  have isOver := ended handler member
  obtain ⟨index, found⟩ := List.getElem?_of_mem member
  have notDropped : ¬handler.Dropped := fun dropped => kept index ⟨handler, found, .inl dropped⟩
  rcases handler with ⟨incoming, phase⟩
  cases phase with
  | finished row =>
    cases row with
    | none => exact absurd (.inr rfl) notDropped
    | some row =>
      obtain ⟨thread, isThread, sameId⟩ := Option.map_eq_some_iff.mp (handlerSound.filed row rfl)
      obtain ⟨inThreads, same⟩ := Database.getThreadByRecipient_some isThread
      refine ⟨row, rfl, ⟨handlerSound.accounted.2, thread, inThreads, same, sameId⟩, thread,
        inThreads, sameId, fun other otherInThreads => ⟨fun otherSame => ?_, ?_⟩⟩
      · exact KeyedRows.eq_of_key_eq inbox.db.recipientNumber_nodup otherInThreads inThreads
          (otherSame.trans same.symm)
      · rintro rfl
        exact same
  | skipped => exact absurd handlerSound.accounted data
  | failed => exact absurd (.inl rfl) notDropped
  | _ => exact absurd isOver id

/-- From any database, if no handler replaces a thread row, no message is lost or misfiled. -/
theorem delivered_of_insertsOnlyMissing (base64 : Base64) (filesDir : String) (db : Database)
    (events : List Event) (inbox : Inbox)
    (allowed : Meets (step base64 filesDir) InsertsOnlyMissing (initial db) events)
    (reached : run (step base64 filesDir) (initial db) events = some inbox) :
    Delivered db inbox := by
  have preserved : ∀ inbox event next,
      (inbox.Sound ∧ Conserved db inbox ∧ ∀ index, ¬inbox.LostAt index) →
      inbox.InsertsOnlyMissing event → inbox.step base64 filesDir event = some next →
      next.Sound ∧ Conserved db next ∧ ∀ index, ¬next.LostAt index := by
    rintro inbox event next ⟨sound, conserved, kept⟩ allowed stepped
    have advances := sound.step stepped
    refine ⟨advances.sound, conserved_step conserved stepped, fun index => ?_⟩
    rw [advances.lost]
    exact not_or.mpr ⟨kept index, not_costs_of_insertsOnlyMissing (kept index) allowed⟩
  obtain ⟨sound, conserved, kept⟩ := run_invariant_of_meets preserved
    ⟨sound_initial db, conserved_initial db, not_lostAt_initial db⟩ allowed reached
  exact sound.delivered conserved kept

/-- In every run, also where threads are replaced, no message is stored twice or made up: a handler
adds at most one row, and this holds the message that it was launched with. -/
theorem stored_at_most_once {events : List Event}
    (reached : run (step base64 filesDir) (initial start) events = some inbox) :
    Conserved start inbox ∧ ∀ handler ∈ inbox.handlers, ∀ row, handler.recorded = some row →
      Holds handler.incoming row := by
  refine ⟨run_invariant (fun _ _ _ => conserved_step) (conserved_initial start) reached,
    fun handler member row recorded => ?_⟩
  have sound := run_invariant
    (fun _ _ _ sound stepped => (Sound.step sound stepped).sound)
    (sound_initial start) reached
  have accounted := (sound.handlers handler member).accounted
  rcases handler with ⟨incoming, phase⟩
  cases phase with
  | finished row =>
    cases recorded
    exact accounted.2
  | _ => cases recorded

def twoSendersRun : List Event :=
  [.receive ⟨"alice", "hello", none, none⟩,
    .receive ⟨"bob", "hi", none, none⟩,
    .handle 0 1 none, .handle 1 1 none, .handle 0 2 none, .handle 1 2 none, .handle 0 3 none,
    .handle 1 3 none, .handle 0 4 none, .handle 1 4 none, .handle 0 5 none, .handle 1 5 none]

theorem delivered_of_insertsOnlyMissing_twoSenders :
    ∃ inbox, run (step .standard "/files") (initial .empty) twoSendersRun = some inbox ∧
      (∀ handler ∈ inbox.handlers, handler.phase.Ended) ∧ Delivered .empty inbox := by
  obtain ⟨inbox, reached, ended⟩ : ∃ inbox,
      run (step .standard "/files") (initial .empty) twoSendersRun = some inbox ∧
        ∀ handler ∈ inbox.handlers, handler.phase.Ended := ⟨_, rfl, by decide⟩
  have allowed : Meets (step .standard "/files") InsertsOnlyMissing (initial .empty)
      twoSendersRun := by decide
  exact ⟨inbox, reached, ended, delivered_of_insertsOnlyMissing _ _ _ _ _ allowed reached⟩

/-- Two first messages of one sender: the second handler replaces the thread that the first one
has just read. -/
def replacedThreadRun : List Event :=
  [.receive ⟨"alice", "hello", none, none⟩,
    .receive ⟨"alice", "are you there?", none, none⟩,
    .handle 0 1 none, .handle 0 1 none, .handle 1 1 none, .handle 1 1 none, .handle 0 2 none,
    .handle 0 2 none, .handle 1 3 none, .handle 0 4 none, .handle 1 4 none, .handle 1 5 none]

/-- The first message gets no row. -/
theorem replaced_thread_not_delivered :
    ∃ inbox, run (step .standard "/files") (initial .empty) replacedThreadRun =
        some inbox ∧
      (∀ handler ∈ inbox.handlers, handler.phase.Ended) ∧ ¬Delivered .empty inbox := by
  refine ⟨_, rfl, by decide, fun delivered => ?_⟩
  rcases (delivered (by decide)).2 _ List.mem_cons_self (by decide) with ⟨row, recorded, _⟩
  have refused : (none : Option MessageEntity) = some row := recorded
  cases refused

theorem stored_at_most_once_replaced :
    ∃ inbox, run (step .standard "/files") (initial .empty) replacedThreadRun =
      some inbox ∧ Conserved .empty inbox := by
  have reached : run (step .standard "/files") (initial .empty) replacedThreadRun =
      some _ := rfl
  exact ⟨_, reached, (stored_at_most_once reached).1⟩

end Inbox

end LegacySignal
