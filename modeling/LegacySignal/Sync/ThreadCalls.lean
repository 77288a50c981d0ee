import LegacySignal.Sync.Inbox

/-!
# The calls that write a thread

A coroutine that writes the row of a thread has read it in an earlier call. Ids are not given
twice, so what it has read tells it at most that its thread has been replaced since.
-/

namespace LegacySignal

inductive ThreadCall where
  | update (thread : ThreadEntity)
  | insert (thread : ThreadEntity)
deriving DecidableEq, Repr

namespace Database

/-- A call that throws changes nothing. -/
def callThread (db : Database) : ThreadCall → Database
  | .update thread =>
    match db.updateThread thread with
    | .error _ => db
    | .ok after => after
  | .insert thread =>
    match db.insertThread thread with
    | .error _ => db
    | .ok (_, after) => after

def written (db : Database) (recipientNumber : String) : ThreadCall → Option ThreadEntity
  | .update thread =>
    if (db.getThreadByRecipient recipientNumber).any (·.id = thread.id) then some thread
    else none
  | .insert thread =>
    if thread.recipientNumber = recipientNumber ∧ ¬db.Referenced thread.recipientNumber then
      some { thread with id := db.threadSequence + 1 }
    else none

/-- A row that was read: its id is not given again, and a row that still has it has the same
recipient. -/
structure Held (db : Database) (thread : ThreadEntity) : Prop where
  id_le : thread.id ≤ db.threadSequence
  recipientNumber : ∀ row ∈ db.threads, row.id = thread.id →
    row.recipientNumber = thread.recipientNumber

/-- Only rows that were read are updated. -/
def Valid (db : Database) : ThreadCall → Prop
  | .update thread => db.Held thread
  | .insert _ => True

def afterCall (db : Database) (call : Option ThreadCall) : Database :=
  match call with
  | none => db
  | some call => db.callThread call

/-- The id of the thread that a recipient has now. -/
def threadId (db : Database) (recipientNumber : String) : Option ℕ :=
  (db.getThreadByRecipient recipientNumber).map (·.id)

/-- The call is an insertion that gives the recipient a new thread. -/
def Replaces (db : Database) (recipientNumber : String) : ThreadCall → Prop
  | .update _ => False
  | .insert thread => thread.recipientNumber = recipientNumber ∧ ¬db.Referenced recipientNumber

/-- Two databases with the same threads, now and in time to come. -/
structure SameThreads (db other : Database) : Prop where
  threads : db.threads = other.threads
  threadSequence : db.threadSequence = other.threadSequence

variable {db other after : Database} {thread : ThreadEntity} {call : ThreadCall}
  {calls : Option ThreadCall}

theorem held_of_mem (inThreads : thread ∈ db.threads) :
    db.Held thread where
  id_le := db.threads_id_le thread inThreads
  recipientNumber row member same := by
    rw [KeyedRows.eq_of_key_eq db.threads_id_nodup member inThreads same]

theorem getThreadById_mem {id : ℕ} (found : db.getThreadById id = some thread) :
    thread ∈ db.threads :=
  List.mem_of_find?_eq_some found

theorem getThreadByRecipient_eq_some_iff {recipientNumber : String} :
    db.getThreadByRecipient recipientNumber = some thread ↔
      thread ∈ db.threads ∧ thread.recipientNumber = recipientNumber := by
  refine ⟨getThreadByRecipient_some, ?_⟩
  rintro ⟨inThreads, rfl⟩
  exact KeyedRows.find?_key db.recipientNumber_nodup inThreads

theorem Held.updateThread (held : db.Held thread) :
    ∃ after, db.updateThread thread = .ok after ∧
      after.threads = db.threads.map (updateRow thread) ∧
      after.threadSequence = db.threadSequence := by
  have free : ¬db.UpdateConflicts thread := by
    rintro ⟨⟨own, ownMember, ownId⟩, row, member, different, same⟩
    refine different (Eq.trans ?_ ownId)
    rw [KeyedRows.eq_of_key_eq db.recipientNumber_nodup member ownMember
      (same.trans (held.recipientNumber own ownMember ownId).symm)]
  rw [Database.updateThread, dif_neg free]
  exact ⟨_, rfl, rfl, rfl⟩

theorem updateRow_recipientNumber {row : ThreadEntity} (held : db.Held thread)
    (member : row ∈ db.threads) :
    (updateRow thread row).recipientNumber = row.recipientNumber := by
  unfold updateRow
  split
  · rename_i same
    exact (held.recipientNumber row member same).symm
  · rfl

theorem insertThread_cases (db : Database) (thread : ThreadEntity) :
    db.Referenced thread.recipientNumber ∧ db.callThread (.insert thread) = db ∨
      ¬db.Referenced thread.recipientNumber ∧
        (db.callThread (.insert thread)).threads =
          db.threads.filter (fun row => row.recipientNumber ≠ thread.recipientNumber) ++
            [{ thread with id := db.threadSequence + 1 }] ∧
        (db.callThread (.insert thread)).threadSequence = db.threadSequence + 1 := by
  by_cases referenced : db.Referenced thread.recipientNumber
  · simp [callThread, insertThread, referenced]
  · refine .inr ⟨referenced, ?_⟩
    simp [callThread, insertThread, referenced]

theorem getThreadByRecipient_callThread (valid : db.Valid call) (recipientNumber : String) :
    (db.callThread call).getThreadByRecipient recipientNumber =
      (db.written recipientNumber call).or (db.getThreadByRecipient recipientNumber) := by
  cases call with
  | update thread =>
    obtain ⟨after, updated, threads, _⟩ := Held.updateThread valid
    simp only [callThread, updated]
    cases found : db.getThreadByRecipient recipientNumber with
    | none =>
      have missing : ∀ row ∈ db.threads, row.recipientNumber ≠ recipientNumber := by
        simpa [getThreadByRecipient] using found
      have absent : after.getThreadByRecipient recipientNumber = none := by
        simp only [getThreadByRecipient, threads, List.find?_eq_none, List.mem_map]
        rintro _ ⟨row, member, rfl⟩
        simpa [updateRow_recipientNumber valid member] using missing row member
      simp [written, found, absent]
    | some row =>
      obtain ⟨member, same⟩ := getThreadByRecipient_some found
      have now : after.getThreadByRecipient recipientNumber = some (updateRow thread row) := by
        rw [getThreadByRecipient_eq_some_iff, threads,
          updateRow_recipientNumber valid member]
        exact ⟨List.mem_map_of_mem member, same⟩
      rw [now, written, found]
      simp only [updateRow, Option.any_some, decide_eq_true_eq]
      split <;> rfl
  | insert thread =>
    rcases db.insertThread_cases thread with ⟨referenced, same⟩ | ⟨free, threads, _⟩
    · simp [same, written, referenced]
    · by_cases own : thread.recipientNumber = recipientNumber
      · rw [written, if_pos ⟨own, free⟩, Option.some_or, getThreadByRecipient_eq_some_iff,
          threads]
        exact ⟨List.mem_append_right _ List.mem_cons_self, own⟩
      · have keeps : ∀ row : ThreadEntity, (row.recipientNumber ≠ thread.recipientNumber ∧
            row.recipientNumber = recipientNumber) ↔ row.recipientNumber = recipientNumber :=
          fun row => ⟨And.right, fun same => ⟨fun equal => own (equal.symm.trans same), same⟩⟩
        rw [written, if_neg fun both => own both.1, Option.none_or]
        simp only [getThreadByRecipient, threads, List.find?_append, List.find?_filter,
          decide_eq_true_eq, keeps]
        simp [own]

theorem Held.callThread (held : db.Held thread) (valid : db.Valid call) :
    (db.callThread call).Held thread := by
  cases call with
  | update other =>
    obtain ⟨after, updated, threads, sequence⟩ := Held.updateThread valid
    simp only [Database.callThread, updated]
    refine ⟨sequence ▸ held.id_le, ?_⟩
    rw [threads]
    intro row member same
    obtain ⟨old, inThreads, rfl⟩ := List.mem_map.mp member
    rw [updateRow_id] at same
    rw [updateRow_recipientNumber valid inThreads]
    exact held.recipientNumber old inThreads same
  | insert other =>
    rcases db.insertThread_cases other with ⟨_, same⟩ | ⟨_, threads, sequence⟩
    · rwa [same]
    · have id_le := held.id_le
      refine ⟨by omega, ?_⟩
      rw [threads]
      intro row member same
      rcases List.mem_append.mp member with old | new
      · exact held.recipientNumber row (List.mem_filter.mp old).1 same
      · obtain rfl := List.mem_singleton.mp new
        dsimp only at same
        omega

theorem SameThreads.refl (db : Database) : db.SameThreads db := ⟨rfl, rfl⟩

theorem SameThreads.getThreadByRecipient (same : db.SameThreads other) (recipientNumber : String) :
    db.getThreadByRecipient recipientNumber = other.getThreadByRecipient recipientNumber := by
  rw [Database.getThreadByRecipient, same.threads]
  rfl

theorem insertMessage_sameThreads {message : MessageEntity} {result : Option ℕ}
    (inserted : db.insertMessage message = (result, after)) :
    after.SameThreads db := by
  unfold insertMessage at inserted
  split at inserted <;> cases inserted <;> exact ⟨rfl, rfl⟩

theorem saveContactAvatar_sameThreads (db : Database) (uuid avatarPath : String) :
    (db.saveContactAvatar uuid avatarPath).SameThreads db := by
  unfold saveContactAvatar
  split <;> exact ⟨rfl, rfl⟩

theorem Held.afterCall (held : db.Held thread) (valid : ∀ call ∈ calls, db.Valid call)
    (same : after.SameThreads (db.afterCall calls)) : after.Held thread := by
  have kept : (db.afterCall calls).Held thread := by
    cases calls with
    | none => exact held
    | some call => exact held.callThread (valid call rfl)
  exact ⟨same.threadSequence ▸ kept.id_le, same.threads ▸ kept.recipientNumber⟩

theorem threadId_callThread (valid : db.Valid call) (recipientNumber : String) :
    (db.Replaces recipientNumber call →
      (db.callThread call).threadId recipientNumber = some (db.threadSequence + 1)) ∧
    (¬db.Replaces recipientNumber call →
      (db.callThread call).threadId recipientNumber = db.threadId recipientNumber) := by
  have written := getThreadByRecipient_callThread valid recipientNumber
  unfold threadId
  rw [written]
  cases call with
  | update thread =>
    refine ⟨False.elim, fun _ => ?_⟩
    cases found : db.getThreadByRecipient recipientNumber with
    | none => simp [Database.written, found]
    | some row =>
      by_cases same : row.id = thread.id
      · simp [Database.written, found, same]
      · simp [Database.written, found, same]
  | insert thread =>
    refine ⟨?_, fun other => ?_⟩
    · rintro ⟨rfl, free⟩
      simp [Database.written, free]
    · have kept : ¬(thread.recipientNumber = recipientNumber ∧
          ¬db.Referenced thread.recipientNumber) := by
        rintro ⟨rfl, free⟩
        exact other ⟨rfl, free⟩
      rw [Database.written, if_neg kept, Option.none_or]

theorem threadId_afterCall (valid : ∀ call ∈ calls, db.Valid call)
    (same : after.SameThreads (db.afterCall calls)) (recipientNumber : String) :
    ((∃ call ∈ calls, db.Replaces recipientNumber call) ∧
        after.threadId recipientNumber = some (db.threadSequence + 1)) ∨
      ((¬∃ call ∈ calls, db.Replaces recipientNumber call) ∧
        after.threadId recipientNumber = db.threadId recipientNumber) := by
  have sameId : after.threadId recipientNumber = (db.afterCall calls).threadId recipientNumber := by
    rw [threadId, same.getThreadByRecipient, threadId]
  rw [sameId]
  cases calls with
  | none => exact .inr ⟨by simp, rfl⟩
  | some call =>
    have after := threadId_callThread (valid call rfl) recipientNumber
    by_cases replaces : db.Replaces recipientNumber call
    · exact .inl ⟨⟨call, rfl, replaces⟩, after.1 replaces⟩
    · refine .inr ⟨?_, after.2 replaces⟩
      rintro ⟨known, ⟨⟩, isReplaced⟩
      exact replaces isReplaced

theorem Replaces.free {recipientNumber : String} (replaces : db.Replaces recipientNumber call) :
    ¬db.Referenced recipientNumber := by
  cases call with
  | update thread => exact replaces.elim
  | insert thread => exact replaces.2

theorem referenced_iff {recipientNumber : String} :
    db.Referenced recipientNumber ↔ ∃ id, db.threadId recipientNumber = some id ∧
      ∃ message ∈ db.messages, message.threadId = id := by
  simp only [Referenced, threadId, Option.map_eq_some_iff, getThreadByRecipient_eq_some_iff]
  grind

/-- A row that was read is in the table as long as it is the thread of its recipient. -/
theorem Held.exists_id_iff (held : db.Held thread) :
    (∃ row ∈ db.threads, row.id = thread.id) ↔
      db.threadId thread.recipientNumber = some thread.id := by
  simp only [threadId, Option.map_eq_some_iff, getThreadByRecipient_eq_some_iff]
  constructor
  · rintro ⟨row, inThreads, same⟩
    exact ⟨row, ⟨inThreads, held.recipientNumber row inThreads same⟩, same⟩
  · rintro ⟨row, ⟨inThreads, _⟩, same⟩
    exact ⟨row, inThreads, same⟩

end Database

/-- The row that a handler holds. -/
@[simp]
def HandlerPhase.row : HandlerPhase → Option ThreadEntity
  | .updateThread _ thread => some thread
  | .insertMessage thread => thread
  | _ => none

@[simp]
def HandlerPhase.Inserts : HandlerPhase → Prop
  | .insertThread _ => True
  | _ => False

namespace Handler

/-- The next call, when it writes a thread. -/
def threadCall (now : ℤ) (handler : Handler) : Option ThreadCall :=
  match handler.phase with
  | .insertThread name =>
    some (.insert { recipientNumber := handler.incoming.senderId, name, timestamp := now
                    lastMessageSnippet := handler.incoming.messageSnippet })
  | .updateThread name thread =>
    some (.update { thread with
      name, timestamp := now, lastMessageSnippet := handler.incoming.messageSnippet })
  | _ => none

theorem advance_sameThreads (db : Database) (now : ℤ) (handler : Handler) :
    (handler.advance db now).db.SameThreads (db.afterCall (handler.threadCall now)) := by
  rcases handler with ⟨incoming, phase⟩
  cases phase with
  | contactName | getThread =>
    simp only [advance]
    split <;> exact .refl db
  | insertThread name =>
    simp only [advance, threadCall, Database.afterCall, Database.callThread]
    cases db.insertThread _ <;> exact .refl _
  | updateThread name thread =>
    simp only [advance, threadCall, Database.afterCall, Database.callThread]
    cases db.updateThread _ <;> exact .refl _
  | insertMessage thread =>
    cases thread with
    | none => exact .refl db
    | some thread =>
      simp only [advance]
      split <;> exact Database.insertMessage_sameThreads ‹_›
  | _ => exact .refl db

theorem valid_threadCall {db : Database} {handler : Handler}
    (heldRows : ∀ thread ∈ handler.phase.row, db.Held thread) (now : ℤ) :
    ∀ call ∈ handler.threadCall now, db.Valid call := by
  rcases handler with ⟨incoming, phase⟩
  intro call called
  cases phase with
  | insertThread name =>
    cases called
    trivial
  | updateThread name thread =>
    cases called
    have read := heldRows thread rfl
    exact ⟨read.id_le, read.recipientNumber⟩
  | _ => cases called

end Handler

namespace Fetch

def threadCall (fetch : Fetch) : Option ThreadCall :=
  match fetch.phase with
  | .updateThread thread => some (.update { thread with name := fetch.response.name })
  | _ => none

def held (fetch : Fetch) : Option ThreadEntity :=
  match fetch.phase with
  | .updateThread thread => some thread
  | _ => none

variable {fetch : Fetch} {db : Database}

theorem held_eq_none_of_ne (other : ∀ thread, fetch.phase ≠ .updateThread thread) :
    fetch.held = none := by
  rcases fetch with ⟨senderId, profileKey, response, phase⟩
  cases phase with
  | updateThread thread => exact absurd rfl (other thread)
  | _ => rfl

theorem advance_sameThreads (base64 : Base64) (filesDir : String) (db : Database)
    (fetch : Fetch) :
    (fetch.advance base64 filesDir db).1.SameThreads (db.afterCall fetch.threadCall) := by
  rcases fetch with ⟨senderId, profileKey, response, phase⟩
  cases phase with
  | saveContact => exact ⟨rfl, rfl⟩
  | getThread =>
    simp only [advance]
    split <;> exact .refl db
  | updateThread thread =>
    simp only [advance, threadCall, Database.afterCall, Database.callThread]
    cases db.updateThread _ <;> exact .refl _
  | saveAvatar => exact db.saveContactAvatar_sameThreads _ _
  | done => exact .refl db

theorem advance_held {base64 : Base64} {filesDir : String} {thread : ThreadEntity}
    (holds : ({ fetch with phase := (fetch.advance base64 filesDir db).2.1 } : Fetch).held =
      some thread) :
    (fetch.advance base64 filesDir db).1 = db ∧ thread ∈ db.threads := by
  have none_of : ∀ phase : FetchPhase, (∀ thread, phase ≠ .updateThread thread) →
      ({ fetch with phase } : Fetch).held = none := fun phase other => held_eq_none_of_ne other
  rcases fetch with ⟨senderId, profileKey, response, phase⟩
  cases phase with
  | saveContact =>
    simp only [advance] at holds
    rw [none_of _ fun thread => afterContact_ne_updateThread _ thread] at holds
    cases holds
  | getThread =>
    cases found : db.getThreadByRecipient senderId with
    | none =>
      simp only [advance, found] at holds
      rw [none_of _ fun thread => afterName_ne_updateThread _ thread] at holds
      cases holds
    | some row =>
      simp only [advance, found, held, Option.some.injEq] at holds ⊢
      exact ⟨trivial, holds ▸ (Database.getThreadByRecipient_some found).1⟩
  | updateThread row =>
    simp only [advance] at holds
    split at holds
    · cases holds
    · rw [none_of _ fun thread => afterName_ne_updateThread _ thread] at holds
      cases holds
  | saveAvatar => cases holds
  | done => cases holds

theorem valid_threadCall (heldRows : ∀ thread ∈ fetch.held, db.Held thread) :
    ∀ call ∈ fetch.threadCall, db.Valid call := by
  rcases fetch with ⟨senderId, profileKey, response, phase⟩
  intro call called
  cases phase with
  | updateThread thread =>
    cases called
    have read := heldRows thread rfl
    exact ⟨read.id_le, read.recipientNumber⟩
  | _ => cases called

end Fetch

theorem Inbox.launched_held {incoming : Incoming} {fetches : Bool}
    {response : Option ProfileResponse} :
    ∀ fetch ∈ launched incoming fetches response, fetch.held = none := by
  intro fetch member
  unfold launched at member
  split at member
  · obtain ⟨_, _, same⟩ := fetchAndSaveProfile_some (Option.mem_toList.mp member)
    rw [same]
    rfl
  · exact absurd member List.not_mem_nil

end LegacySignal
