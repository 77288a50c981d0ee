import LegacySignal.Library.KeyedRows

/-!
# The local database

The tables `threads`, `messages` and `contacts` of `DatabaseHelper`, with the
calls the app makes on them. A `Database` carries what SQLite enforces about
its rows: the primary keys, the uniqueness of `recipientNumber`, the foreign
key from messages to threads, and `AUTOINCREMENT`, by which an id is never
given twice.

A call that violates a constraint leaves the tables unchanged.
`insertWithOnConflict` and `update` then throw, while `insert` logs the
exception and returns `-1`.
-/

namespace LegacySignal

open List

/-- A row of `threads`; `id` is `0` in a value that was not read from the table. -/
structure ThreadEntity where
  id : ℕ := 0
  recipientNumber : String
  name : Option String := none
  lastMessageSnippet : String := ""
  timestamp : ℤ := 0
  unreadCount : ℤ := 0
deriving DecidableEq, Repr

/-- A row of `messages`; `id` is `0` in a value that was not read from the table. -/
structure MessageEntity where
  id : ℕ := 0
  threadId : ℕ
  senderId : String
  body : String
  timestamp : ℤ
  isOutgoing : Bool
  imagePath : Option String := none
deriving DecidableEq, Repr

/-- A row of `contacts`. -/
structure Contact where
  uuid : String
  name : Option String := none
  about : Option String := none
  profileKey : Option String := none
  avatarPath : Option String := none
deriving DecidableEq, Repr

/-- The exception that `insertWithOnConflict` and `update` throw. -/
inductive SQLiteConstraintException where
  | foreignKey
  | unique
deriving DecidableEq, Repr

structure Database where
  threads : List ThreadEntity
  messages : List MessageEntity
  contacts : List Contact
  /-- The largest id ever given to a thread, as in `sqlite_sequence`. -/
  threadSequence : ℕ
  /-- The largest id ever given to a message. -/
  messageSequence : ℕ
  threads_id_le : ∀ thread ∈ threads, thread.id ≤ threadSequence
  threads_id_nodup : (threads.map (·.id)).Nodup
  recipientNumber_nodup : (threads.map (·.recipientNumber)).Nodup
  messages_id_le : ∀ message ∈ messages, message.id ≤ messageSequence
  messages_id_nodup : (messages.map (·.id)).Nodup
  foreign_key : ∀ message ∈ messages, ∃ thread ∈ threads, thread.id = message.threadId
  uuid_nodup : (contacts.map (·.uuid)).Nodup

namespace Database

open KeyedRows

def empty : Database where
  threads := []
  messages := []
  contacts := []
  threadSequence := 0
  messageSequence := 0
  threads_id_le := by simp
  threads_id_nodup := by simp
  recipientNumber_nodup := by simp
  messages_id_le := by simp
  messages_id_nodup := by simp
  foreign_key := by simp
  uuid_nodup := by simp

def getThreadByRecipient (db : Database) (recipientNumber : String) : Option ThreadEntity :=
  db.threads.find? fun thread => thread.recipientNumber = recipientNumber

def getThreadById (db : Database) (id : ℕ) : Option ThreadEntity :=
  db.threads.find? fun thread => thread.id = id

/-- Some message refers to a thread of this recipient, so that the row cannot be deleted. -/
def Referenced (db : Database) (recipientNumber : String) : Prop :=
  ∃ thread ∈ db.threads, thread.recipientNumber = recipientNumber ∧
    ∃ message ∈ db.messages, message.threadId = thread.id

instance (db : Database) (recipientNumber : String) :
    Decidable (db.Referenced recipientNumber) :=
  inferInstanceAs (Decidable (∃ thread ∈ db.threads, thread.recipientNumber = recipientNumber ∧
    ∃ message ∈ db.messages, message.threadId = thread.id))

/-- With `CONFLICT_REPLACE` the row of the same recipient is deleted and the new row gets a
new id; the deletion fails while a message refers to the old row. -/
def insertThread (db : Database) (thread : ThreadEntity) :
    Except SQLiteConstraintException (ℕ × Database) :=
  if unreferenced : db.Referenced thread.recipientNumber then .error .foreignKey
  else
    let id := db.threadSequence + 1
    .ok (id, { db with
      threads := db.threads.filter (fun row => row.recipientNumber ≠ thread.recipientNumber) ++
        [{ thread with id := id }]
      threadSequence := id
      threads_id_le := by
        intro row member
        simp only [mem_append, mem_filter, mem_singleton] at member
        rcases member with ⟨old, _⟩ | rfl
        · have := db.threads_id_le row old
          omega
        · exact Nat.le_refl _
      threads_id_nodup := by
        refine nodup_map_append_singleton (nodup_map_filter _ db.threads_id_nodup) ?_
        intro row member
        have := db.threads_id_le row (mem_filter.mp member).1
        show row.id ≠ db.threadSequence + 1
        omega
      recipientNumber_nodup := by
        refine nodup_map_append_singleton (nodup_map_filter _ db.recipientNumber_nodup) ?_
        intro row member
        simpa using (mem_filter.mp member).2
      foreign_key := by
        intro message member
        rcases db.foreign_key message member with ⟨row, inThreads, same⟩
        refine ⟨row, mem_append_left _ (mem_filter.mpr ⟨inThreads, ?_⟩), same⟩
        refine decide_eq_true fun sameRecipient => unreferenced ?_
        exact ⟨row, inThreads, sameRecipient, message, member, same.symm⟩ })

/-- Another row already has the recipient that the update would write. -/
def UpdateConflicts (db : Database) (thread : ThreadEntity) : Prop :=
  (∃ row ∈ db.threads, row.id = thread.id) ∧
    ∃ row ∈ db.threads, row.id ≠ thread.id ∧ row.recipientNumber = thread.recipientNumber

instance (db : Database) (thread : ThreadEntity) : Decidable (db.UpdateConflicts thread) :=
  inferInstanceAs (Decidable ((∃ row ∈ db.threads, row.id = thread.id) ∧
    ∃ row ∈ db.threads, row.id ≠ thread.id ∧ row.recipientNumber = thread.recipientNumber))

def updateRow (thread row : ThreadEntity) : ThreadEntity :=
  if row.id = thread.id then thread else row

@[simp]
theorem updateRow_id (thread row : ThreadEntity) : (updateRow thread row).id = row.id := by
  unfold updateRow
  split
  · rename_i same
    exact same.symm
  · rfl

variable {db : Database} {thread : ThreadEntity} {after : Database} {id : ℕ}
  {message : MessageEntity} {recipientNumber uuid : String}

theorem updateRow_recipientNumber_nodup (free : ¬db.UpdateConflicts thread) :
    ((db.threads.map (updateRow thread)).map (·.recipientNumber)).Nodup := by
  by_cases present : ∃ row ∈ db.threads, row.id = thread.id
  · rw [map_map]
    refine Nodup.map_on ?_ (Nodup.of_map _ db.threads_id_nodup)
    intro row member other otherMember same
    have others : ∀ row ∈ db.threads, row.id ≠ thread.id →
        row.recipientNumber ≠ thread.recipientNumber :=
      fun row member different equal => free ⟨present, row, member, different, equal⟩
    simp only [Function.comp_apply, updateRow] at same
    split at same <;> split at same
    · rename_i own otherOwn
      exact eq_of_key_eq db.threads_id_nodup member otherMember (own.trans otherOwn.symm)
    · rename_i _ different
      exact absurd same.symm (others other otherMember different)
    · rename_i different _
      exact absurd same (others row member different)
    · exact eq_of_key_eq db.recipientNumber_nodup member otherMember same
  · have unchanged : db.threads.map (updateRow thread) = db.threads := by
      refine (map_congr_left fun row member => ?_).trans (map_id _)
      exact if_neg fun same => present ⟨row, member, same⟩
    rw [unchanged]
    exact db.recipientNumber_nodup

def updateThread (db : Database) (thread : ThreadEntity) :
    Except SQLiteConstraintException Database :=
  if conflict : db.UpdateConflicts thread then .error .unique
  else
    .ok { db with
      threads := db.threads.map (updateRow thread)
      threads_id_le := by
        intro row member
        rcases mem_map.mp member with ⟨old, inThreads, rfl⟩
        rw [updateRow_id]
        exact db.threads_id_le old inThreads
      threads_id_nodup := by
        rw [map_key_map (updateRow_id thread)]
        exact db.threads_id_nodup
      recipientNumber_nodup := updateRow_recipientNumber_nodup conflict
      foreign_key := by
        intro message member
        rcases db.foreign_key message member with ⟨row, inThreads, same⟩
        exact ⟨updateRow thread row, mem_map_of_mem inThreads, by rw [updateRow_id, same]⟩ }

def snippetRow (id : ℕ) (snippet : String) (timestamp : ℤ) (row : ThreadEntity) : ThreadEntity :=
  if row.id = id then { row with lastMessageSnippet := snippet, timestamp := timestamp } else row

@[simp]
theorem snippetRow_id (id : ℕ) (snippet : String) (timestamp : ℤ) (row : ThreadEntity) :
    (snippetRow id snippet timestamp row).id = row.id := by
  unfold snippetRow
  split <;> rfl

@[simp]
theorem snippetRow_recipientNumber (id : ℕ) (snippet : String) (timestamp : ℤ)
    (row : ThreadEntity) :
    (snippetRow id snippet timestamp row).recipientNumber = row.recipientNumber := by
  unfold snippetRow
  split <;> rfl

def updateSnippet (db : Database) (id : ℕ) (snippet : String) (timestamp : ℤ) : Database :=
  { db with
    threads := db.threads.map (snippetRow id snippet timestamp)
    threads_id_le := by
      intro row member
      rcases mem_map.mp member with ⟨old, inThreads, rfl⟩
      rw [snippetRow_id]
      exact db.threads_id_le old inThreads
    threads_id_nodup := by
      rw [map_key_map (snippetRow_id id snippet timestamp)]
      exact db.threads_id_nodup
    recipientNumber_nodup := by
      rw [map_key_map (snippetRow_recipientNumber id snippet timestamp)]
      exact db.recipientNumber_nodup
    foreign_key := by
      intro message member
      rcases db.foreign_key message member with ⟨row, inThreads, same⟩
      refine ⟨snippetRow id snippet timestamp row, mem_map_of_mem inThreads, ?_⟩
      rw [snippetRow_id, same] }

def queryAllThreads (db : Database) : List ThreadEntity :=
  db.threads.mergeSort fun thread other => other.timestamp ≤ thread.timestamp

/-- `none` is the result `-1` of a refused insertion. -/
def insertMessage (db : Database) (message : MessageEntity) : Option ℕ × Database :=
  if present : ∃ thread ∈ db.threads, thread.id = message.threadId then
    let id := db.messageSequence + 1
    (some id, { db with
      messages := db.messages ++ [{ message with id := id }]
      messageSequence := id
      messages_id_le := by
        intro row member
        simp only [mem_append, mem_singleton] at member
        rcases member with old | rfl
        · have := db.messages_id_le row old
          omega
        · exact Nat.le_refl _
      messages_id_nodup := by
        refine nodup_map_append_singleton db.messages_id_nodup ?_
        intro row member
        have := db.messages_id_le row member
        show row.id ≠ db.messageSequence + 1
        omega
      foreign_key := by
        intro row member
        simp only [mem_append, mem_singleton] at member
        rcases member with old | rfl
        · exact db.foreign_key row old
        · exact present })
  else (none, db)

def deleteMessage (db : Database) (id : ℕ) : Database :=
  { db with
    messages := db.messages.filter fun message => message.id ≠ id
    messages_id_le := by
      intro message member
      exact db.messages_id_le message (mem_filter.mp member).1
    messages_id_nodup := nodup_map_filter _ db.messages_id_nodup
    foreign_key := by
      intro message member
      exact db.foreign_key message (mem_filter.mp member).1 }

def queryMessagesForThread (db : Database) (threadId : ℕ) : List MessageEntity :=
  (db.messages.filter fun message => message.threadId = threadId).mergeSort
    fun message other => message.timestamp ≤ other.timestamp

def findContact (db : Database) (uuid : String) : Option Contact :=
  db.contacts.find? fun contact => contact.uuid = uuid

def getContactName (db : Database) (uuid : String) : Option String :=
  (db.findContact uuid).bind (·.name)

def getContactAvatar (db : Database) (uuid : String) : Option String :=
  (db.findContact uuid).bind (·.avatarPath)

def getContactProfileKey (db : Database) (uuid : String) : Option String :=
  (db.findContact uuid).bind (·.profileKey)

/-- With `CONFLICT_REPLACE` the old row of the contact is deleted, so a column that gets no
value here becomes null. -/
def saveContact (db : Database) (contact : Contact) : Database :=
  { db with
    contacts := db.contacts.filter (fun row => row.uuid ≠ contact.uuid) ++ [contact]
    uuid_nodup := by
      refine nodup_map_append_singleton (nodup_map_filter _ db.uuid_nodup) ?_
      intro row member
      simpa using (mem_filter.mp member).2 }

def avatarRow (uuid avatarPath : String) (row : Contact) : Contact :=
  if row.uuid = uuid then { row with avatarPath := some avatarPath } else row

@[simp]
theorem avatarRow_uuid (uuid avatarPath : String) (row : Contact) :
    (avatarRow uuid avatarPath row).uuid = row.uuid := by
  unfold avatarRow
  split <;> rfl

/-- The update comes first; the row is inserted when it touched none. -/
def saveContactAvatar (db : Database) (uuid avatarPath : String) : Database :=
  if missing : ∀ row ∈ db.contacts, row.uuid ≠ uuid then
    { db with
      contacts := db.contacts ++ [{ uuid := uuid, avatarPath := some avatarPath }]
      uuid_nodup := nodup_map_append_singleton db.uuid_nodup missing }
  else
    { db with
      contacts := db.contacts.map (avatarRow uuid avatarPath)
      uuid_nodup := by
        rw [map_key_map (avatarRow_uuid uuid avatarPath)]
        exact db.uuid_nodup }

theorem insertThread_messages (inserted : db.insertThread thread = .ok (id, after)) :
    after.messages = db.messages := by
  unfold insertThread at inserted
  split at inserted
  · cases inserted
  · cases inserted
    rfl

theorem updateThread_messages (updated : db.updateThread thread = .ok after) :
    after.messages = db.messages := by
  unfold updateThread at updated
  split at updated
  · cases updated
  · cases updated
    rfl

theorem insertMessage_messages {result : Option ℕ}
    (inserted : db.insertMessage message = (result, after)) :
    after.messages = db.messages ++ (result.map fun id => { message with id }).toList := by
  unfold insertMessage at inserted
  split at inserted
  · cases inserted
    rfl
  · cases inserted
    simp

@[simp]
theorem saveContactAvatar_messages (db : Database) (uuid avatarPath : String) :
    (db.saveContactAvatar uuid avatarPath).messages = db.messages := by
  unfold saveContactAvatar
  split <;> rfl

def HasThread (db : Database) (recipientNumber : String) (id : ℕ) : Prop :=
  ∃ thread ∈ db.threads, thread.recipientNumber = recipientNumber ∧ thread.id = id

theorem getThreadByRecipient_some (found : db.getThreadByRecipient recipientNumber = some thread) :
    thread ∈ db.threads ∧ thread.recipientNumber = recipientNumber :=
  ⟨mem_of_find?_eq_some found, by simpa using find?_some found⟩

theorem HasThread.getThreadByRecipient_isSome (has : db.HasThread recipientNumber id) :
    ∃ thread, db.getThreadByRecipient recipientNumber = some thread := by
  rcases has with ⟨thread, inThreads, rfl, rfl⟩
  exact ⟨thread, find?_key db.recipientNumber_nodup inThreads⟩

theorem HasThread.id_unique {id other : ℕ} (has : db.HasThread recipientNumber id)
    (otherHas : db.HasThread recipientNumber other) :
    id = other := by
  rcases has with ⟨thread, inThreads, same, rfl⟩
  rcases otherHas with ⟨row, rowInThreads, rowSame, rfl⟩
  rw [eq_of_key_eq db.recipientNumber_nodup inThreads rowInThreads (same.trans rowSame.symm)]

/-- Threads keep their recipients and ids; new ones may come. -/
def Grows (before after : Database) : Prop :=
  ∀ recipientNumber id, before.HasThread recipientNumber id → after.HasThread recipientNumber id

theorem updateThread_of_hasThread (own : db.HasThread thread.recipientNumber thread.id) :
    ∃ after, db.updateThread thread = .ok after ∧ db.Grows after := by
  have free : ¬db.UpdateConflicts thread := by
    rintro ⟨_, row, inThreads, different, same⟩
    exact different (HasThread.id_unique ⟨row, inThreads, same, rfl⟩ own)
  unfold updateThread
  rw [dif_neg free]
  refine ⟨_, rfl, ?_⟩
  rintro recipientNumber id ⟨row, inThreads, same, sameId⟩
  refine ⟨updateRow thread row, mem_map_of_mem inThreads, ?_, by rw [updateRow_id, sameId]⟩
  rcases own with ⟨ownRow, ownInThreads, ownSame, ownId⟩
  unfold updateRow
  split
  · rename_i isOwn
    have := eq_of_key_eq db.threads_id_nodup inThreads ownInThreads (isOwn.trans ownId.symm)
    rw [← same, this, ownSame]
  · exact same

theorem saveContactAvatar_grows (db : Database) (uuid avatarPath : String) :
    db.Grows (db.saveContactAvatar uuid avatarPath) := by
  unfold saveContactAvatar
  split <;> exact fun _ _ has => has

@[simp]
theorem findContact_saveContact_self (db : Database) (contact : Contact) :
    (db.saveContact contact).findContact contact.uuid = some contact :=
  find?_key (db.saveContact contact).uuid_nodup
    (mem_append_right _ (mem_singleton.mpr rfl))

theorem findContact_saveContact_other (db : Database) {contact : Contact}
    (other : uuid ≠ contact.uuid) :
    (db.saveContact contact).findContact uuid = db.findContact uuid := by
  have keeps : ∀ row : Contact, (row.uuid ≠ contact.uuid ∧ row.uuid = uuid) ↔ row.uuid = uuid :=
    fun row => ⟨And.right, fun same => ⟨same ▸ other, same⟩⟩
  simp only [findContact, saveContact, find?_append, find?_filter, decide_eq_true_eq,
    keeps]
  simp [other.symm]

theorem findContact_map_avatarRow (avatarPath : String) (contacts : List Contact) (other : String) :
    (contacts.map (avatarRow uuid avatarPath)).find? (fun row => row.uuid = other) =
      (contacts.find? fun row => row.uuid = other).map (avatarRow uuid avatarPath) := by
  rw [find?_map]
  simp only [Function.comp_def, avatarRow_uuid]

theorem findContact_saveContactAvatar_other (db : Database) {uuid other : String}
    (avatarPath : String) (different : other ≠ uuid) :
    (db.saveContactAvatar uuid avatarPath).findContact other = db.findContact other := by
  unfold saveContactAvatar
  split
  · simp [findContact, find?_append, different.symm]
  · simp only [findContact, findContact_map_avatarRow]
    cases found : db.contacts.find? fun row => row.uuid = other with
    | none => rfl
    | some row =>
      have same : row.uuid = other := by simpa using find?_some found
      simp [avatarRow, same, different]

/-- Only the avatar of the row changes; a missing row is made with the avatar alone. -/
theorem findContact_saveContactAvatar_self (db : Database) (uuid avatarPath : String) :
    (db.saveContactAvatar uuid avatarPath).findContact uuid =
      some { (db.findContact uuid).getD { uuid := uuid } with avatarPath := some avatarPath } := by
  unfold saveContactAvatar
  split
  · rename_i missing
    have absent : db.contacts.find? (fun row => row.uuid = uuid) = none := by
      simpa using missing
    simp [findContact, find?_append, absent]
  · rename_i present
    simp only [findContact, findContact_map_avatarRow]
    cases found : db.contacts.find? fun row => row.uuid = uuid with
    | none => exact absurd (by simpa using found) present
    | some row =>
      have same : row.uuid = uuid := by simpa using find?_some found
      simp [avatarRow, same]

@[simp]
theorem getContactAvatar_saveContactAvatar (db : Database) (uuid avatarPath : String) :
    (db.saveContactAvatar uuid avatarPath).getContactAvatar uuid = some avatarPath := by
  rw [getContactAvatar, findContact_saveContactAvatar_self]
  rfl

theorem updateThread_contacts (updated : db.updateThread thread = .ok after) :
    after.contacts = db.contacts := by
  unfold updateThread at updated
  split at updated
  · cases updated
  · cases updated
    rfl

end Database

end LegacySignal
