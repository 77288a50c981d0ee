import LegacySignal.Data.Base64
import LegacySignal.Data.Database

/-!
# Fetching a profile

`fetchAndSaveProfile` launches a coroutine that asks the server for a profile
and writes what it learns: the contact row, then the name of the thread, then
the avatar. Each database call is a step of its own, since other coroutines
run in between.
-/

namespace LegacySignal

/-- What a successful profile request leads to. -/
structure ProfileResponse where
  /-- `decryptedName`, null when the field is missing or does not decrypt. -/
  name : Option String
  about : Option String
  /-- An avatar is named and one of its downloads succeeds. -/
  avatar : Bool
deriving DecidableEq, Repr

/-- The database call that comes next. -/
inductive FetchPhase where
  | saveContact
  | getThread
  | updateThread (thread : ThreadEntity)
  | saveAvatar
  | done
deriving DecidableEq, Repr

structure Fetch where
  senderId : String
  profileKey : List UInt8
  response : ProfileResponse
  phase : FetchPhase
deriving DecidableEq, Repr

/-- The coroutine that is launched. `ProfileKey` throws unless it gets 32 bytes; then, and when
the request fails, the coroutine ends without a database call. -/
def fetchAndSaveProfile (senderId : String) (profileKey : List UInt8)
    (response : Option ProfileResponse) : Option Fetch :=
  if profileKey.length = 32 then
    response.map fun response => { senderId, profileKey, response, phase := .saveContact }
  else none

theorem fetchAndSaveProfile_some {senderId : String} {profileKey : List UInt8}
    {response : Option ProfileResponse} {fetch : Fetch}
    (launched : fetchAndSaveProfile senderId profileKey response = some fetch) :
    profileKey.length = 32 ∧ response = some fetch.response ∧
      fetch = { senderId, profileKey, response := fetch.response, phase := .saveContact } := by
  unfold fetchAndSaveProfile at launched
  split at launched
  · rename_i valid
    rcases Option.map_eq_some_iff.mp launched with ⟨answer, rfl, rfl⟩
    exact ⟨valid, rfl, rfl⟩
  · cases launched

namespace Fetch

def avatarFile (filesDir senderId : String) : String :=
  filesDir ++ "/avatars/" ++ senderId ++ ".png"

/-- What follows once the name has been dealt with. -/
def afterName (fetch : Fetch) : FetchPhase :=
  if fetch.response.avatar then .saveAvatar else .done

/-- What follows once the contact has been saved. -/
def afterContact (fetch : Fetch) : FetchPhase :=
  if isNullOrBlank fetch.response.name then fetch.afterName else .getThread

def contact (base64 : Base64) (fetch : Fetch) : Contact where
  uuid := fetch.senderId
  name := fetch.response.name
  about := fetch.response.about
  profileKey := some (base64.encodeToString fetch.profileKey)

/-- The database and the phase after the next call, and whether that call ended in
`notifyDbChanged`. -/
def advance (base64 : Base64) (filesDir : String) (db : Database) (fetch : Fetch) :
    Database × FetchPhase × Bool :=
  match fetch.phase with
  | .saveContact => (db.saveContact (fetch.contact base64), fetch.afterContact, false)
  | .getThread =>
    match db.getThreadByRecipient fetch.senderId with
    | none => (db, fetch.afterName, false)
    | some thread => (db, .updateThread thread, false)
  | .updateThread thread =>
    match db.updateThread { thread with name := fetch.response.name } with
    | .error _ => (db, .done, false)
    | .ok after => (after, fetch.afterName, true)
  | .saveAvatar =>
    (db.saveContactAvatar fetch.senderId (avatarFile filesDir fetch.senderId), .done, true)
  | .done => (db, .done, false)

@[simp]
theorem afterName_ne_updateThread (fetch : Fetch) (thread : ThreadEntity) :
    fetch.afterName ≠ .updateThread thread := by
  unfold afterName
  split <;> simp

@[simp]
theorem afterContact_ne_updateThread (fetch : Fetch) (thread : ThreadEntity) :
    fetch.afterContact ≠ .updateThread thread := by
  unfold afterContact
  split <;> simp

theorem advance_messages (base64 : Base64) (filesDir : String) (db : Database) (fetch : Fetch) :
    (fetch.advance base64 filesDir db).1.messages = db.messages := by
  unfold advance
  split
  · rfl
  · split <;> rfl
  · split
    · rfl
    · rename_i updated
      exact Database.updateThread_messages updated
  · exact db.saveContactAvatar_messages _ _
  · rfl

end Fetch

end LegacySignal
