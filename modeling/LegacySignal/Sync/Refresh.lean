import LegacySignal.Library.Transition
import LegacySignal.Library.TaskList
import LegacySignal.Sync.Profile

/-!
# The profile refresh

`BackgroundSyncManager.start` launches a collector that goes through all
threads, and again after every change of the database, and fetches the profile
of each contact that has a profile key but no avatar. The fetches write to the
same database: `updateThread` and `saveContactAvatar` end in
`notifyDbChanged`, which makes the collector go round again.

The change signal has one slot, so it is pending or not. It is lost before the
flow has subscribed, which it does after its first emission. The block that
goes through the threads never suspends, so a newer emission waits for it.

Each pending signal and each visit remembers the contacts whose writes caused
it; these ghost fields decide no step.
-/

namespace LegacySignal

/-- A thread that the collector has yet to look at. -/
structure Visit where
  recipientNumber : String
  causes : List String
  /-- The avatar has been read and is missing; the profile key is read next. -/
  avatarMissing : Bool := false
deriving DecidableEq, Repr

structure Refresh where
  db : Database
  /-- An emission is due, with the contacts whose writes caused it. -/
  signal : Option (List String)
  /-- The flow collects `dbChangeSignal`. -/
  subscribed : Bool
  visits : List Visit
  fetches : List Fetch

namespace Refresh

def initial (db : Database) : Refresh where
  db := db
  signal := some []
  subscribed := false
  visits := []
  fetches := []

inductive Event where
  | query
  | subscribe
  | visit
  | fetch (index : ℕ)
deriving DecidableEq, Repr

def notifyDbChanged (refresh : Refresh) (senderId : String) : Refresh :=
  if refresh.subscribed then
    { refresh with signal := some (senderId :: refresh.signal.getD []) }
  else refresh

section

variable (base64 : Base64) (filesDir : String) (respond : String → Option ProfileResponse)

def refreshFetch (db : Database) (recipientNumber : String) : Option Fetch :=
  match db.getContactProfileKey recipientNumber with
  | none => none
  | some b64Key =>
    if isBlank b64Key then none
    else (base64.decode b64Key).bind fun keyBytes =>
      fetchAndSaveProfile recipientNumber keyBytes (respond recipientNumber)

/-- The first read of a visit ends it where there is an avatar; the second launches the fetch. -/
def visitNext (refresh : Refresh) (visit : Visit) (rest : List Visit) : Refresh :=
  if visit.avatarMissing then
    { refresh with
      visits := rest
      fetches := refresh.fetches ++
        (refreshFetch base64 respond refresh.db visit.recipientNumber).toList }
  else if isNullOrBlank (refresh.db.getContactAvatar visit.recipientNumber) then
    { refresh with visits := { visit with avatarMissing := true } :: rest }
  else { refresh with visits := rest }

def advanceFetch (refresh : Refresh) (index : ℕ) (fetch : Fetch) : Refresh :=
  let (after, phase, notified) := fetch.advance base64 filesDir refresh.db
  let next : Refresh := { refresh with
    db := after
    fetches := refresh.fetches.set index { fetch with phase } }
  if notified then next.notifyDbChanged fetch.senderId else next

def step (refresh : Refresh) : Event → Option Refresh
  | .query =>
    refresh.signal.map fun causes =>
      { refresh with
        signal := none
        visits := refresh.visits ++ refresh.db.queryAllThreads.map fun thread =>
          { recipientNumber := thread.recipientNumber, causes } }
  | .subscribe =>
    if refresh.subscribed = false ∧ refresh.signal = none then
      some { refresh with subscribed := true }
    else none
  | .visit =>
    match refresh.visits with
    | [] => none
    | visit :: rest => some (refresh.visitNext base64 respond visit rest)
  | .fetch index =>
    match refresh.fetches[index]? with
    | none => none
    | some fetch =>
      if fetch.phase = .done then none
      else some (refresh.advanceFetch base64 filesDir index fetch)

/-- The next visit launches a fetch for a contact whose own writes caused the round. -/
def FetchesOwn (refresh : Refresh) : Prop :=
  ∃ visit rest, refresh.visits = visit :: rest ∧ visit.avatarMissing = true ∧
    visit.recipientNumber ∈ visit.causes ∧
    (refreshFetch base64 respond refresh.db visit.recipientNumber).isSome

/-- Nothing goes on forever, and no contact is fetched because of its own writes. -/
def Settles (db : Database) : Prop :=
  ¬Transition.InfiniteRun (step base64 filesDir respond) (initial db) ∧
    ∀ events refresh,
      Transition.run (step base64 filesDir respond) (initial db) events = some refresh →
        ¬refresh.FetchesOwn base64 respond

/-- The collector would fetch the profile of this contact. -/
def Fetched (db : Database) (uuid : String) (fetch : Fetch) : Prop :=
  (∃ id, db.HasThread uuid id) ∧ isNullOrBlank (db.getContactAvatar uuid) = true ∧
    refreshFetch base64 respond db uuid = some fetch

/-- No profile that is fetched has a name, and at most one has an avatar. -/
structure Quiet (db : Database) : Prop where
  nameless : ∀ uuid fetch, Fetched base64 respond db uuid fetch →
    isNullOrBlank fetch.response.name = true
  one_avatar : ∀ uuid fetch other otherFetch, Fetched base64 respond db uuid fetch →
    Fetched base64 respond db other otherFetch → fetch.response.avatar = true →
      otherFetch.response.avatar = true → uuid = other

end

end Refresh

end LegacySignal
