import LegacySignal.Sync.RefreshTermination

/-!
# When the profile refresh goes on forever

A name in a fetched profile is enough: `saveContact` replaces the contact row,
which erases the avatar, and the update of the thread then sends the collector
round again before an avatar can be saved. Two contacts with avatars and no
names are enough as well: the avatar of one sends the collector round while
the other is being fetched, and from then on two fetches of that contact erase
and save its avatar in turns.
-/

namespace LegacySignal

namespace Refresh

open TaskList Transition List

variable {base64 : Base64} {filesDir : String} {respond : String → Option ProfileResponse}
  {refresh : Refresh} {db : Database}

theorem run_visit {visit : Visit} {rest : List Visit} (next : refresh.visits = visit :: rest)
    (fresh : visit.avatarMissing = false) :
    ∃ events added, run (step base64 filesDir respond) refresh events =
        some { refresh with visits := rest, fetches := refresh.fetches ++ added } ∧
      (isNullOrBlank (refresh.db.getContactAvatar visit.recipientNumber) = true → ∀ fetch,
        refreshFetch base64 respond refresh.db visit.recipientNumber = some fetch →
          fetch ∈ added) := by
  by_cases blank : isNullOrBlank (refresh.db.getContactAvatar visit.recipientNumber) = true
  · refine ⟨[.visit, .visit],
      (refreshFetch base64 respond refresh.db visit.recipientNumber).toList, ?_, ?_⟩
    · simp [run, step, next, visitNext, fresh, blank]
    · intro _ fetch launched
      simp [launched]
  · refine ⟨[.visit], [], ?_, fun missing => absurd missing blank⟩
    simp [run, step, next, visitNext, fresh, blank]

theorem run_visits (refresh : Refresh)
    (fresh : ∀ visit ∈ refresh.visits, visit.avatarMissing = false) :
    ∃ events added, run (step base64 filesDir respond) refresh events =
        some { refresh with visits := [], fetches := refresh.fetches ++ added } ∧
      ∀ visit ∈ refresh.visits,
        isNullOrBlank (refresh.db.getContactAvatar visit.recipientNumber) = true → ∀ fetch,
          refreshFetch base64 respond refresh.db visit.recipientNumber = some fetch →
            fetch ∈ added := by
  rcases refresh with ⟨db, signal, subscribed, visits, fetches⟩
  induction visits generalizing fetches with
  | nil => exact ⟨[], [], by simp, by simp⟩
  | cons visit rest ih =>
    rcases @run_visit base64 filesDir respond ⟨db, signal, subscribed, visit :: rest, fetches⟩
      visit rest rfl (fresh visit mem_cons_self) with ⟨events, added, first, launched⟩
    rcases ih (fetches ++ added) (fun other member => fresh other (mem_cons_of_mem _ member))
      with ⟨laterEvents, laterAdded, later, laterLaunched⟩
    refine ⟨events ++ laterEvents, added ++ laterAdded, ?_, ?_⟩
    · rw [← append_assoc]
      exact run_append first later
    · intro other member blank fetch answered
      rcases mem_cons.mp member with rfl | inRest
      · exact mem_append_left _ (launched blank fetch answered)
      · exact mem_append_right _ (laterLaunched other inRest blank fetch answered)

theorem run_round (due : refresh.signal.isSome) (idle : refresh.visits = []) :
    ∃ event events added,
      run (step base64 filesDir respond) refresh (event :: events) =
        some { refresh with
          signal := none, subscribed := true, fetches := refresh.fetches ++ added } ∧
      ∀ uuid fetch, Fetched base64 respond refresh.db uuid fetch → fetch ∈ added := by
  rcases Option.isSome_iff_exists.mp due with ⟨causes, pending⟩
  let queried : Refresh := { refresh with
    signal := none
    visits := refresh.db.queryAllThreads.map fun thread =>
      { recipientNumber := thread.recipientNumber, causes } }
  have query : step base64 filesDir respond refresh .query = some queried := by
    simp [step, pending, idle, queried]
  have subscribing : ∃ events, run (step base64 filesDir respond) queried events =
      some { queried with subscribed := true } := by
    by_cases subscribed : refresh.subscribed = true
    · exact ⟨[], by simp [queried, ← subscribed]⟩
    · exact ⟨[.subscribe], by simp [run, step, queried, subscribed]⟩
  rcases subscribing with ⟨subscribeEvents, subscribed⟩
  have fresh : ∀ visit ∈ ({ queried with subscribed := true } : Refresh).visits,
      visit.avatarMissing = false := by
    intro visit member
    rcases mem_map.mp member with ⟨thread, _, rfl⟩
    rfl
  rcases @run_visits base64 filesDir respond { queried with subscribed := true } fresh
    with ⟨visitEvents, added, visited, launched⟩
  refine ⟨.query, subscribeEvents ++ visitEvents, added, ?_, ?_⟩
  · refine run_cons query ?_
    have both := run_append subscribed visited
    simpa [queried, idle] using both
  · rintro uuid fetch ⟨⟨id, thread, inThreads, same, _⟩, blank, answered⟩
    subst same
    exact launched ⟨thread.recipientNumber, causes, false⟩
      (mem_map.mpr ⟨thread, mem_queryAllThreads.mpr inThreads, rfl⟩) blank fetch answered

theorem step_fetch {index : ℕ} {fetch : Fetch} (found : refresh.fetches[index]? = some fetch)
    (live : fetch.phase ≠ .done) :
    step base64 filesDir respond refresh (.fetch index) =
      some (refresh.advanceFetch base64 filesDir index fetch) := by
  simp [step, found, live]

theorem Fetched.answered {uuid : String} {fetch : Fetch}
    (fetched : Fetched base64 respond db uuid fetch) :
    fetch.senderId = uuid ∧ fetch.phase = .saveContact ∧ respond uuid = some fetch.response ∧
      fetch.profileKey.length = 32 :=
  refreshFetch_some fetched.2.2

theorem Fetched.congr {db other : Database} {uuid : String} {fetch : Fetch}
    (fetched : Fetched base64 respond db uuid fetch) (threads : db.Grows other)
    (same : other.findContact uuid = db.findContact uuid) :
    Fetched base64 respond other uuid fetch := by
  rcases fetched with ⟨⟨id, has⟩, blank, launched⟩
  exact ⟨⟨id, threads _ _ has⟩, (getContactAvatar_congr same).symm ▸ blank,
    (refreshFetch_congr same).trans launched⟩

theorem fetched_saveContact {fetch : Fetch} (thread : ∃ id, db.HasThread fetch.senderId id)
    (answered : respond fetch.senderId = some fetch.response)
    (valid : fetch.profileKey.length = 32) :
    Fetched base64 respond (db.saveContact (fetch.contact base64)) fetch.senderId
      { fetch with phase := .saveContact } := by
  have row : (db.saveContact (fetch.contact base64)).findContact fetch.senderId =
      some (fetch.contact base64) := db.findContact_saveContact_self (fetch.contact base64)
  have nonempty : fetch.profileKey ≠ [] := by
    intro empty
    rw [empty] at valid
    cases valid
  have key : (db.saveContact (fetch.contact base64)).getContactProfileKey fetch.senderId =
      some (base64.encodeToString fetch.profileKey) := by
    rw [Database.getContactProfileKey, row]
    rfl
  refine ⟨thread, ?_, ?_⟩
  · rw [Database.getContactAvatar, row]
    rfl
  · simp [refreshFetch, key, base64.encodeToString_not_blank _ nonempty,
      base64.decode_encodeToString, fetchAndSaveProfile, valid, answered]

def NameDue (base64 : Base64) (respond : String → Option ProfileResponse) (uuid : String)
    (refresh : Refresh) : Prop :=
  refresh.signal.isSome ∧ refresh.visits = [] ∧ ∃ fetch,
    Fetched base64 respond refresh.db uuid fetch ∧ isNullOrBlank fetch.response.name = false

theorem run_name (subscribed : refresh.subscribed = true) (idle : refresh.visits = []) {index : ℕ}
    {fetch : Fetch} {uuid : String} (found : refresh.fetches[index]? = some fetch)
    (fetched : Fetched base64 respond refresh.db uuid fetch)
    (named : isNullOrBlank fetch.response.name = false) :
    ∃ next, run (step base64 filesDir respond) refresh
        [.fetch index, .fetch index, .fetch index] = some next ∧
      NameDue base64 respond uuid next := by
  rcases fetched.answered with ⟨rfl, running, answered, valid⟩
  let saved := refresh.db.saveContact (fetch.contact base64)
  have thread : ∃ id, saved.HasThread fetch.senderId id := fetched.1
  have again : Fetched base64 respond saved fetch.senderId { fetch with phase := .saveContact } :=
    fetched_saveContact fetched.1 answered valid
  rcases thread with ⟨id, has⟩
  rcases has.getThreadByRecipient_isSome with ⟨row, rowFound⟩
  rcases Database.getThreadByRecipient_some rowFound with ⟨inThreads, sameRecipient⟩
  have own : saved.HasThread row.recipientNumber row.id := ⟨row, inThreads, rfl, rfl⟩
  rcases @Database.updateThread_of_hasThread saved { row with name := fetch.response.name } own
    with ⟨updated, ok, grows⟩
  have foundTwice := getElem?_set_found found { fetch with phase := .getThread }
  have foundThrice := getElem?_set_found foundTwice { fetch with phase := .updateThread row }
  have contacts : updated.findContact fetch.senderId = saved.findContact fetch.senderId := by
    simp only [Database.findContact, Database.updateThread_contacts ok]
  let next : Refresh := { refresh with
    db := updated
    signal := some (fetch.senderId :: refresh.signal.getD [])
    fetches := ((refresh.fetches.set index { fetch with phase := .getThread }).set index
      { fetch with phase := .updateThread row }).set index { fetch with phase := fetch.afterName } }
  refine ⟨next, ?_, rfl, idle, _, again.congr grows contacts, named⟩
  refine run_cons (step_fetch found (by simp [running])) ?_
  simp only [advanceFetch, Fetch.advance, running, Fetch.afterContact, named, Bool.false_eq_true,
    if_false]
  refine run_cons (step_fetch foundTwice (by simp)) ?_
  simp only [advanceFetch, Fetch.advance, saved] at rowFound ok ⊢
  simp only [rowFound, Bool.false_eq_true, if_false]
  refine run_cons (step_fetch foundThrice (by simp)) ?_
  simp only [advanceFetch, Fetch.advance, ok, if_true, notifyDbChanged, subscribed,
    run_nil, next]
  rfl

theorem infiniteRun_of_name {uuid : String} (due : NameDue base64 respond uuid refresh) :
    InfiniteRun (step base64 filesDir respond) refresh := by
  refine infiniteRun_of_recurrent ?_ due
  rintro state ⟨signalled, idle, fetch, fetched, named⟩
  rcases @run_round base64 filesDir respond state signalled idle
    with ⟨event, events, added, round, launched⟩
  have member : fetch ∈ state.fetches ++ added :=
    mem_append_right _ (launched uuid fetch fetched)
  rcases mem_iff_getElem?.mp member with ⟨index, found⟩
  let visited : Refresh := { state with
    signal := none, subscribed := true, fetches := state.fetches ++ added }
  rcases @run_name base64 filesDir respond visited rfl idle index fetch uuid found fetched named
    with ⟨next, reached, again⟩
  exact ⟨event, events ++ _, next, run_append round reached, again⟩

def AvatarDue (base64 : Base64) (respond : String → Option ProfileResponse) (uuid : String)
    (refresh : Refresh) : Prop :=
  refresh.signal.isSome ∧ refresh.visits = [] ∧
    (∃ fetch, Fetched base64 respond refresh.db uuid fetch ∧
      isNullOrBlank fetch.response.name = true ∧ fetch.response.avatar = true) ∧
    ∃ fetch ∈ refresh.fetches, fetch.senderId = uuid ∧ fetch.phase = .saveAvatar

theorem avatarDue_saveContact (due : refresh.signal.isSome) (idle : refresh.visits = []) {index : ℕ}
    {fetch : Fetch} {uuid : String} (found : refresh.fetches[index]? = some fetch)
    (thread : ∃ id, refresh.db.HasThread uuid id)
    (answered : fetch.senderId = uuid ∧ fetch.phase = .saveContact ∧
      respond uuid = some fetch.response ∧ fetch.profileKey.length = 32)
    (nameless : isNullOrBlank fetch.response.name = true)
    (hasAvatar : fetch.response.avatar = true) :
    ∃ next, step base64 filesDir respond refresh (.fetch index) = some next ∧
      AvatarDue base64 respond uuid next := by
  rcases answered with ⟨rfl, running, answered, valid⟩
  refine ⟨_, step_fetch found (by simp [running]), ?_⟩
  rw [advanceFetch_saveContact running nameless]
  refine ⟨due, idle, ⟨_, fetched_saveContact thread answered valid, nameless, hasAvatar⟩,
    { fetch with phase := fetch.afterName }, ?_, rfl, ?_⟩
  · exact mem_of_getElem? (getElem?_set_found found _)
  · simp [Fetch.afterName, hasAvatar]

theorem infiniteRun_of_avatar {uuid : String} (due : AvatarDue base64 respond uuid refresh) :
    InfiniteRun (step base64 filesDir respond) refresh := by
  refine infiniteRun_of_recurrent ?_ due
  rintro state ⟨signalled, idle, ⟨fetch, fetched, nameless, hasAvatar⟩, old, oldMember, rfl, saving⟩
  rcases @run_round base64 filesDir respond state signalled idle
    with ⟨event, events, added, round, launched⟩
  rcases mem_iff_getElem?.mp
    (mem_append_left added oldMember) with ⟨oldIndex, oldFound⟩
  rcases mem_iff_getElem?.mp
    (mem_append_right state.fetches (launched _ fetch fetched)) with ⟨index, found⟩
  have apart : oldIndex ≠ index := by
    rintro rfl
    rw [oldFound, Option.some.injEq] at found
    rw [found, fetched.answered.2.1] at saving
    cases saving
  let visited : Refresh := { state with
    signal := none, subscribed := true, fetches := state.fetches ++ added }
  have save := @step_fetch base64 filesDir respond visited oldIndex old oldFound (by simp [saving])
  rw [advanceFetch_saveAvatar saving] at save
  have avatarSaved := @avatarDue_saveContact base64 filesDir respond (notifyDbChanged
    { visited with
      db := visited.db.saveContactAvatar old.senderId (Fetch.avatarFile filesDir old.senderId)
      fetches := visited.fetches.set oldIndex { old with phase := .done } } old.senderId)
    rfl idle index fetch old.senderId
    (by rw [notifyDbChanged_fetches, getElem?_set_ne apart]; exact found)
    (by
      rcases fetched.1 with ⟨id, has⟩
      rw [notifyDbChanged_db]
      exact ⟨id, Database.saveContactAvatar_grows _ _ _ _ _ has⟩)
    fetched.answered nameless hasAvatar
  rcases avatarSaved with ⟨next, stepped, again⟩
  have tail := run_cons save (run_cons stepped (run_nil next))
  exact ⟨event, events ++ _, next, run_append round tail, again⟩

theorem infiniteRun_of_two_avatars (due : refresh.signal.isSome) (idle : refresh.visits = [])
    {uuid other : String} (different : uuid ≠ other) {fetch otherFetch : Fetch}
    (fetched : Fetched base64 respond refresh.db uuid fetch)
    (otherFetched : Fetched base64 respond refresh.db other otherFetch)
    (nameless : isNullOrBlank fetch.response.name = true)
    (otherNameless : isNullOrBlank otherFetch.response.name = true)
    (hasAvatar : fetch.response.avatar = true)
    (otherHasAvatar : otherFetch.response.avatar = true) :
    InfiniteRun (step base64 filesDir respond) refresh := by
  rcases @run_round base64 filesDir respond refresh due idle
    with ⟨event, events, added, round, launched⟩
  rcases fetched.answered with ⟨rfl, running, _, _⟩
  rcases mem_iff_getElem?.mp
    (mem_append_right refresh.fetches (launched _ fetch fetched)) with ⟨index, found⟩
  rcases mem_iff_getElem?.mp
    (mem_append_right refresh.fetches (launched _ otherFetch otherFetched))
    with ⟨otherIndex, otherFound⟩
  have apart : index ≠ otherIndex := by
    rintro rfl
    rw [found, Option.some.injEq] at otherFound
    rw [otherFound] at different
    exact different otherFetched.answered.1
  let visited : Refresh := { refresh with
    signal := none, subscribed := true, fetches := refresh.fetches ++ added }
  have first := @step_fetch base64 filesDir respond visited index fetch found (by simp [running])
  rw [advanceFetch_saveContact running nameless] at first
  let saved : Refresh := { visited with
    db := visited.db.saveContact (fetch.contact base64)
    fetches := visited.fetches.set index { fetch with phase := fetch.afterName } }
  have saving : ({ fetch with phase := fetch.afterName } : Fetch).phase = .saveAvatar := by
    simp [Fetch.afterName, hasAvatar]
  have second := @step_fetch base64 filesDir respond saved index _ (getElem?_set_found found _)
    (by rw [saving]; simp)
  rw [advanceFetch_saveAvatar saving] at second
  have third := @avatarDue_saveContact base64 filesDir respond (notifyDbChanged
    { saved with
      db := saved.db.saveContactAvatar fetch.senderId (Fetch.avatarFile filesDir fetch.senderId)
      fetches := saved.fetches.set index { fetch with phase := .done } } fetch.senderId)
    rfl idle otherIndex otherFetch other
    (by
      rw [notifyDbChanged_fetches, getElem?_set_ne apart, getElem?_set_ne apart]
      exact otherFound)
    (by
      rcases otherFetched.1 with ⟨id, has⟩
      rw [notifyDbChanged_db]
      exact ⟨id, Database.saveContactAvatar_grows _ _ _ _ _ has⟩)
    otherFetched.answered otherNameless otherHasAvatar
  rcases third with ⟨next, stepped, again⟩
  have tail := run_cons first (run_cons second
    (run_cons stepped (run_nil next)))
  exact infiniteRun_of_run (run_append round tail)
    (infiniteRun_of_avatar again)

/-- The refresh settles exactly if no profile that it fetches has a name and at most one has an
avatar. -/
theorem settles_iff_quiet (base64 : Base64) (filesDir : String)
    (respond : String → Option ProfileResponse) (db : Database) :
    Settles base64 filesDir respond db ↔ Quiet base64 respond db := by
  refine ⟨fun settles => ⟨?_, ?_⟩, settles_of_quiet⟩
  · intro uuid fetch fetched
    by_contra named
    rw [Bool.not_eq_true] at named
    exact settles.1 (infiniteRun_of_name ⟨rfl, rfl, fetch, fetched, named⟩)
  · intro uuid fetch other otherFetch fetched otherFetched hasAvatar otherHasAvatar
    by_contra different
    have nameless : ∀ uuid fetch, Fetched base64 respond db uuid fetch →
        isNullOrBlank fetch.response.name = true := by
      intro uuid fetch fetched
      by_contra named
      rw [Bool.not_eq_true] at named
      exact settles.1 (infiniteRun_of_name ⟨rfl, rfl, fetch, fetched, named⟩)
    exact settles.1 (@infiniteRun_of_two_avatars base64 filesDir respond (initial db) rfl rfl
      uuid other different fetch otherFetch fetched otherFetched (nameless _ _ fetched)
      (nameless _ _ otherFetched) hasAvatar otherHasAvatar)

def aliceUuid : String := "9d0652a3-dcc3-4d11-975f-74d61598733f"

/-- A thread whose contact has a profile key and no avatar. -/
def missingAvatar : Database :=
  { Database.empty with
    threads := [{ id := 1, recipientNumber := aliceUuid }]
    contacts :=
      [⟨aliceUuid, none, none, some (Base64.standard.encodeToString (replicate 32 7)), none⟩]
    threadSequence := 1
    threads_id_le := by simp
    threads_id_nodup := by simp
    recipientNumber_nodup := by simp
    foreign_key := by simp [Database.empty]
    uuid_nodup := by simp }

/-- The profile of the contact has a name and no avatar. -/
theorem named_profile_not_settles :
    ¬Settles .standard "/files" (fun _ => some ⟨some "Alice", none, false⟩) missingAvatar := by
  rintro ⟨finite, _⟩
  have fetched : Fetched .standard (fun _ => some ⟨some "Alice", none, false⟩) missingAvatar
      aliceUuid ⟨aliceUuid, replicate 32 7, ⟨some "Alice", none, false⟩, .saveContact⟩ := by
    refine ⟨⟨1, _, mem_cons_self, rfl, rfl⟩, rfl, ?_⟩
    decide
  exact finite (infiniteRun_of_name ⟨rfl, rfl, _, fetched, by decide⟩)

end Refresh

end LegacySignal
