import LegacySignal.Sync.Refresh

/-!
# When the profile refresh settles

Suppose no profile that is fetched has a name, and only those of one contact,
the owner, have an avatar. Then only the avatar of the owner can cause another
round. It is fetched once: until its avatar is saved there is no second round,
and afterwards the owner is passed over. `Settling` follows a run through
these stages, and `remaining` counts the steps that are left.
-/

namespace LegacySignal

namespace Refresh

open TaskList List

variable {base64 : Base64} {filesDir : String} {respond : String → Option ProfileResponse}
  {db : Database} {uuid : String} {fetch : Fetch} {other : Database}

theorem refreshFetch_some (launched : refreshFetch base64 respond db uuid = some fetch) :
    fetch.senderId = uuid ∧ fetch.phase = .saveContact ∧ respond uuid = some fetch.response ∧
      fetch.profileKey.length = 32 := by
  unfold refreshFetch at launched
  split at launched
  · cases launched
  · split at launched
    · cases launched
    · rcases Option.bind_eq_some_iff.mp launched with ⟨keyBytes, _, started⟩
      rcases fetchAndSaveProfile_some started with ⟨valid, answered, shape⟩
      rw [shape]
      exact ⟨rfl, rfl, answered, valid⟩

theorem getContactAvatar_congr (same : other.findContact uuid = db.findContact uuid) :
    other.getContactAvatar uuid = db.getContactAvatar uuid := by
  simp only [Database.getContactAvatar, same]

theorem refreshFetch_congr (same : other.findContact uuid = db.findContact uuid) :
    refreshFetch base64 respond other uuid = refreshFetch base64 respond db uuid := by
  simp only [refreshFetch, Database.getContactProfileKey, same]

theorem advance_saveContact (phase : fetch.phase = .saveContact)
    (nameless : isNullOrBlank fetch.response.name = true) :
    fetch.advance base64 filesDir db =
      (db.saveContact (fetch.contact base64), fetch.afterName, false) := by
  simp only [Fetch.advance, phase, Fetch.afterContact, nameless, if_true]

theorem advance_saveAvatar (phase : fetch.phase = .saveAvatar) :
    fetch.advance base64 filesDir db =
      (db.saveContactAvatar fetch.senderId (Fetch.avatarFile filesDir fetch.senderId), .done,
        true) := by
  simp only [Fetch.advance, phase]

theorem avatarFile_not_blank (senderId : String) :
    isBlank (Fetch.avatarFile filesDir senderId) = false := by
  refine isBlank_eq_false_of_mem (?_ : '/' ∈ (Fetch.avatarFile filesDir senderId).toList)
    (by decide)
  simp [Fetch.avatarFile]

/-- A fetch of a run that settles, at one of the calls it makes. -/
def Expected (base64 : Base64) (respond : String → Option ProfileResponse) (start : Database)
    (fetch : Fetch) : Prop :=
  fetch.phase = .done ∨
    ((fetch.phase = .saveContact ∨ (fetch.phase = .saveAvatar ∧ fetch.response.avatar = true)) ∧
      ∃ first, Fetched base64 respond start fetch.senderId first ∧
        first.response = fetch.response)

def visitOf (owner : String) (visit : Visit) : ℕ :=
  if visit.recipientNumber = owner then 1 else 0

def fetchOf (owner : String) (fetch : Fetch) : ℕ :=
  if fetch.senderId = owner ∧ fetch.phase ≠ .done then 1 else 0

def tokens (owner : String) (refresh : Refresh) : ℕ :=
  (refresh.visits.map (visitOf owner)).sum + (refresh.fetches.map (fetchOf owner)).sum

/-- How far the refresh of the owner has come. -/
inductive Stage (owner : String) (refresh : Refresh) : Prop where
  | before (signal : refresh.signal = some []) (visits : refresh.visits = [])
      (fetches : refresh.fetches = [])
  | waiting (signal : refresh.signal = none)
      (uncaused : ∀ visit ∈ refresh.visits, visit.causes = [])
      (single : refresh.tokens owner ≤ 1)
      (visited : ∀ visit ∈ refresh.visits, visit.recipientNumber = owner →
        visit.avatarMissing = true → isNullOrBlank (refresh.db.getContactAvatar owner) = true)
      (fetched : ∀ fetch ∈ refresh.fetches, fetch.senderId = owner → fetch.phase ≠ .done →
        isNullOrBlank (refresh.db.getContactAvatar owner) = true)
  | saved (avatar : isNullOrBlank (refresh.db.getContactAvatar owner) = false)
      (fetched : ∀ fetch ∈ refresh.fetches, fetch.senderId = owner → fetch.phase = .done)
      (visited : ∀ visit ∈ refresh.visits, visit.recipientNumber = owner →
        visit.avatarMissing = false)
      (signalled : ∀ causes, refresh.signal = some causes → causes ⊆ [owner])
      (caused : ∀ visit ∈ refresh.visits, visit.causes ⊆ [owner])

/-- The invariant of a run that settles. -/
structure Settling (base64 : Base64) (respond : String → Option ProfileResponse)
    (start : Database) (owner : String) (refresh : Refresh) : Prop where
  threads : refresh.db.threads = start.threads
  untouched : ∀ uuid, (∀ fetch, ¬Fetched base64 respond start uuid fetch) →
    refresh.db.findContact uuid = start.findContact uuid
  visits : ∀ visit ∈ refresh.visits, (∃ id, start.HasThread visit.recipientNumber id) ∧
    (visit.avatarMissing = true →
      (∃ fetch, Fetched base64 respond start visit.recipientNumber fetch) ∨
        isNullOrBlank (start.getContactAvatar visit.recipientNumber) = true)
  fetches : ∀ fetch ∈ refresh.fetches, Expected base64 respond start fetch
  stage : Stage owner refresh

theorem settling_initial (start : Database) (owner : String) :
    Settling base64 respond start owner (initial start) where
  threads := rfl
  untouched := fun _ _ => rfl
  visits := by simp [initial]
  fetches := by simp [initial]
  stage := .before rfl rfl rfl

variable {start : Database} {owner : String} {refresh : Refresh} {visit : Visit}
  {causes : List String} {rest : List Visit} {index : ℕ} {first : Fetch}

theorem expected_of_launched (settling : Settling base64 respond start owner refresh)
    (member : visit ∈ refresh.visits) (missing : visit.avatarMissing = true) :
    ∀ fetch ∈ (refreshFetch base64 respond refresh.db visit.recipientNumber).toList,
      Expected base64 respond start fetch := by
  intro fetch launched
  rw [Option.mem_toList] at launched
  rcases refreshFetch_some launched with ⟨sender, phase, answered, _⟩
  rcases settling.visits visit member with ⟨thread, read⟩
  refine .inr ⟨.inl phase, ?_⟩
  rw [sender]
  by_cases expected : ∃ first, Fetched base64 respond start visit.recipientNumber first
  · rcases expected with ⟨first, hasThread, blank, firstLaunched⟩
    refine ⟨first, ⟨hasThread, blank, firstLaunched⟩, ?_⟩
    have firstAnswered := (refreshFetch_some firstLaunched).2.2.1
    rw [answered, Option.some.injEq] at firstAnswered
    exact firstAnswered.symm
  · have same := settling.untouched _ (not_exists.mp expected)
    rw [refreshFetch_congr same] at launched
    exact ⟨fetch, ⟨thread, (read missing).resolve_left expected, launched⟩, rfl⟩

abbrev contactSaved (base64 : Base64) (refresh : Refresh) (index : ℕ) (fetch : Fetch) : Refresh :=
  { refresh with
    db := refresh.db.saveContact (fetch.contact base64)
    fetches := refresh.fetches.set index { fetch with phase := fetch.afterName } }

abbrev avatarSaved (filesDir : String) (refresh : Refresh) (index : ℕ) (fetch : Fetch) : Refresh :=
  notifyDbChanged { refresh with
    db := refresh.db.saveContactAvatar fetch.senderId (Fetch.avatarFile filesDir fetch.senderId)
    fetches := refresh.fetches.set index { fetch with phase := .done } } fetch.senderId

theorem mem_queryAllThreads {thread : ThreadEntity} :
    thread ∈ db.queryAllThreads ↔ thread ∈ db.threads :=
  mem_mergeSort

theorem settling_query (settling : Settling base64 respond start owner refresh)
    (pending : refresh.signal = some causes) :
    Settling base64 respond start owner { refresh with
      signal := none
      visits := refresh.visits ++ refresh.db.queryAllThreads.map fun thread =>
        { recipientNumber := thread.recipientNumber, causes } } where
  threads := settling.threads
  untouched := settling.untouched
  visits := by
    refine forall_mem_append settling.visits fun visit member => ?_
    rcases mem_map.mp member with ⟨thread, inQuery, rfl⟩
    rw [mem_queryAllThreads, settling.threads] at inQuery
    exact ⟨⟨thread.id, thread, inQuery, rfl, rfl⟩, fun missing => absurd missing (by simp)⟩
  fetches := settling.fetches
  stage := by
    cases settling.stage with
    | before signal visits fetches =>
      rw [signal, Option.some.injEq] at pending
      subst pending
      refine .waiting rfl ?_ ?_ ?_ ?_
      · rw [visits]
        intro visit member
        rcases mem_map.mp member with ⟨thread, _, rfl⟩
        rfl
      · have distinct : (refresh.db.queryAllThreads.map (·.recipientNumber)).Nodup :=
          ((mergeSort_perm _ _).map _).nodup_iff.mpr refresh.db.recipientNumber_nodup
        simpa [tokens, visits, fetches, visitOf, Function.comp_def] using
          KeyedRows.sum_indicator_le_one distinct owner
      · rw [visits]
        intro visit member _ missing
        rcases mem_map.mp member with ⟨thread, _, rfl⟩
        cases missing
      · simp [fetches]
    | waiting signal uncaused single visited fetched =>
      rw [signal] at pending
      cases pending
    | saved avatar fetched visited signalled caused =>
      refine .saved avatar fetched ?_ (by simp) ?_
      · refine forall_mem_append visited fun visit member _ => ?_
        rcases mem_map.mp member with ⟨thread, _, rfl⟩
        rfl
      · refine forall_mem_append caused fun visit member => ?_
        rcases mem_map.mp member with ⟨thread, _, rfl⟩
        exact signalled causes pending

theorem settling_subscribe (settling : Settling base64 respond start owner refresh)
    (quiet : refresh.signal = none) :
    Settling base64 respond start owner { refresh with subscribed := true } where
  threads := settling.threads
  untouched := settling.untouched
  visits := settling.visits
  fetches := settling.fetches
  stage := by
    cases settling.stage with
    | before signal visits fetches =>
      rw [signal] at quiet
      cases quiet
    | waiting signal uncaused single visited fetched =>
      exact .waiting signal uncaused single visited fetched
    | saved avatar fetched visited signalled caused =>
      exact .saved avatar fetched visited signalled caused

/-- The next visit goes on as those on the left, and launches the fetches. -/
theorem Settling.visited (settling : Settling base64 respond start owner refresh)
    (next : refresh.visits = visit :: rest) {left : List Visit} {launched : List Fetch}
    (same : ∀ other ∈ left, other.recipientNumber = visit.recipientNumber ∧
      other.causes = visit.causes)
    (blank : ∀ other ∈ left,
      isNullOrBlank (refresh.db.getContactAvatar visit.recipientNumber) = true)
    (missing : ∀ fetch ∈ launched, fetch.senderId = visit.recipientNumber ∧
      visit.avatarMissing = true ∧ Expected base64 respond start fetch)
    (fewer : (left.map (visitOf owner)).sum + (launched.map (fetchOf owner)).sum ≤
      visitOf owner visit) :
    Settling base64 respond start owner
      { refresh with visits := left ++ rest, fetches := refresh.fetches ++ launched } := by
  have here : visit ∈ refresh.visits := next ▸ mem_cons_self
  have kept : ∀ other ∈ rest, other ∈ refresh.visits :=
    fun other member => next ▸ mem_cons_of_mem _ member
  refine ⟨settling.threads, settling.untouched,
    forall_mem_append (fun other member => ?_) fun other member =>
      settling.visits other (kept other member),
    forall_mem_append settling.fetches fun fetch member => (missing fetch member).2.2, ?_⟩
  · rw [(same other member).1]
    refine ⟨(settling.visits visit here).1, fun _ => ?_⟩
    by_cases expected : ∃ fetch, Fetched base64 respond start visit.recipientNumber fetch
    · exact .inl expected
    · rw [← getContactAvatar_congr (settling.untouched _ (not_exists.mp expected))]
      exact .inr (blank other member)
  cases settling.stage with
  | before signal visits fetches =>
    rw [next] at visits
    cases visits
  | waiting signal uncaused single visited fetched =>
    refine .waiting signal (forall_mem_append (fun other member => ?_) fun other member =>
      uncaused other (kept other member)) ?_ (forall_mem_append (fun other member isOwner _ => ?_)
      fun other member => visited other (kept other member))
      (forall_mem_append fetched fun fetch member isOwner _ => ?_)
    · rw [(same other member).2]
      exact uncaused visit here
    · simp only [tokens, next, map_cons, sum_cons, map_append, sum_append]
        at single ⊢
      omega
    · rw [← isOwner, (same other member).1]
      exact blank other member
    · obtain ⟨sender, isMissing, _⟩ := missing fetch member
      exact visited visit here (sender.symm.trans isOwner) isMissing
  | saved avatar fetched visited signalled caused =>
    refine .saved avatar (forall_mem_append fetched fun fetch member isOwner => ?_)
      (forall_mem_append (fun other member isOwner => ?_) fun other member =>
        visited other (kept other member)) signalled (forall_mem_append (fun other member => ?_)
        fun other member => caused other (kept other member))
    · obtain ⟨sender, isMissing, _⟩ := missing fetch member
      cases (visited visit here (sender.symm.trans isOwner)).symm.trans isMissing
    · rw [(same other member).1] at isOwner
      cases avatar.symm.trans (isOwner ▸ blank other member)
    · rw [(same other member).2]
      exact caused visit here

theorem sum_fetchOf_refreshFetch_le (owner : String) :
    (((refreshFetch base64 respond db visit.recipientNumber).toList).map (fetchOf owner)).sum ≤
      visitOf owner visit := by
  cases launched : refreshFetch base64 respond db visit.recipientNumber with
  | none => simp
  | some fetch =>
    have same := (refreshFetch_some launched).1
    simp only [Option.toList_some, map_cons, map_nil, sum_cons, sum_nil,
      fetchOf, visitOf, same]
    split <;> split <;> simp_all

theorem settling_visitNext (settling : Settling base64 respond start owner refresh)
    (next : refresh.visits = visit :: rest) :
    Settling base64 respond start owner (refresh.visitNext base64 respond visit rest) := by
  unfold visitNext
  split
  · rename_i missing
    refine @Settling.visited _ _ _ _ _ _ _ settling next [] _ nofun nofun (fun fetch launched => ?_)
      (by simpa using sum_fetchOf_refreshFetch_le owner)
    exact ⟨(refreshFetch_some (Option.mem_toList.mp launched)).1, missing,
      expected_of_launched settling (next ▸ mem_cons_self) missing fetch launched⟩
  · split
    · rename_i blank
      have visited := @Settling.visited _ _ _ _ _ _ _ settling next
        [{ visit with avatarMissing := true }] [] (by simp) (fun _ _ => blank) nofun
        (by simp [visitOf])
      rwa [append_nil] at visited
    · have visited := @Settling.visited _ _ _ _ _ _ _ settling next [] [] nofun nofun nofun
        (Nat.zero_le _)
      rwa [append_nil] at visited

theorem settling_saveContact (settling : Settling base64 respond start owner refresh)
    (found : refresh.fetches[index]? = some fetch) (running : fetch.phase = .saveContact)
    (expected : Fetched base64 respond start fetch.senderId first)
    (answer : first.response = fetch.response) :
    Settling base64 respond start owner (contactSaved base64 refresh index fetch) where
  threads := settling.threads
  untouched := by
    intro uuid never
    have other : uuid ≠ (fetch.contact base64).uuid := by
      rintro rfl
      exact never first expected
    exact (refresh.db.findContact_saveContact_other other).trans (settling.untouched uuid never)
  visits := settling.visits
  fetches := by
    refine forall_mem_set settling.fetches ?_ index
    unfold Expected Fetch.afterName
    split
    · rename_i hasAvatar
      exact .inr ⟨.inr ⟨rfl, hasAvatar⟩, first, expected, answer⟩
    · exact .inl rfl
  stage := by
    have here := mem_of_getElem? found
    have live : fetch.phase ≠ .done := by simp [running]
    cases settling.stage with
    | before signal visits fetches =>
      rw [fetches] at here
      cases here
    | waiting signal uncaused single visited fetched =>
      have blank : isNullOrBlank (refresh.db.getContactAvatar owner) = true →
          isNullOrBlank ((refresh.db.saveContact (fetch.contact base64)).getContactAvatar
            owner) = true := by
        intro before
        by_cases isOwner : owner = fetch.senderId
        · subst isOwner
          have erased := refresh.db.findContact_saveContact_self (fetch.contact base64)
          simp only [Fetch.contact] at erased
          simp [Database.getContactAvatar, Fetch.contact, erased, isNullOrBlank]
        · rwa [getContactAvatar_congr (refresh.db.findContact_saveContact_other isOwner)]
      refine .waiting signal uncaused ?_
        (fun visit member isOwner missing => blank (visited visit member isOwner missing)) ?_
      · have change := sum_map_set (fetchOf owner) found
          { fetch with phase := fetch.afterName }
        have smaller : fetchOf owner { fetch with phase := fetch.afterName } ≤
            fetchOf owner fetch := by
          simp only [fetchOf]
          split <;> split <;> simp_all
        simp only [tokens] at single ⊢
        omega
      · intro other member isOwner otherLive
        rcases mem_or_eq_of_mem_set member with inFetches | rfl
        · exact blank (fetched other inFetches isOwner otherLive)
        · exact blank (fetched fetch here isOwner live)
    | saved avatar fetched visited signalled caused =>
      have notOwner : owner ≠ fetch.senderId :=
        fun isOwner => live (fetched fetch here isOwner.symm)
      refine .saved ?_ ?_ visited signalled caused
      · rwa [getContactAvatar_congr (refresh.db.findContact_saveContact_other notOwner)]
      · refine forall_mem_set fetched ?_ index
        exact fun isOwner => absurd isOwner.symm notOwner

section

variable (refresh) (senderId : String)

theorem notifyDbChanged_db : (refresh.notifyDbChanged senderId).db = refresh.db := by
  unfold notifyDbChanged
  split <;> rfl

theorem notifyDbChanged_visits : (refresh.notifyDbChanged senderId).visits = refresh.visits := by
  unfold notifyDbChanged
  split <;> rfl

theorem notifyDbChanged_fetches : (refresh.notifyDbChanged senderId).fetches = refresh.fetches := by
  unfold notifyDbChanged
  split <;> rfl

theorem notifyDbChanged_subscribed :
    (refresh.notifyDbChanged senderId).subscribed = refresh.subscribed := by
  unfold notifyDbChanged
  split <;> rfl

end

theorem isNullOrBlank_saveContactAvatar (db : Database) (senderId : String) :
    isNullOrBlank ((db.saveContactAvatar senderId
      (Fetch.avatarFile filesDir senderId)).getContactAvatar senderId) = false := by
  rw [Database.getContactAvatar_saveContactAvatar]
  exact avatarFile_not_blank senderId

theorem settling_saveAvatar (settling : Settling base64 respond start owner refresh)
    (found : refresh.fetches[index]? = some fetch) (running : fetch.phase = .saveAvatar)
    (expected : Fetched base64 respond start fetch.senderId first)
    (isOwner : fetch.senderId = owner) :
    Settling base64 respond start owner (avatarSaved filesDir refresh index fetch) where
  threads := by
    rw [notifyDbChanged_db]
    refine Eq.trans ?_ settling.threads
    unfold Database.saveContactAvatar
    split <;> rfl
  untouched := by
    intro uuid never
    have other : uuid ≠ fetch.senderId := by
      rintro rfl
      exact never first expected
    rw [notifyDbChanged_db]
    exact (refresh.db.findContact_saveContactAvatar_other _ other).trans
      (settling.untouched uuid never)
  visits := by
    rw [notifyDbChanged_visits]
    exact settling.visits
  fetches := by
    rw [notifyDbChanged_fetches]
    refine forall_mem_set settling.fetches ?_ index
    exact .inl rfl
  stage := by
    have here := mem_of_getElem? found
    have live : fetch.phase ≠ .done := by simp [running]
    cases settling.stage with
    | before signal visits fetches =>
      rw [fetches] at here
      cases here
    | waiting signal uncaused single visited fetched =>
      have token : fetchOf owner fetch = 1 := if_pos ⟨isOwner, live⟩
      have change := sum_map_set (fetchOf owner) found { fetch with phase := .done }
      have ended : fetchOf owner { fetch with phase := .done } = 0 := if_neg (by simp)
      simp only [tokens] at single
      refine .saved ?_ ?_ ?_ ?_ ?_
      · rw [notifyDbChanged_db, ← isOwner]
        exact isNullOrBlank_saveContactAvatar _ _
      · rw [notifyDbChanged_fetches]
        intro other member otherOwner
        by_contra otherLive
        have weight : fetchOf owner other = 1 := if_pos ⟨otherOwner, otherLive⟩
        have bound := weight_le_sum_map (fetchOf owner) member
        simp only at bound
        omega
      · rw [notifyDbChanged_visits]
        intro visit member visitOwner
        have weight : visitOf owner visit = 1 := if_pos visitOwner
        have bound := weight_le_sum_map (visitOf owner) member
        simp only at bound
        omega
      · intro causes pending
        unfold avatarSaved notifyDbChanged at pending
        split at pending
        · simp only [signal, Option.getD_none, Option.some.injEq] at pending
          subst pending
          simp [isOwner]
        · rw [signal] at pending
          cases pending
      · rw [notifyDbChanged_visits]
        intro visit member
        rw [uncaused visit member]
        exact nil_subset _
    | saved avatar fetched visited signalled caused =>
      exact absurd (fetched fetch here isOwner) live

def visitWeight (visit : Visit) : ℕ :=
  if visit.avatarMissing then 3 else 4

def fetchWeight (fetch : Fetch) : ℕ :=
  match fetch.phase with
  | .saveContact => 2
  | .saveAvatar => 1
  | _ => 0

/-- Rounds that are due or that the avatar of the owner will cause, each with its visits, then
the visits and fetches that are left, and the subscription. -/
def remaining (start : Database) (owner : String) (refresh : Refresh) : ℕ :=
  ((if refresh.signal.isSome then 1 else 0) +
      (if isNullOrBlank (refresh.db.getContactAvatar owner) then 1 else 0)) *
      (4 * start.threads.length + 1) +
    (refresh.visits.map visitWeight).sum + (refresh.fetches.map fetchWeight).sum +
    (if refresh.subscribed then 0 else 1)

theorem remaining_query (start : Database) (owner : String)
    (threads : refresh.db.threads = start.threads) (pending : refresh.signal = some causes) :
    remaining start owner { refresh with
      signal := none
      visits := refresh.visits ++ refresh.db.queryAllThreads.map fun thread =>
        { recipientNumber := thread.recipientNumber, causes } } <
      remaining start owner refresh := by
  have length : refresh.db.queryAllThreads.length = start.threads.length := by
    rw [Database.queryAllThreads, length_mergeSort, threads]
  have added : ((refresh.db.queryAllThreads.map fun thread =>
      ({ recipientNumber := thread.recipientNumber, causes } : Visit)).map visitWeight).sum =
        4 * start.threads.length := by
    rw [map_map]
    have constant : (visitWeight ∘ fun thread : ThreadEntity =>
        ({ recipientNumber := thread.recipientNumber, causes } : Visit)) = fun _ => 4 := rfl
    rw [constant, map_const', sum_replicate_nat, length, Nat.mul_comm]
  simp only [remaining, map_append, sum_append, added, pending, Option.isSome_none,
    Option.isSome_some, if_true, Bool.false_eq_true, if_false, Nat.add_mul, Nat.one_mul,
    Nat.zero_mul]
  omega

theorem remaining_visitNext (start : Database) (owner : String)
    (next : refresh.visits = visit :: rest) :
    remaining start owner (refresh.visitNext base64 respond visit rest) <
      remaining start owner refresh := by
  unfold visitNext
  split
  · rename_i missing
    have bound : (((refreshFetch base64 respond refresh.db visit.recipientNumber).toList).map
        fetchWeight).sum ≤ 2 := by
      cases launched : refreshFetch base64 respond refresh.db visit.recipientNumber with
      | none => simp
      | some fetch => simp [fetchWeight, (refreshFetch_some launched).2.1]
    simp only [remaining, next, map_append, sum_append, map_cons, sum_cons,
      visitWeight, missing, if_true]
    omega
  · rename_i fresh
    split
    · simp only [remaining, next, map_cons, sum_cons, visitWeight, fresh, if_true,
        Bool.false_eq_true, if_false]
      omega
    · simp only [remaining, next, map_cons, sum_cons, visitWeight, fresh,
        Bool.false_eq_true, if_false]
      omega

theorem Stage.blank_of_running (stage : Stage owner refresh) (member : fetch ∈ refresh.fetches)
    (isOwner : fetch.senderId = owner) (live : fetch.phase ≠ .done) :
    refresh.signal = none ∧ isNullOrBlank (refresh.db.getContactAvatar owner) = true := by
  cases stage with
  | before signal visits fetches =>
    rw [fetches] at member
    cases member
  | waiting signal uncaused single visited fetched =>
    exact ⟨signal, fetched fetch member isOwner live⟩
  | saved avatar fetched visited signalled caused =>
    exact absurd (fetched fetch member isOwner) live

theorem remaining_saveContact (start : Database) (stage : Stage owner refresh)
    (found : refresh.fetches[index]? = some fetch) (running : fetch.phase = .saveContact) :
    remaining start owner (contactSaved base64 refresh index fetch) <
      remaining start owner refresh := by
  have change := sum_map_set fetchWeight found { fetch with phase := fetch.afterName }
  have weight : fetchWeight fetch = 2 := by simp [fetchWeight, running]
  have smaller : fetchWeight { fetch with phase := fetch.afterName } ≤ 1 := by
    unfold fetchWeight Fetch.afterName
    split <;> simp_all
    split at * <;> simp_all
  have rounds : (if isNullOrBlank ((refresh.db.saveContact (fetch.contact base64)).getContactAvatar
      owner) then 1 else 0) ≤
      if isNullOrBlank (refresh.db.getContactAvatar owner) then 1 else 0 := by
    by_cases isOwner : owner = fetch.senderId
    · have blank := (stage.blank_of_running (mem_of_getElem? found) isOwner.symm
        (by simp [running])).2
      rw [blank]
      split <;> simp
    · rw [getContactAvatar_congr (refresh.db.findContact_saveContact_other isOwner)]
  have products := Nat.mul_le_mul_right (4 * start.threads.length + 1) rounds
  simp only [remaining, Nat.add_mul]
  omega

theorem remaining_saveAvatar (start : Database) (stage : Stage owner refresh)
    (found : refresh.fetches[index]? = some fetch) (running : fetch.phase = .saveAvatar)
    (isOwner : fetch.senderId = owner) :
    remaining start owner (avatarSaved filesDir refresh index fetch) <
        remaining start owner refresh := by
  subst isOwner
  have change := sum_map_set fetchWeight found { fetch with phase := .done }
  have weight : fetchWeight fetch = 1 := by simp [fetchWeight, running]
  have ended : fetchWeight { fetch with phase := .done } = 0 := rfl
  rcases stage.blank_of_running (mem_of_getElem? found) rfl (by simp [running])
    with ⟨signal, blank⟩
  have saved := @isNullOrBlank_saveContactAvatar filesDir refresh.db fetch.senderId
  have signalled : ∀ next : Refresh, (if next.signal.isSome then 1 else 0) ≤ 1 := by
    intro next
    split <;> simp
  have rounds := Nat.mul_le_mul_right (4 * start.threads.length + 1) (signalled
    (avatarSaved filesDir refresh index fetch))
  simp only [remaining, notifyDbChanged_db, notifyDbChanged_visits, notifyDbChanged_fetches,
    notifyDbChanged_subscribed, saved, blank, signal, Nat.add_mul, if_true,
    Bool.false_eq_true, if_false, Option.isSome_none, Nat.zero_mul, Nat.one_mul] at rounds ⊢
  omega

theorem advanceFetch_saveContact (running : fetch.phase = .saveContact)
    (nameless : isNullOrBlank fetch.response.name = true) :
    refresh.advanceFetch base64 filesDir index fetch = contactSaved base64 refresh index fetch := by
  simp only [advanceFetch, advance_saveContact running nameless, Bool.false_eq_true, if_false]

theorem advanceFetch_saveAvatar (running : fetch.phase = .saveAvatar) :
    refresh.advanceFetch base64 filesDir index fetch =
      avatarSaved filesDir refresh index fetch := by
  simp only [advanceFetch, advance_saveAvatar running, if_true]

theorem settling_step (nameless : ∀ uuid fetch, Fetched base64 respond start uuid fetch →
      isNullOrBlank fetch.response.name = true)
    (ownerOnly : ∀ uuid fetch, Fetched base64 respond start uuid fetch →
      fetch.response.avatar = true → uuid = owner) (refresh : Refresh) (event : Event)
    (next : Refresh) (settling : Settling base64 respond start owner refresh)
    (stepped : step base64 filesDir respond refresh event = some next) :
    Settling base64 respond start owner next ∧
      remaining start owner next < remaining start owner refresh := by
  cases event with
  | query =>
    rcases Option.map_eq_some_iff.mp stepped with ⟨causes, pending, rfl⟩
    exact ⟨settling_query settling pending, remaining_query start owner settling.threads pending⟩
  | subscribe =>
    simp only [step] at stepped
    split at stepped
    · rename_i allowed
      cases stepped
      refine ⟨settling_subscribe settling allowed.2, ?_⟩
      simp [remaining, allowed.1]
    · cases stepped
  | visit =>
    simp only [step] at stepped
    split at stepped
    · cases stepped
    · rename_i visit rest visits
      cases stepped
      exact ⟨settling_visitNext settling visits, remaining_visitNext start owner visits⟩
  | fetch index =>
    simp only [step] at stepped
    split at stepped
    · cases stepped
    · rename_i fetch found
      split at stepped
      · cases stepped
      · rename_i live
        cases stepped
        rcases settling.fetches fetch (mem_of_getElem? found) with
          isOver | ⟨running | ⟨running, hasAvatar⟩, first, expected, answer⟩
        · exact absurd isOver live
        · rw [advanceFetch_saveContact running (answer ▸ nameless _ first expected)]
          exact ⟨settling_saveContact settling found running expected answer,
            remaining_saveContact start settling.stage found running⟩
        · have isOwner := ownerOnly _ first expected (answer ▸ hasAvatar)
          rw [advanceFetch_saveAvatar running]
          exact ⟨settling_saveAvatar settling found running expected isOwner,
            remaining_saveAvatar start settling.stage found running isOwner⟩

theorem Settling.not_fetchesOwn (settling : Settling base64 respond start owner refresh) :
    ¬refresh.FetchesOwn base64 respond := by
  rintro ⟨visit, rest, next, missing, own, _⟩
  have here : visit ∈ refresh.visits := next ▸ mem_cons_self
  cases settling.stage with
  | before signal visits fetches =>
    rw [next] at visits
    cases visits
  | waiting signal uncaused single visited fetched =>
    rw [uncaused visit here] at own
    cases own
  | saved avatar fetched visited signalled caused =>
    have isOwner := mem_singleton.mp (caused visit here own)
    rw [visited visit here isOwner] at missing
    cases missing

theorem Quiet.exists_owner (quiet : Quiet base64 respond start) :
    ∃ owner, ∀ uuid fetch, Fetched base64 respond start uuid fetch →
      fetch.response.avatar = true → uuid = owner := by
  by_cases some_avatar : ∃ uuid fetch, Fetched base64 respond start uuid fetch ∧
      fetch.response.avatar = true
  · rcases some_avatar with ⟨owner, ownerFetch, expected, hasAvatar⟩
    exact ⟨owner, fun uuid fetch fetched avatar =>
      quiet.one_avatar uuid fetch owner ownerFetch fetched expected avatar hasAvatar⟩
  · refine ⟨"", fun uuid fetch fetched avatar => ?_⟩
    exact absurd ⟨uuid, fetch, fetched, avatar⟩ some_avatar

theorem settles_of_quiet (quiet : Quiet base64 respond start) :
    Settles base64 filesDir respond start := by
  rcases quiet.exists_owner with ⟨owner, ownerOnly⟩
  have stepping := @settling_step base64 filesDir respond start owner quiet.nameless ownerOnly
  refine ⟨Transition.not_infiniteRun_of_measure (remaining start owner) stepping
    (settling_initial start owner), fun events refresh reached => ?_⟩
  have settling := Transition.run_invariant
    (fun state event next holds stepped => (stepping state event next holds stepped).1)
    (settling_initial start owner) reached
  exact settling.not_fetchesOwn

end Refresh

end LegacySignal
