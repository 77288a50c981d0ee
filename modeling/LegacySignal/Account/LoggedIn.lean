import LegacySignal.Account.Login
import LegacySignal.Library.TaskList
import LegacySignal.Store.Refinement

/-!
# Logged in without being registered

The app takes a device for logged in once there are credentials. They are
saved as soon as the account is registered, before the prekeys are uploaded.
So every run in which a registration succeeds passes through a state in which
the app is logged in and the server has no prekeys, and stays there if an
upload fails and the app is started again.
-/

namespace LegacySignal

namespace Login

open CredentialsManager SharedPrefsStore Transition

variable {formats : StoreFormats} {keys : AccountKeys formats}

structure Holds (store : Preferences) (held : ServerKeys keys) : Prop where
  identity : ∃ pair, getIdentityKeyPair formats store = .ok pair ∧
    keys.identityPublic pair = held.identityKey
  signedPreKey : ∃ record, loadSignedPreKey formats store 1 = .ok record ∧
    keys.signedPreKeyOf record = held.signedPreKey
  kyberPreKey : ∃ record, loadKyberPreKey formats store 1 = .ok record ∧
    keys.kyberPreKeyOf record = held.kyberPreKey
  preKeys : ∃ accepted, held.preKeys = some accepted ∧
    (∀ preKey ∈ accepted, ∃ record, loadPreKey formats store preKey.keyId = .ok record ∧
      keys.preKeyOf record = preKey) ∧
    ∀ id, containsPreKey store id = true → id ∈ accepted.map PreKey.keyId

/-- Both uploads were accepted, and the store holds the keys that were accepted last. -/
def Registered (world : World keys) : Prop :=
  ∀ identity, ∃ held, world.server identity = some held ∧ Holds world.store held

/-- A start of the app that goes straight to the home screen finds a registered account. -/
def LoggedInRegistered (world : World keys) : Prop :=
  hasCredentials world.credentials = true → Registered world

def Unregistered (_ : World keys) : Event keys → Prop
  | .answer _ (.registered _ _ _) => False
  | _ => True

section Credentials

theorem hasString_insert_self (prefs : Preferences) (key text : String) :
    hasString (prefs.insert key (.string text)) key = true := by
  simp [hasString, Preferences.getString]

theorem hasString_insert_of_ne (prefs : Preferences) {key other : String} (different : key ≠ other)
    (value : PreferenceValue) :
    hasString (prefs.insert other value) key = hasString prefs key := by
  simp only [hasString, Preferences.getString, AList.lookup_insert_ne different]

theorem hasCredentials_saveAll (attempt : Attempt keys) (encrypt : Encrypt) (uuid : String)
    (time : ℕ) (credentials : Preferences) :
    hasCredentials (attempt.saveAll encrypt uuid time credentials) = true := by
  have others : ∀ key ∈ [KEY_PHONE_NUMBER, KEY_PASSWORD], key ≠ "ACI_IDENTITY" ∧
      key ≠ "PNI_IDENTITY" ∧ key ≠ "ACI_KYBER" ∧ key ≠ "PNI_KYBER" ∧ key ≠ "PROFILE_KEY" := by
    decide
  have kept : ∀ key ∈ [KEY_PHONE_NUMBER, KEY_PASSWORD],
      hasString (attempt.saveAll encrypt uuid time credentials) key =
        hasString (saveCredentials encrypt credentials uuid attempt.generatedPassword) key := by
    intro key member
    rcases others key member with ⟨aciIdentity, pniIdentity, aciKyber, pniKyber, profile⟩
    simp only [Attempt.saveAll, saveProfileKey, saveSignalKeys,
      hasString_insert_of_ne _ profile, hasString_insert_of_ne _ pniKyber,
      hasString_insert_of_ne _ aciKyber, hasString_insert_of_ne _ pniIdentity,
      hasString_insert_of_ne _ aciIdentity]
  have different : KEY_PHONE_NUMBER ≠ KEY_PASSWORD := by decide
  rw [hasCredentials, kept KEY_PHONE_NUMBER (by simp), kept KEY_PASSWORD (by simp),
    Bool.and_eq_true]
  constructor
  · rw [saveCredentials, hasString_insert_of_ne _ different]
    exact hasString_insert_self _ _ _
  · exact hasString_insert_self _ _ _

end Credentials

def Request.Uploads : Request keys → Prop
  | .uploadAci _ _ => True
  | .uploadPni _ => True
  | _ => False

/-- Nothing was saved or uploaded yet. -/
structure Quiet (world : World keys) : Prop where
  credentials : hasCredentials world.credentials = false
  tasks : ∀ task, some task ∈ world.tasks → ¬task.request.Uploads
  server : ∀ identity held, world.server identity = some held → held.preKeys = none

theorem quiet_initial : Quiet (initial keys) where
  credentials := rfl
  tasks := by
    intro task member
    cases member
  server := by
    intro identity held found
    cases found

variable {world : World keys} {request : Request keys} {encrypt : Encrypt} {next : World keys}
  {event : Event keys}

section

variable (quiet : Quiet world)

include quiet

theorem Quiet.loggedInRegistered : LoggedInRegistered world := by
  intro logged
  rw [quiet.credentials] at logged
  cases logged

theorem Quiet.enqueue (other : ¬request.Uploads) (screen : ℕ) :
    Quiet (world.enqueue screen request) := by
  refine ⟨quiet.credentials, ?_, quiet.server⟩
  intro task member
  rcases List.mem_append.mp member with before | added
  · exact quiet.tasks task before
  · cases List.mem_singleton.mp added
    exact other

theorem Quiet.retire (index : ℕ) : Quiet (world.retire index) := by
  refine ⟨quiet.credentials, ?_, quiet.server⟩
  intro task member
  rcases List.mem_or_eq_of_mem_set member with before | same
  · exact quiet.tasks task before
  · cases same

theorem Quiet.onScreen (screen : ℕ) (change : Screen → Screen) :
    Quiet (world.onScreen screen change) :=
  ⟨quiet.credentials, quiet.tasks, quiet.server⟩

theorem Quiet.accept (other : ¬request.Uploads) :
    ∀ identity held, world.server.accept request identity = some held → held.preKeys = none := by
  intro identity held found
  cases request with
  | registerAccount attempt =>
    cases identity <;> cases found <;> dsimp only <;> apply Option.bind_eq_none_iff.mpr <;>
      intro before isBefore <;> exact quiet.server _ before isBefore
  | uploadAci aciRequest pniRequest => exact absurd True.intro other
  | uploadPni pniRequest => exact absurd True.intro other
  | createSession phone => exact quiet.server identity held found
  | requestSmsCode => exact quiet.server identity held found
  | patchSession => exact quiet.server identity held found
  | verifySmsCode sessionId phone => exact quiet.server identity held found

theorem Quiet.callback {screen index : ℕ} {answer : Answer keys} (other : ¬request.Uploads)
    (unregistered : Unregistered world (.answer index answer))
    (called : world.callback encrypt screen request answer = some next) : Quiet next := by
  unfold World.callback at called
  split at called
  · cases called
    exact (quiet.onScreen _ _).enqueue id _
  · cases called
    exact quiet.onScreen _ _
  · cases called
    exact quiet.onScreen _ _
  · cases called
    exact quiet
  · cases called
    exact quiet
  · cases called
    exact quiet
  · cases called
    exact quiet.enqueue id _
  · cases called
    exact quiet
  · cases called
    exact quiet
  · split at called
    · rcases Option.map_eq_some_iff.mp called with ⟨sessionId, _, rfl⟩
      exact quiet.enqueue id _
    · cases called
      exact quiet.onScreen _ _
  · cases called
    exact quiet.onScreen _ _
  · cases called
    exact quiet.onScreen _ _
  · exact unregistered.elim
  · cases called
    exact quiet.onScreen _ _
  · cases called
    exact quiet.onScreen _ _
  · exact absurd True.intro other
  · exact absurd True.intro other
  · exact absurd True.intro other
  · exact absurd True.intro other
  · exact absurd True.intro other
  · exact absurd True.intro other
  · cases called

theorem Quiet.step (unregistered : Unregistered world event)
    (stepped : step encrypt world event = some next) : Quiet next := by
  cases event with
  | start savedSessionId =>
    cases stepped
    unfold World.onCreate
    split
    · exact quiet
    · exact ⟨quiet.credentials, quiet.tasks, quiet.server⟩
  | requestSms screen phone =>
    simp only [Login.step] at stepped
    split at stepped
    · split at stepped
      · cases stepped
        exact (quiet.onScreen _ _).enqueue id _
      · cases stepped
    · cases stepped
  | solveCaptcha screen =>
    simp only [Login.step] at stepped
    split at stepped
    · split at stepped
      · cases stepped
        exact quiet.enqueue id _
      · cases stepped
    · cases stepped
  | login screen phone code =>
    simp only [Login.step] at stepped
    split at stepped
    · split at stepped
      · split at stepped
        · cases stepped
          exact (quiet.onScreen _ _).enqueue id _
        · cases stepped
      · cases stepped
    · cases stepped
  | accept index =>
    simp only [Login.step] at stepped
    split at stepped
    · rename_i task found
      have other := quiet.tasks task (List.mem_of_getElem? found)
      split at stepped
      · cases stepped
      · cases stepped
        refine ⟨quiet.credentials, ?_, quiet.accept other⟩
        intro accepted member
        rcases List.mem_or_eq_of_mem_set member with before | same
        · exact quiet.tasks accepted before
        · rcases Option.map_eq_some_iff.mp same.symm with ⟨screen, _, rfl⟩
          exact other
    · cases stepped
  | lose index =>
    simp only [Login.step] at stepped
    split at stepped
    · cases stepped
      exact quiet.retire index
    · cases stepped
  | answer index answer =>
    simp only [Login.step] at stepped
    split at stepped
    · rename_i request screen accepted found
      have other := quiet.tasks _ (List.mem_of_getElem? found)
      split at stepped
      · exact (quiet.retire index).callback other unregistered stepped
      · cases stepped
    · cases stepped
  | kill =>
    cases stepped
    refine ⟨quiet.credentials, ?_, quiet.server⟩
    intro task member
    rcases List.mem_map.mp member with ⟨before, present, same⟩
    rcases Option.bind_eq_some_iff.mp same with ⟨alive, rfl, kept⟩
    split at kept
    · cases kept
    · cases kept
      exact quiet.tasks alive present

/-- Once a registration is answered with success, there are credentials and no prekeys. -/
theorem Quiet.not_loggedInRegistered (registered : ¬Unregistered world event)
    (stepped : Login.step encrypt world event = some next) : ¬LoggedInRegistered next := by
  cases event with
  | answer index answer =>
    cases answer with
    | registered uuid time draw =>
      simp only [Login.step] at stepped
      split at stepped
      · rename_i request screen accepted found
        split at stepped
        · cases request with
          | registerAccount attempt =>
            cases stepped
            intro holds
            have logged : hasCredentials (attempt.saveAll encrypt (uuid.getD attempt.phone)
              time world.credentials) = true := hasCredentials_saveAll _ _ _ _ _
            rcases holds logged .aci with ⟨held, isHeld, holdsKeys⟩
            rcases holdsKeys.preKeys with ⟨accepted, uploaded, _⟩
            cases (quiet.server .aci held isHeld).symm.trans uploaded
          | _ => cases stepped
        · cases stepped
      · cases stepped
    | _ => exact absurd True.intro registered
  | _ => exact absurd True.intro registered

end

/-- The app is never logged in without being registered exactly as long as no registration
succeeds. -/
theorem loggedIn_registered_iff (encrypt : Encrypt) {events : List (Event keys)}
    {final : World keys}
    (reached : run (step encrypt) (initial keys) events = some final) :
    Always (step encrypt) LoggedInRegistered (initial keys) events ↔
      Meets (step encrypt) Unregistered (initial keys) events := by
  apply always_iff_meets (fun _ _ _ quiet => quiet.step) _ quiet_initial
    quiet_initial.loggedInRegistered reached
  intro world event next quiet _ stepped
  constructor
  · intro holds
    by_contra registered
    exact quiet.not_loggedInRegistered registered stepped holds
  · intro unregistered
    exact (quiet.step unregistered stepped).loggedInRegistered

/-- Keys of one byte. A record has the key, the signature and as many zeros as the id counts. -/
def byteKeys : AccountKeys .bytes where
  ECKeyPair := UInt8
  KEMKeyPair := UInt8
  PublicKey := UInt8
  KemPublicKey := UInt8
  Signature := UInt8
  identityPublic := fun pair => pair.headD 0
  ecPublic := id
  kemPublic := id
  sign := fun pair publicKey => pair.headD 0 + publicKey
  signKem := fun pair publicKey => pair.headD 0 + publicKey
  preKeyRecord := fun keyId pair => pair :: List.replicate keyId.toBitVec.toNat 0
  signedPreKeyRecord := fun keyId _ pair signature =>
    pair :: signature :: List.replicate keyId.toBitVec.toNat 0
  kyberPreKeyRecord := fun keyId _ pair signature =>
    pair :: signature :: List.replicate keyId.toBitVec.toNat 0
  preKeyOf := fun record => ⟨Int32.ofNat record.tail.length, record.headD 0⟩
  signedPreKeyOf := fun record =>
    ⟨Int32.ofNat record.tail.tail.length, record.headD 0, record.tail.headD 0⟩
  kyberPreKeyOf := fun record =>
    ⟨Int32.ofNat record.tail.tail.length, record.headD 0, record.tail.headD 0⟩
  preKeyOf_record := by
    intro keyId pair
    simp
  signedPreKeyOf_record := by
    intro keyId time pair signature
    simp
  kyberPreKeyOf_record := by
    intro keyId time pair signature
    simp

/-- The keys that one login draws. -/
def firstAttempt : Attempt byteKeys :=
  ⟨"session", "+100", "password", [1], (2 : UInt8), (3 : UInt8), "profile", 4, 5⟩

def refusedLogin : List (Event byteKeys) :=
  [.start (some "session"), .login 0 "+100" "1234", .accept 0,
    .answer 0 (.verified true firstAttempt), .answer 1 .refused]

theorem loggedIn_registered_refusedLogin :
    ∃ final, run (step id) (initial byteKeys) refusedLogin = some final ∧
      (Always (step id) LoggedInRegistered (initial byteKeys) refusedLogin ↔
        Meets (step id) Unregistered (initial byteKeys) refusedLogin) :=
  ⟨_, rfl, loggedIn_registered_iff id rfl⟩

/-- The registration of a first login succeeds, its upload fails, and the app is stopped. -/
def failedUpload : List (Event byteKeys) :=
  [.start (some "session"), .login 0 "+100" "1234", .accept 0,
    .answer 0 (.verified true firstAttempt), .accept 1,
    .answer 1 (.registered (some "uuid") 0 fun _ => (6 : UInt8)), .answer 2 .failure, .kill]

theorem loggedIn_without_preKeys :
    ∃ final, run (step id) (initial byteKeys) failedUpload = some final ∧
      ¬LoggedInRegistered final := by
  refine ⟨_, rfl, ?_⟩
  intro holds
  rcases holds (hasCredentials_saveAll _ _ _ _ _) .aci with ⟨held, isHeld, holdsKeys⟩
  cases isHeld
  rcases holdsKeys.preKeys with ⟨accepted, uploaded, _⟩
  cases uploaded

end Login

end LegacySignal
