import LegacySignal.Library.Transition
import LegacySignal.Store.Maps

/-!
# Registration of an account

`LoginActivity` and `CredentialsManager`. A login verifies the code, draws a
new set of keys, registers the account with them, saves the credentials and
the keys, and uploads the prekeys for both identities of the account. Every
request can fail, be refused, or be accepted by the server without the answer
coming back; the process can be killed at any time.

The callback of a request belongs to the activity that sent it, also when
another one was started since. Public keys stand for their Base64 texts.
-/

namespace LegacySignal

open SharedPrefsStore

/-- `ECSignedPreKey` -/
structure ECSignedPreKey (PublicKey Signature : Type) where
  keyId : Int32
  publicKey : PublicKey
  signature : Signature

structure KEMSignedPreKey (PublicKey Signature : Type) where
  keyId : Int32
  publicKey : PublicKey
  signature : Signature

/-- `PreKey` -/
structure PreKey (PublicKey : Type) where
  keyId : Int32
  publicKey : PublicKey

/-- The keys of an account, and the records that the protocol store keeps of them. -/
structure AccountKeys (formats : StoreFormats) where
  ECKeyPair : Type
  KEMKeyPair : Type
  PublicKey : Type
  KemPublicKey : Type
  Signature : Type
  identityPublic : formats.IdentityKeyPair → PublicKey
  ecPublic : ECKeyPair → PublicKey
  kemPublic : KEMKeyPair → KemPublicKey
  /-- `calculateSignature` of the two kinds of prekeys. -/
  sign : formats.IdentityKeyPair → PublicKey → Signature
  signKem : formats.IdentityKeyPair → KemPublicKey → Signature
  preKeyRecord : Int32 → ECKeyPair → formats.PreKeyRecord
  signedPreKeyRecord : Int32 → ℕ → ECKeyPair → Signature → formats.SignedPreKeyRecord
  kyberPreKeyRecord : Int32 → ℕ → KEMKeyPair → Signature → formats.KyberPreKeyRecord
  /-- What a record says of its public key. -/
  preKeyOf : formats.PreKeyRecord → PreKey PublicKey
  signedPreKeyOf : formats.SignedPreKeyRecord → ECSignedPreKey PublicKey Signature
  kyberPreKeyOf : formats.KyberPreKeyRecord → KEMSignedPreKey KemPublicKey Signature
  preKeyOf_record : ∀ id pair, preKeyOf (preKeyRecord id pair) = ⟨id, ecPublic pair⟩
  signedPreKeyOf_record : ∀ id time pair signature,
    signedPreKeyOf (signedPreKeyRecord id time pair signature) = ⟨id, ecPublic pair, signature⟩
  kyberPreKeyOf_record : ∀ id time pair signature,
    kyberPreKeyOf (kyberPreKeyRecord id time pair signature) = ⟨id, kemPublic pair, signature⟩

namespace CredentialsManager

abbrev Encrypt := String → String

def KEY_PHONE_NUMBER : String := "PHONE_NUMBER"

def KEY_PASSWORD : String := "PASSWORD"

def saveCredentials (encrypt : Encrypt) (prefs : Preferences) (phoneNumber password : String) :
    Preferences :=
  (prefs.insert KEY_PHONE_NUMBER (.string (encrypt phoneNumber))).insert KEY_PASSWORD
    (.string (encrypt password))

def saveSignalKeys (prefs : Preferences)
    (aciIdentity pniIdentity aciKyber pniKyber : PreferenceValue) : Preferences :=
  (((prefs.insert "ACI_IDENTITY" aciIdentity).insert "PNI_IDENTITY" pniIdentity).insert
    "ACI_KYBER" aciKyber).insert "PNI_KYBER" pniKyber

def saveProfileKey (encrypt : Encrypt) (prefs : Preferences) (profileKey : String) :
    Preferences :=
  prefs.insert "PROFILE_KEY" (.string (encrypt profileKey))

def hasString (prefs : Preferences) (key : String) : Bool :=
  match prefs.getString key with
  | .ok (some _) => true
  | _ => false

def hasCredentials (prefs : Preferences) : Bool :=
  hasString prefs KEY_PHONE_NUMBER && hasString prefs KEY_PASSWORD

end CredentialsManager

namespace Login

open CredentialsManager

variable {formats : StoreFormats}

/-- The two identities of an account. -/
inductive Identity where
  | aci
  | pni
deriving DecidableEq, Repr

/-- What a login draws once the code is verified. -/
structure Attempt (keys : AccountKeys formats) where
  sessionId : String
  phone : String
  generatedPassword : String
  identityKeyPair : formats.IdentityKeyPair
  signedPreKeyKeyPair : keys.ECKeyPair
  kyberKeyPair : keys.KEMKeyPair
  profileKey : String
  regId : Int32
  pniRegId : Int32

structure RegistrationRequest (keys : AccountKeys formats) where
  sessionId : String
  aciIdentityKey : keys.PublicKey
  pniIdentityKey : keys.PublicKey
  registrationId : Int32
  pniRegistrationId : Int32
  aciSignedPreKey : ECSignedPreKey keys.PublicKey keys.Signature
  pniSignedPreKey : ECSignedPreKey keys.PublicKey keys.Signature
  aciPqLastResortPreKey : KEMSignedPreKey keys.KemPublicKey keys.Signature
  pniPqLastResortPreKey : KEMSignedPreKey keys.KemPublicKey keys.Signature

structure PreKeyUploadRequest (keys : AccountKeys formats) where
  signedPreKey : ECSignedPreKey keys.PublicKey keys.Signature
  preKeys : List (PreKey keys.PublicKey)
  pqLastResortPreKey : Option (KEMSignedPreKey keys.KemPublicKey keys.Signature)

variable {keys : AccountKeys formats}

namespace Attempt

def signedPreKey (attempt : Attempt keys) : ECSignedPreKey keys.PublicKey keys.Signature :=
  let publicKey := keys.ecPublic attempt.signedPreKeyKeyPair
  ⟨1, publicKey, keys.sign attempt.identityKeyPair publicKey⟩

def kyberPreKey (attempt : Attempt keys) : KEMSignedPreKey keys.KemPublicKey keys.Signature :=
  let publicKey := keys.kemPublic attempt.kyberKeyPair
  ⟨1, publicKey, keys.signKem attempt.identityKeyPair publicKey⟩

def regData (attempt : Attempt keys) : RegistrationRequest keys where
  sessionId := attempt.sessionId
  aciIdentityKey := keys.identityPublic attempt.identityKeyPair
  pniIdentityKey := keys.identityPublic attempt.identityKeyPair
  registrationId := attempt.regId
  pniRegistrationId := attempt.pniRegId
  aciSignedPreKey := attempt.signedPreKey
  pniSignedPreKey := attempt.signedPreKey
  aciPqLastResortPreKey := attempt.kyberPreKey
  pniPqLastResortPreKey := attempt.kyberPreKey

def signedPreKeyRecord (attempt : Attempt keys) (time : ℕ) : formats.SignedPreKeyRecord :=
  keys.signedPreKeyRecord 1 time attempt.signedPreKeyKeyPair attempt.signedPreKey.signature

def kyberPreKeyRecord (attempt : Attempt keys) (time : ℕ) : formats.KyberPreKeyRecord :=
  keys.kyberPreKeyRecord 1 time attempt.kyberKeyPair attempt.kyberPreKey.signature

def uploadRequest (attempt : Attempt keys) (preKeys : List (PreKey keys.PublicKey)) :
    PreKeyUploadRequest keys :=
  ⟨attempt.signedPreKey, preKeys, some attempt.kyberPreKey⟩

/-- What is saved besides the prekeys. -/
def saveKeys (attempt : Attempt keys) (time : ℕ) (store : Preferences) : Preferences :=
  let identified := saveIdentityKeyPair formats store attempt.identityKeyPair
  let registered := saveLocalRegistrationId identified attempt.regId
  let signed := storeSignedPreKey formats registered 1
    (attempt.signedPreKeyRecord time)
  storeKyberPreKey formats signed 1 (attempt.kyberPreKeyRecord time)

def saveAll (attempt : Attempt keys) (encrypt : Encrypt) (uuid : String) (time : ℕ)
    (credentials : Preferences) : Preferences :=
  let saved := saveCredentials encrypt credentials uuid attempt.generatedPassword
  let identity := encode formats formats.identityKeyPair attempt.identityKeyPair
  let kyber := encode formats formats.kyberPreKeyRecord
    (attempt.kyberPreKeyRecord time)
  saveProfileKey encrypt (saveSignalKeys saved identity identity kyber kyber) attempt.profileKey

end Attempt

def preKeyIds : List Int32 := (List.range 100).map fun index => Int32.ofNat (index + 1)

/-- The loop that draws, stores and lists the one-time prekeys. -/
def storePreKeys (keys : AccountKeys formats) (draw : Int32 → keys.ECKeyPair) :
    List Int32 → Preferences → List (PreKey keys.PublicKey) →
      Preferences × List (PreKey keys.PublicKey)
  | [], store, listed => (store, listed)
  | id :: ids, store, listed =>
    storePreKeys keys draw ids
      (storePreKey formats store id (keys.preKeyRecord id (draw id)))
      (listed ++ [⟨id, keys.ecPublic (draw id)⟩])

/-- The requests, each with what its callback needs. -/
inductive Request (keys : AccountKeys formats) where
  | createSession (phone : String)
  | requestSmsCode
  | patchSession
  | verifySmsCode (sessionId phone : String)
  | registerAccount (attempt : Attempt keys)
  | uploadAci (aciRequest pniRequest : PreKeyUploadRequest keys)
  | uploadPni (pniRequest : PreKeyUploadRequest keys)

/-- The keys of one identity as the server accepted them last. -/
structure ServerKeys (keys : AccountKeys formats) where
  identityKey : keys.PublicKey
  signedPreKey : ECSignedPreKey keys.PublicKey keys.Signature
  kyberPreKey : KEMSignedPreKey keys.KemPublicKey keys.Signature
  /-- None until an upload was accepted. -/
  preKeys : Option (List (PreKey keys.PublicKey))

/-- What the server has accepted, none before there is an account. -/
abbrev Server (keys : AccountKeys formats) := Identity → Option (ServerKeys keys)

namespace Server

def register (server : Server keys) (request : RegistrationRequest keys) : Server keys
  | .aci => some ⟨request.aciIdentityKey, request.aciSignedPreKey,
      request.aciPqLastResortPreKey, (server .aci).bind ServerKeys.preKeys⟩
  | .pni => some ⟨request.pniIdentityKey, request.pniSignedPreKey,
      request.pniPqLastResortPreKey, (server .pni).bind ServerKeys.preKeys⟩

def upload (server : Server keys) (identity : Identity) (request : PreKeyUploadRequest keys) :
    Server keys :=
  Function.update server identity ((server identity).map fun held =>
    { held with
      signedPreKey := request.signedPreKey
      kyberPreKey := request.pqLastResortPreKey.getD held.kyberPreKey
      preKeys := some request.preKeys })

def accept (server : Server keys) : Request keys → Server keys
  | .registerAccount attempt => server.register attempt.regData
  | .uploadAci request _ => server.upload .aci request
  | .uploadPni request => server.upload .pni request
  | _ => server

end Server

/-- An activity; a pressed button is disabled until its request has failed. -/
structure Screen where
  currentSessionId : Option String
  requestEnabled : Bool
  loginEnabled : Bool
  finished : Bool
deriving DecidableEq, Repr

structure Task (keys : AccountKeys formats) where
  request : Request keys
  /-- The activity whose callback it is, none once the process was killed. -/
  screen : Option ℕ
  /-- The server has accepted the request. -/
  accepted : Bool

structure World (keys : AccountKeys formats) where
  credentials : Preferences
  store : Preferences
  server : Server keys
  screens : List Screen
  /-- The requests that are under way, none once they are over. -/
  tasks : List (Option (Task keys))

/-- How a request ends, with what its callback draws. -/
inductive Answer (keys : AccountKeys formats) where
  | failure
  | refused
  | sessionCreated (id : String)
  | done
  | verified (verified : Bool) (attempt : Attempt keys)
  | registered (uuid : Option String) (time : ℕ) (draw : Int32 → keys.ECKeyPair)

inductive Event (keys : AccountKeys formats) where
  | start (savedSessionId : Option String)
  | requestSms (screen : ℕ) (phone : String)
  | solveCaptcha (screen : ℕ)
  | login (screen : ℕ) (phone code : String)
  /-- The server accepts the request. -/
  | accept (task : ℕ)
  /-- The request of a killed process never arrives. -/
  | lose (task : ℕ)
  | answer (task : ℕ) (answer : Answer keys)
  | kill

namespace World

def enqueue (world : World keys) (screen : ℕ) (request : Request keys) : World keys :=
  { world with tasks := world.tasks ++ [some ⟨request, some screen, false⟩] }

def retire (world : World keys) (task : ℕ) : World keys :=
  { world with tasks := world.tasks.set task none }

def onScreen (world : World keys) (screen : ℕ) (change : Screen → Screen) : World keys :=
  { world with screens := world.screens.modify screen change }

def enableLogin (world : World keys) (screen : ℕ) : World keys :=
  world.onScreen screen fun shown => { shown with loginEnabled := true }

/-- `onCreate`: with credentials the activity goes straight on to the home screen. -/
def onCreate (world : World keys) (savedSessionId : Option String) : World keys :=
  if hasCredentials world.credentials then world
  else { world with screens := world.screens ++ [⟨savedSessionId, true, true, false⟩] }

def onRegistered (encrypt : Encrypt) (world : World keys) (screen : ℕ) (attempt : Attempt keys)
    (uuid : Option String) (time : ℕ) (draw : Int32 → keys.ECKeyPair) : World keys :=
  let saved := attempt.saveAll encrypt (uuid.getD attempt.phone) time world.credentials
  let (store, preKeys) := storePreKeys keys draw preKeyIds (attempt.saveKeys time world.store) []
  { world with credentials := saved, store := store }.enqueue screen
    (.uploadAci (attempt.uploadRequest preKeys) (attempt.uploadRequest preKeys))

/-- What a callback does. No answer of another kind comes. -/
def callback (encrypt : Encrypt) (world : World keys) (screen : ℕ) :
    Request keys → Answer keys → Option (World keys)
  | .createSession _, .sessionCreated id =>
    some ((world.onScreen screen fun shown => { shown with currentSessionId := some id }).enqueue
      screen .requestSmsCode)
  | .createSession _, .refused | .createSession _, .failure =>
    some (world.onScreen screen fun shown => { shown with requestEnabled := true })
  -- A refused request for the message may open the captcha, which is solved later or not at all.
  | .requestSmsCode, .done | .requestSmsCode, .refused | .requestSmsCode, .failure => some world
  | .patchSession, .done => some (world.enqueue screen .requestSmsCode)
  | .patchSession, .refused | .patchSession, .failure => some world
  | .verifySmsCode _ phone, .verified verified attempt =>
    if verified then
      ((world.screens[screen]?).bind Screen.currentSessionId).map fun sessionId =>
        world.enqueue screen
          (.registerAccount { attempt with sessionId := sessionId, phone := phone })
    else some (world.enableLogin screen)
  | .verifySmsCode _ _, .refused | .verifySmsCode _ _, .failure => some (world.enableLogin screen)
  | .registerAccount attempt, .registered uuid time draw =>
    some (world.onRegistered encrypt screen attempt uuid time draw)
  | .registerAccount _, .refused | .registerAccount _, .failure => some (world.enableLogin screen)
  | .uploadAci _ pniRequest, .done => some (world.enqueue screen (.uploadPni pniRequest))
  | .uploadAci _ _, .refused | .uploadAci _ _, .failure => some (world.enableLogin screen)
  | .uploadPni _, .done =>
    some (world.onScreen screen fun shown => { shown with finished := true })
  | .uploadPni _, .refused | .uploadPni _, .failure => some (world.enableLogin screen)
  | _, _ => none

end World

/-- A request that was accepted is not refused, and only an accepted one is answered with success;
the answer can be lost in both cases. -/
def Answer.fits (accepted : Bool) : Answer keys → Bool
  | .failure => true
  | .refused => !accepted
  | _ => accepted

def step (encrypt : Encrypt) (world : World keys) : Event keys → Option (World keys)
  | .start savedSessionId => some (world.onCreate savedSessionId)
  | .requestSms screen phone =>
    match world.screens[screen]? with
    | some shown =>
      if shown.finished = false ∧ shown.requestEnabled ∧ 5 ≤ phone.length then
        let pressed := world.onScreen screen fun shown => { shown with requestEnabled := false }
        some (pressed.enqueue screen (.createSession phone))
      else none
    | none => none
  | .solveCaptcha screen =>
    match world.screens[screen]? with
    | some shown =>
      if shown.finished = false ∧ shown.currentSessionId.isSome then
        some (world.enqueue screen .patchSession)
      else none
    | none => none
  | .login screen phone code =>
    match world.screens[screen]? with
    | some shown =>
      match shown.currentSessionId with
      | some sessionId =>
        if shown.finished = false ∧ shown.loginEnabled ∧ code ≠ "" then
          let pressed := world.onScreen screen fun shown => { shown with loginEnabled := false }
          some (pressed.enqueue screen (.verifySmsCode sessionId phone))
        else none
      | none => none
    | none => none
  | .accept index =>
    match world.tasks[index]? with
    | some (some task) =>
      if task.accepted then none
      else
        some { world with
          server := world.server.accept task.request
          tasks := world.tasks.set index
            (task.screen.map fun screen => ⟨task.request, some screen, true⟩) }
    | _ => none
  | .lose index =>
    match world.tasks[index]? with
    | some (some ⟨_, none, _⟩) => some (world.retire index)
    | _ => none
  | .answer index answer =>
    match world.tasks[index]? with
    | some (some ⟨request, some screen, accepted⟩) =>
      if answer.fits accepted then (world.retire index).callback encrypt screen request answer
      else none
    | _ => none
  | .kill =>
    some { world with
      screens := []
      tasks := world.tasks.map fun task =>
        task.bind fun task => if task.accepted then none else some { task with screen := none } }

def initial (keys : AccountKeys formats) : World keys where
  credentials := ∅
  store := ∅
  server := fun _ => none
  screens := []
  tasks := []

end Login

end LegacySignal
