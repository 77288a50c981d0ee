import LegacySignal.Send.Reach

/-!
# Text messages and images

When the two ways to send agree: on their requests, on the sender certificate,
on the devices, on the deleted sessions and on the result. The encrypted
contents differ, but nothing that is decided depends on them; what is left is
the certificate, which only one of the two checks.
-/

namespace LegacySignal

open List

variable {P : Primitives}

def encryptionOutline {Identity : Type} (result : CiphertextMessage P × SessionState P × Identity) :
    CiphertextMessageType × SessionState P × Identity :=
  (messageTypeOf result.1, result.2)

theorem wrapMessage_outline (state : SessionState P) (address : SignalProtocolAddress) (now : ℕ)
    (message other : SignalMessage P) :
    (state.wrapMessage address now message).map messageTypeOf =
      (state.wrapMessage address now other).map messageTypeOf := by
  unfold SessionState.wrapMessage
  cases state.pendingPreKey with
  | none => rfl
  | some items =>
    dsimp only
    split_ifs <;> rfl

theorem bind_of_types {Rest : Type} {first second : Except SignalProtocolError
      (CiphertextMessage P)} (types : first.map messageTypeOf = second.map messageTypeOf)
    (rest : Rest) :
    (first >>= fun message => Except.ok (messageTypeOf message, rest)) =
      (second >>= fun message => Except.ok (messageTypeOf message, rest)) := by
  have mapped := congrArg (Except.map fun messageType => (messageType, rest)) types
  cases first <;> cases second <;> exact mapped

theorem encryptMessage_outline (state : SessionState P) (address : SignalProtocolAddress)
    (now : ℕ) (random : P.Random) (ptext other : P.Bytes) :
    (state.encryptMessage address ptext now random).map encryptionOutline =
      (state.encryptMessage address other now random).map encryptionOutline := by
  unfold SessionState.encryptMessage
  simp only [Result.map_bind]
  apply Result.bind_congr
  intro chain
  apply Result.bind_congr
  rintro ⟨pqState, pqrMsg, pqrKey⟩
  dsimp only
  apply Result.bind_congr
  intro keys
  apply Result.bind_congr
  intro fits
  apply Result.bind_congr
  intro identity
  exact bind_of_types (wrapMessage_outline state address now _ _) _

section operations

variable {Store Output Other : Type} [ProtocolStore P Store]

theorem commitResult_mapOutput (store : Store) (address : SignalProtocolAddress)
    (function : Output → Other) (result : Except SignalProtocolError (SessionUpdate P Output)) :
    commitResult store address (result.map (SessionUpdate.mapOutput function)) =
      (commitResult store address result).map (Except.map function) id := by
  rcases result with error | ⟨output, record, identity, _ | ⟨used, baseKey⟩⟩
  · rfl
  · rfl
  · simp only [Except.map, SessionUpdate.mapOutput, commitResult, commit]
    cases recordPreKeysUsed (ProtocolStore.saveIdentity store address identity) used baseKey <;> rfl

theorem encryptUpdate_outline (store : Store) (address : SignalProtocolAddress) (now : ℕ)
    (random : P.Random) (record : SessionRecord P) (ptext other : P.Bytes) :
    (encryptUpdate store address ptext now random record).map
        (SessionUpdate.mapOutput messageTypeOf) =
      (encryptUpdate store address other now random record).map
        (SessionUpdate.mapOutput messageTypeOf) := by
  unfold encryptUpdate
  simp only [Result.map_bind]
  apply Result.bind_congr
  intro state
  -- The rest of the function, on the outline of the encryption.
  let rest : CiphertextMessageType × SessionState P × P.PublicKey →
      Except SignalProtocolError (SessionUpdate P CiphertextMessageType) := fun outline => do
    Result.ensure (ProtocolStore.isTrustedIdentity store address outline.2.2 .sending)
      (.untrustedIdentity address)
    .ok ⟨outline.1, { record with currentSession := some outline.2.1 }, outline.2.2, none⟩
  have same := congrArg (· >>= rest) (encryptMessage_outline state address now random ptext other)
  simp only [Result.bind_map] at same
  exact same

theorem messageEncrypt_outline (store : Store) (address : SignalProtocolAddress) (now : ℕ)
    (random : P.Random) (ptext other : P.Bytes) :
    (messageEncrypt store address ptext now random).map (Except.map messageTypeOf) id =
      (messageEncrypt store address other now random).map (Except.map messageTypeOf) id := by
  unfold messageEncrypt
  rw [← commitResult_mapOutput, ← commitResult_mapOutput]
  apply congrArg
  change Except.map _ (loadExisting store address >>= _) =
    Except.map _ (loadExisting store address >>= _)
  rw [Result.map_bind, Result.map_bind]
  apply Result.bind_congr
  intro record
  exact encryptUpdate_outline store address now random record ptext other

end operations

namespace MessageSender

open SharedPrefsStore Steps

variable {formats : SignalFormats P} {sender : SenderFormats P} {Remote : Type}

/-- The event without the encrypted contents. -/
def outline (event : SendEvent sender.Certificate (OutgoingPushMessage P sender.Certificate)) :
    SendEvent sender.Certificate PushHeader :=
  event.map OutgoingPushMessage.header

/-- Two calls that have done the same so far, apart from the encrypted contents; since both had
done `past`, they used no certificates but allowed ones. -/
structure Alike (allowed : sender.Certificate → Prop)
    (past : List (SendEvent sender.Certificate PushHeader))
    (state other : SendState formats sender Remote) : Prop where
  store : state.store = other.store
  server : state.server = other.server
  trace : state.trace.map outline = other.trace.map outline
  since : ∃ since, state.trace.map outline = past ++ since ∧
    ∀ certificate, .useCertificate (some certificate) ∈ since → allowed certificate

variable {allowed : sender.Certificate → Prop}
  {past : List (SendEvent sender.Certificate PushHeader)} {Value : Type}

theorem Alike.refl (state : SendState formats sender Remote) :
    Alike allowed (state.trace.map outline) state state :=
  ⟨rfl, rfl, rfl, [], by simp⟩

theorem Alike.past_extended {state other : SendState formats sender Remote}
    (alike : Alike allowed past state other) : past <+: state.trace.map outline := by
  rcases alike.since with ⟨since, whole, _⟩
  exact ⟨since, whole.symm⟩

theorem lockstep_record
    {event other : SendEvent sender.Certificate (OutgoingPushMessage P sender.Certificate)}
    (same : outline event = outline other)
    (permitted : ∀ certificate, outline event = .useCertificate (some certificate) →
      allowed certificate) :
    Lockstep (Alike allowed past) Eq (record event : Sends formats sender Remote Unit)
      (record other) := by
  intro state otherState alike
  refine ⟨rfl, alike.store, alike.server, ?_, ?_⟩
  · simp only [record, map_append, alike.trace, map_cons, map_nil, same]
  · rcases alike.since with ⟨since, whole, sinceAllowed⟩
    refine ⟨since ++ [outline event], ?_, ?_⟩
    · simp only [record, map_append, whole, append_assoc, map_cons, map_nil]
    · intro certificate used
      rcases mem_append.mp used with earlier | here
      · exact sinceAllowed certificate earlier
      · exact permitted certificate (mem_singleton.mp here).symm

theorem lockstep_ask {Body : Type} (request : Remote → Answer Body × Remote) :
    Lockstep (Alike allowed past) Eq (ask request : Sends formats sender Remote (Answer Body))
      (ask request) := by
  intro state other alike
  refine ⟨?_, alike.store, ?_, alike.trace, alike.since⟩
  · simp only [ask, alike.server]
    rfl
  · simp only [ask, alike.server]

theorem lockstep_ofResult (result : Except SendException Value) :
    Lockstep (Alike allowed past) Eq (ofResult result : Sends formats sender Remote Value)
      (ofResult result) :=
  lockstep_ofExcept _

theorem lockstep_onStore {Value Other Outline : Type}
    {operation : AppStore formats → Except SignalProtocolError Value × AppStore formats}
    {other : AppStore formats → Except SignalProtocolError Other × AppStore formats}
    {function : Value → Outline} {otherFunction : Other → Outline}
    (same : ∀ store, (operation store).map (Except.map function) id =
      (other store).map (Except.map otherFunction) id) :
    Lockstep (Alike allowed past)
      (fun value otherValue => function value = otherFunction otherValue)
      (onStore operation : Sends formats sender Remote Value) (onStore other) := by
  intro state otherState alike
  have ends := same otherState.store
  unfold onStore
  rw [alike.store]
  revert ends
  rcases operation otherState.store with ⟨error | value, after⟩ <;>
    rcases other otherState.store with ⟨otherError | otherValue, otherAfter⟩ <;>
    intro ends <;>
    cases congrArg Prod.snd ends
  · cases congrArg Prod.fst ends
    exact ⟨rfl, rfl, alike.server, alike.trace, alike.since⟩
  · cases congrArg Prod.fst ends
  · cases congrArg Prod.fst ends
  · exact ⟨Except.ok.inj (congrArg Prod.fst ends), rfl, alike.server, alike.trace, alike.since⟩

theorem lockstep_onStore_self
    (operation : AppStore formats → Except SignalProtocolError Value × AppStore formats) :
    Lockstep (Alike allowed past) Eq (onStore operation : Sends formats sender Remote Value)
      (onStore operation) := by
  intro state other alike
  unfold onStore
  rw [alike.store]
  refine ⟨?_, rfl, alike.server, alike.trace, alike.since⟩
  cases (operation other.store).1 with
  | error error => exact rfl
  | ok value => exact rfl

section call

variable (api : Server Remote) (now : ℕ) (destination : String) {certBytes : Option (List UInt8)}
  {certificateBytes : Sends formats sender Remote (Option (List UInt8))}
  {state : SendState formats sender Remote} {number : ℕ} {after : SendState formats sender Remote}
  {certificate : sender.Certificate} {otherState : SendState formats sender Remote}
  {response : Option PreKeyResponse}

theorem lockstep_fetchPreKeys :
    Lockstep (Alike allowed past) Eq
      (fetchPreKeys api destination : Sends formats sender Remote PreKeyResponse)
      (fetchPreKeys api destination) := by
  apply (lockstep_record rfl nofun).bind
  intro _ _ _
  apply (lockstep_ask _).bind
  rintro answer _ rfl
  cases answer with
  | failed => exact lockstep_stop _
  | unsuccessful code => exact lockstep_stop _
  | successful body =>
    cases body with
    | none => exact lockstep_stop _
    | some response => exact lockstep_pure rfl

theorem lockstep_preKeyResponse (number : ℕ) :
    Lockstep (Alike allowed past) Eq
      (preKeyResponse api destination number :
        Sends formats sender Remote (Option PreKeyResponse))
      (preKeyResponse api destination number) := by
  apply lockstep_get.bind
  intro state other alike
  rw [alike.store]
  dsimp only
  split_ifs
  · apply (lockstep_fetchPreKeys api destination).bind
    rintro response _ rfl
    exact lockstep_pure rfl
  · exact lockstep_pure rfl

theorem lockstep_fetchCertificate :
    Lockstep (Alike allowed past) Eq
      (fetchCertificate api : Sends formats sender Remote (Option (List UInt8)))
      (fetchCertificate api) := by
  apply (lockstep_record rfl nofun).bind
  intro _ _ _
  apply (lockstep_ask _).bind
  rintro answer _ rfl
  cases answer with
  | failed => exact lockstep_stop _
  | unsuccessful code => exact lockstep_pure rfl
  | successful body =>
    dsimp only
    cases body.bind DeliveryCertificateResponse.certificate with
    | none => exact lockstep_pure rfl
    | some certB64 =>
      apply (lockstep_ofResult _).bind
      rintro certBytes _ rfl
      exact lockstep_onStore_self _

theorem lockstep_storedCertificate :
    Lockstep (Alike allowed past) Eq
      (storedCertificate : Sends formats sender Remote (Option (List UInt8)))
      storedCertificate := by
  apply lockstep_get.bind
  intro state other alike
  rw [alike.store]
  exact lockstep_ofResult _

theorem lockstep_imageCertificate :
    Lockstep (Alike allowed past) Eq
      (imageCertificate api : Sends formats sender Remote (Option (List UInt8)))
      (imageCertificate api) := by
  apply lockstep_storedCertificate.bind
  rintro stored _ rfl
  cases stored with
  | none => exact lockstep_fetchCertificate api
  | some certBytes => exact lockstep_pure rfl

theorem lockstep_senderCertificate
    (permitted : ∀ certificate, certBytes.bind sender.certificate = some certificate →
      allowed certificate) :
    Lockstep (Alike allowed past) Eq
      (senderCertificate certBytes : Sends formats sender Remote (Option sender.Certificate))
      (senderCertificate certBytes) := by
  have used : ∀ certificate, outline (.useCertificate (certBytes.bind sender.certificate)) =
      .useCertificate (some certificate) → allowed certificate := by
    intro certificate same
    exact permitted certificate (SendEvent.useCertificate.inj same)
  apply (lockstep_record rfl used).bind
  intro _ _ _
  exact lockstep_pure rfl

theorem lockstep_ensureSession (response : Option PreKeyResponse) (random : BundleRandomness P)
    (address : SignalProtocolAddress) :
    Lockstep (Alike allowed past) Eq
      (ensureSession now response random address : Sends formats sender Remote Bool)
      (ensureSession now response random address) := by
  apply lockstep_get.bind
  intro state other alike
  rw [alike.store]
  split_ifs
  · exact lockstep_pure rfl
  · cases response with
    | none => exact lockstep_pure rfl
    | some response =>
      dsimp only
      cases response.devices.find? fun device => device.deviceId = address.deviceId with
      | none => exact lockstep_pure rfl
      | some device =>
        apply (lockstep_ofResult _).bind
        rintro bundle _ rfl
        apply (lockstep_onStore_self _).bind
        intro _ _ _
        exact lockstep_pure rfl

theorem lockstep_sealingIdentity (address : SignalProtocolAddress) :
    Lockstep (Alike allowed past) Eq
      (sealingIdentity address : Sends formats sender Remote P.PublicKey)
      (sealingIdentity address) := by
  apply lockstep_get.bind
  intro state other alike
  rw [alike.store]
  apply (lockstep_ofResult _).bind
  intro _ _ _
  apply (lockstep_ofResult _).bind
  rintro identity _ rfl
  exact lockstep_ofResult _

variable (content other : P.Bytes)

theorem lockstep_encrypt (certificate : Option sender.Certificate) (random : P.Random)
    (address : SignalProtocolAddress) :
    Lockstep (Alike allowed past) (fun message otherMessage => message.1 = otherMessage.1)
      (encrypt now certificate content random address :
        Sends formats sender Remote (ℕ × PushContent P sender.Certificate))
      (encrypt now certificate other random address) := by
  have encrypts := fun store : AppStore formats =>
    messageEncrypt_outline store address (nanoseconds now) random content other
  cases certificate with
  | none =>
    apply (lockstep_onStore encrypts).bind
    intro message otherMessage types
    exact lockstep_pure (by rw [types])
  | some certificate =>
    apply (lockstep_ofResult _).bind
    intro _ _ _
    apply (lockstep_onStore encrypts).bind
    intro message otherMessage types
    apply (lockstep_sealingIdentity address).bind
    intro _ _ _
    exact lockstep_pure rfl

theorem lockstep_pushMessage (response : Option PreKeyResponse)
    (certificate : Option sender.Certificate) (random : DeviceDraws P) (deviceId : Int32) :
    Lockstep (Alike allowed past) (fun message otherMessage =>
        message.map OutgoingPushMessage.header = otherMessage.map OutgoingPushMessage.header)
      (pushMessage now destination response certificate content random deviceId :
        Sends formats sender Remote (Option (OutgoingPushMessage P sender.Certificate)))
      (pushMessage now destination response certificate other random deviceId) := by
  apply (lockstep_ofResult _).bind
  rintro address _ rfl
  apply (lockstep_ensureSession now response random.bundle address).bind
  rintro ready _ rfl
  cases ready with
  | false => exact lockstep_pure rfl
  | true =>
    apply (lockstep_encrypt now content other certificate random.message address).bind
    rintro ⟨type, encrypted⟩ ⟨_, otherEncrypted⟩ rfl
    apply lockstep_get.bind
    intro state otherState alike
    apply lockstep_pure
    simp only [Option.map_some, alike.store]

theorem lockstep_pushMessages (response : Option PreKeyResponse)
    (certificate : Option sender.Certificate) (random : ℕ → DeviceDraws P)
    (deviceIds : List Int32) :
    Lockstep (Alike allowed past) (fun messages otherMessages =>
        messages.map OutgoingPushMessage.header = otherMessages.map OutgoingPushMessage.header)
      (pushMessages now destination response certificate content random deviceIds :
        Sends formats sender Remote (List (OutgoingPushMessage P sender.Certificate)))
      (pushMessages now destination response certificate other random deviceIds) := by
  induction deviceIds generalizing random with
  | nil => exact lockstep_pure rfl
  | cons deviceId rest ih =>
    apply (lockstep_pushMessage now destination content other response certificate (random 0)
      deviceId).bind
    intro message otherMessage headers
    apply (ih _).bind
    intro messages otherMessages restHeaders
    apply lockstep_pure
    rw [map_append, map_append, restHeaders, ← Option.toList_map, headers,
      Option.toList_map]

theorem lockstep_deleteSessions (deviceIds : List Int32) :
    Lockstep (Alike allowed past) Eq
      (deleteSessions destination deviceIds : Sends formats sender Remote Unit)
      (deleteSessions destination deviceIds) := by
  induction deviceIds with
  | nil => exact lockstep_pure rfl
  | cons deviceId rest ih =>
    apply (lockstep_ofResult _).bind
    rintro address _ rfl
    apply (lockstep_record rfl nofun).bind
    intro _ _ _
    apply (lockstep_onStore_self _).bind
    intro _ _ _
    exact ih

theorem lockstep_post
    {list otherList : OutgoingPushMessageList (OutgoingPushMessage P sender.Certificate)}
    (headers : list.map OutgoingPushMessage.header = otherList.map OutgoingPushMessage.header) :
    Lockstep (Alike allowed past) Eq (post api destination list : Sends formats sender Remote Unit)
      (post api destination otherList) := by
  have devices : list.messages.map (fun message => message.header.destinationDeviceId) =
      otherList.messages.map fun message => message.header.destinationDeviceId := by
    have listed := congrArg (fun headers => headers.messages.map PushHeader.destinationDeviceId)
      headers
    simpa [OutgoingPushMessageList.map, Function.comp_def] using listed
  have outlines : outline (.sendMessage list) = outline (.sendMessage otherList) :=
    congrArg SendEvent.sendMessage headers
  unfold post
  rw [headers, devices]
  apply (lockstep_record outlines fun _ used => by cases used).bind
  intro _ _ _
  apply (lockstep_ask _).bind
  rintro answer _ rfl
  cases answer with
  | failed => exact lockstep_stop _
  | successful body => exact lockstep_stop _
  | unsuccessful code =>
    dsimp only
    split_ifs
    · exact lockstep_deleteSessions destination _
    · exact lockstep_stop _

theorem lockstep_sendToDevices (timestamp : ℤ) (random : ℕ → DeviceDraws P)
    (response : Option PreKeyResponse) (deviceIds : List Int32)
    (certificate : Option sender.Certificate) :
    Lockstep (Alike allowed past) Eq
      (sendToDevices api now destination timestamp content random response deviceIds certificate :
        Sends formats sender Remote Unit)
      (sendToDevices api now destination timestamp other random response deviceIds
        certificate) := by
  apply (lockstep_pushMessages now destination content other response certificate random _).bind
  intro messages otherMessages headers
  have empty : messages.isEmpty = otherMessages.isEmpty := by
    have lengths := congrArg isEmpty headers
    simpa using lengths
  rw [empty]
  split_ifs
  · exact lockstep_stop _
  · apply lockstep_post
    simp only [OutgoingPushMessageList.map, headers]

theorem lockstep_attempt
    (certificates : Lockstep (Alike (fun _ => True) past) Eq certificateBytes certificateBytes)
    (timestamp : ℤ) (random : ℕ → DeviceDraws P) (number : ℕ) :
    Lockstep (Alike (fun _ => True) past) Eq
      (attempt api now destination certificateBytes timestamp content random number)
      (attempt api now destination certificateBytes timestamp other random number) := by
  apply (lockstep_preKeyResponse api destination number).bind
  rintro response _ rfl
  apply lockstep_get.bind
  intro state otherState alike
  apply certificates.bind
  rintro certBytes _ rfl
  apply (lockstep_senderCertificate fun _ _ => trivial).bind
  rintro certificate _ rfl
  rw [alike.store]
  exact lockstep_sendToDevices api now destination content other timestamp random response _ _

theorem lockstep_textCertificate :
    Lockstep (Alike allowed past) Eq
      (textCertificate api now : Sends formats sender Remote (Option (List UInt8)))
      (textCertificate api now) := by
  apply lockstep_storedCertificate.bind
  rintro stored _ rfl
  cases stored.filter (isUsable now sender) with
  | none => exact lockstep_fetchCertificate api
  | some certBytes => exact lockstep_pure rfl

def answeredCertificate (formats : SignalFormats P) (sender : SenderFormats P) (server : Remote) :
    Option sender.Certificate :=
  match (api.getDeliveryCertificate server).1 with
  | .successful body =>
    ((body.bind DeliveryCertificateResponse.certificate).bind formats.base64.decode).bind
      sender.certificate
  | _ => none

/-- A stored certificate parses and has not expired; where none is stored, the one that the server
answers with has not expired. -/
def CertificateClear (state : SendState formats sender Remote) : Prop :=
  match getDeliveryCertificate formats.store state.store.prefs with
  | .error _ => True
  | .ok (some certBytes) => isUsable now sender certBytes = true
  | .ok none =>
    ∀ certificate, answeredCertificate api formats sender state.server = some certificate →
      ¬Expired now sender certificate

/-- If the attempt comes to its certificate, that is clear. -/
def AttemptClear (number : ℕ) (state : SendState formats sender Remote) : Prop :=
  ∀ response after, preKeyResponse api destination number state = (.ok response, after) →
    CertificateClear api now after

theorem storedCertificate_eq (state : SendState formats sender Remote) :
    storedCertificate state = (((getDeliveryCertificate formats.store state.store.prefs).mapError
      SendException.store).mapError SendStop.thrown, state) := rfl

theorem textCertificate_eq
    (usable : ∀ certBytes, getDeliveryCertificate formats.store state.store.prefs =
      .ok (some certBytes) → isUsable now sender certBytes = true) :
    textCertificate api now state = imageCertificate api state := by
  have stored := storedCertificate_eq state
  unfold textCertificate imageCertificate
  cases found : getDeliveryCertificate formats.store state.store.prefs with
  | error exception =>
    rw [found] at stored
    rw [bind_of_error stored, bind_of_error stored]
  | ok certificate =>
    rw [found] at stored
    rw [bind_of_ok stored, bind_of_ok stored]
    cases certificate with
    | none => rfl
    | some certBytes => rw [Option.filter_some, if_pos (usable certBytes found)]

theorem usable_of_clear (clear : CertificateClear api now state) :
    ∀ certBytes, getDeliveryCertificate formats.store state.store.prefs = .ok (some certBytes) →
      isUsable now sender certBytes = true := by
  intro certBytes found
  unfold CertificateClear at clear
  rw [found] at clear
  exact clear

theorem attempt_eq_of_clear (clear : AttemptClear api now destination number state) (timestamp : ℤ)
    (random : ℕ → DeviceDraws P) :
    attempt api now destination (textCertificate api now) timestamp content random number state =
      attempt api now destination (imageCertificate api) timestamp content random number state := by
  unfold attempt
  rcases ran : preKeyResponse api destination number state with ⟨reason | response, after⟩
  · rw [bind_of_error ran, bind_of_error ran]
  · rw [bind_of_ok ran, bind_of_ok ran]
    have same := textCertificate_eq api now (usable_of_clear api now (clear response after ran))
    exact bind_congr_at same

theorem answered_of_fetchCertificate (fetched : fetchCertificate api state = (.ok certBytes, after))
    (parsed : certBytes.bind sender.certificate = some certificate) :
    answeredCertificate api formats sender state.server = some certificate := by
  unfold answeredCertificate
  simp only [fetchCertificate, bind, record, ask] at fetched
  cases answer : (api.getDeliveryCertificate state.server).1 with
  | failed =>
    rw [answer] at fetched
    cases fetched
  | unsuccessful code =>
    rw [answer] at fetched
    cases fetched
    cases parsed
  | successful body =>
    rw [answer] at fetched
    dsimp only at fetched ⊢
    cases found : body.bind DeliveryCertificateResponse.certificate with
    | none =>
      rw [found] at fetched
      cases fetched
      cases parsed
    | some certB64 =>
      rw [found] at fetched
      dsimp only [decodeText] at fetched
      cases decoded : formats.base64.decode certB64 with
      | none =>
        rw [decoded] at fetched
        cases fetched
      | some bytes =>
        rw [decoded] at fetched
        cases fetched
        rw [Option.bind_some, decoded]
        exact parsed

theorem unexpired_of_isUsable {certBytes : List UInt8}
    (usable : isUsable now sender certBytes = true)
    (parsed : sender.certificate certBytes = some certificate) :
    ¬Expired now sender certificate := by
  unfold isUsable at usable
  rw [parsed] at usable
  exact of_decide_eq_true usable

theorem unexpired_of_clear (clear : CertificateClear api now state)
    (got : imageCertificate api state = (.ok certBytes, after)) :
    ∀ certificate, certBytes.bind sender.certificate = some certificate →
      ¬Expired now sender certificate := by
  intro certificate parsed
  have stored := storedCertificate_eq state
  unfold CertificateClear at clear
  unfold imageCertificate at got
  cases found : getDeliveryCertificate formats.store state.store.prefs with
  | error exception =>
    rw [found] at stored
    rw [bind_of_error stored] at got
    cases got
  | ok storedBytes =>
    rw [found] at stored clear
    rw [bind_of_ok stored] at got
    cases storedBytes with
    | none => exact clear certificate (answered_of_fetchCertificate api got parsed)
    | some bytes =>
      cases got
      exact unexpired_of_isUsable now clear parsed

theorem alike_of_clear (clear : AttemptClear api now destination number state)
    (alike : Alike (fun certificate => ¬Expired now sender certificate) past state otherState)
    (timestamp : ℤ) (random : ℕ → DeviceDraws P) :
    let text := attempt api now destination (textCertificate api now) timestamp content random
      number state
    let image := attempt api now destination (imageCertificate api) timestamp other random number
      otherState
    SameEnd Eq text.1 image.1 ∧
      Alike (fun certificate => ¬Expired now sender certificate) past text.2 image.2 := by
  dsimp only
  rw [attempt_eq_of_clear api now destination content clear]
  apply sameEnd_bind (lockstep_preKeyResponse api destination number _ _ alike)
  rintro response _ reached otherReached ran _ rfl reachedAlike
  apply sameEnd_bind (lockstep_get _ _ reachedAlike)
  rintro _ _ _ _ ⟨⟩ ⟨⟩ _ _
  apply sameEnd_bind (lockstep_imageCertificate api _ _ reachedAlike)
  rintro certBytes _ after otherAfter got _ rfl afterAlike
  have unexpired := unexpired_of_clear api now (clear response reached ran) got
  apply sameEnd_bind (lockstep_senderCertificate unexpired _ _ afterAlike)
  rintro certificate _ used otherUsed _ _ rfl usedAlike
  rw [reachedAlike.store]
  exact lockstep_sendToDevices api now destination content other timestamp random response _ _ _ _
    usedAlike

theorem useCertificate_past {state reached after : SendState formats sender Remote}
    (ran : preKeyResponse api destination number state = (.ok response, reached))
    (got : certificateBytes reached = (.ok certBytes, after)) (timestamp : ℤ)
    (random : ℕ → DeviceDraws P) :
    after.trace.map outline ++ [.useCertificate (certBytes.bind sender.certificate)] <+:
      (attempt api now destination certificateBytes timestamp content random number
        state).2.trace.map outline := by
  unfold attempt
  rw [bind_of_ok ran]
  change _ <+: ((certificateBytes >>= _) reached).2.trace.map outline
  rw [bind_of_ok got]
  let used : SendState formats sender Remote :=
    { after with trace := after.trace ++ [.useCertificate (certBytes.bind sender.certificate)] }
  have steps := lockstep_sendToDevices api now destination content content timestamp random
    response (activeDeviceIds destination reached.store response)
    (certBytes.bind sender.certificate) used used
    (Alike.refl used : Alike (fun _ => True) _ used used)
  have past := steps.2.past_extended
  rw [map_append] at past
  exact past

theorem certificate_past (certificateBytes : Sends formats sender Remote (Option (List UInt8)))
    {state reached : SendState formats sender Remote}
    (ran : preKeyResponse api destination number state = (.ok response, reached)) (timestamp : ℤ)
    (random : ℕ → DeviceDraws P) :
    (certificateBytes reached).2.trace.map outline <+:
      (attempt api now destination certificateBytes timestamp content random number
        state).2.trace.map outline := by
  rcases got : certificateBytes reached with ⟨reason | certBytes, after⟩
  · unfold attempt
    rw [bind_of_ok ran]
    change _ <+: ((certificateBytes >>= _) reached).2.trace.map outline
    rw [bind_of_error got]
  · exact (prefix_append _ _).trans
      (useCertificate_past api now destination content ran got timestamp random)

theorem fetchCertificate_trace (state : SendState formats sender Remote) :
    (fetchCertificate api state).2.trace = state.trace ++ [.getDeliveryCertificate] := by
  unfold fetchCertificate
  simp only [bind, record, ask]
  cases (api.getDeliveryCertificate state.server).1 with
  | failed => rfl
  | unsuccessful code => rfl
  | successful body =>
    dsimp only
    cases body.bind DeliveryCertificateResponse.certificate with
    | none => rfl
    | some certB64 =>
      dsimp only
      cases decodeText formats certB64 <;> rfl

theorem fetchCertificate_answered
    (answered : answeredCertificate api formats sender state.server = some certificate) :
    ∃ certBytes, (fetchCertificate api state).1 = .ok (some certBytes) ∧
      sender.certificate certBytes = some certificate := by
  unfold answeredCertificate at answered
  cases answer : (api.getDeliveryCertificate state.server).1 with
  | failed => simp [answer] at answered
  | unsuccessful code => simp [answer] at answered
  | successful body =>
    rw [answer] at answered
    rcases Option.bind_eq_some_iff.mp answered with ⟨certBytes, decoded, parsed⟩
    rcases Option.bind_eq_some_iff.mp decoded with ⟨certB64, found, decodes⟩
    refine ⟨certBytes, ?_, parsed⟩
    simp only [fetchCertificate, bind, record, ask, answer, found, decodeText, decodes]
    rfl

theorem eq_of_continued {Element : Type} {start whole : List Element} {first second : Element}
    (one : start ++ [first] <+: whole) (two : start ++ [second] <+: whole) : first = second := by
  rcases one with ⟨rest, rfl⟩
  rcases two with ⟨otherRest, same⟩
  simp only [append_assoc, append_cancel_left_eq, singleton_append,
    cons.injEq] at same
  exact same.1.symm

theorem differs_of_unclear {state otherState reached : SendState formats sender Remote}
    (alike : Alike allowed past state otherState)
    (ran : preKeyResponse api destination number state = (.ok response, reached))
    (unclear : ¬CertificateClear api now reached) (timestamp : ℤ) (random : ℕ → DeviceDraws P)
    {textTrace imageTrace : List (SendEvent sender.Certificate PushHeader)}
    (text : (attempt api now destination (textCertificate api now) timestamp content random number
      state).2.trace.map outline <+: textTrace)
    (image : (attempt api now destination (imageCertificate api) timestamp other random number
      otherState).2.trace.map outline <+: imageTrace) :
    ¬(imageTrace = textTrace ∧
      ∀ certificate, .useCertificate (some certificate) ∈ imageTrace →
        ¬Expired now sender certificate) := by
  rintro ⟨rfl, unexpired⟩
  have together := lockstep_preKeyResponse api destination number state otherState alike
  rw [ran] at together
  rcases otherRan : preKeyResponse api destination number otherState with
    ⟨reason | otherResponse, otherReached⟩ <;> rw [otherRan] at together
  · exact together.1
  · have reachedAlike : Alike allowed past reached otherReached := together.2
    unfold CertificateClear at unclear
    have stored := storedCertificate_eq otherReached
    rw [← reachedAlike.store] at stored
    cases found : getDeliveryCertificate formats.store reached.store.prefs with
    | error exception => simp [found] at unclear
    | ok certificate =>
      rw [found] at unclear stored
      cases certificate with
      | some certBytes =>
        -- Only the text message asks for a new certificate.
        have fetched : textCertificate api now reached = fetchCertificate api reached := by
          have storedHere := storedCertificate_eq reached
          rw [found] at storedHere
          unfold textCertificate
          rw [bind_of_ok storedHere]
          simp only [Option.filter_some, unclear]
          rfl
        have asked := certificate_past api now destination content (textCertificate api now)
          ran timestamp random
        rw [fetched, fetchCertificate_trace, map_append] at asked
        have kept : imageCertificate api otherReached = (.ok (some certBytes), otherReached) := by
          unfold imageCertificate
          rw [bind_of_ok stored]
          rfl
        have used := useCertificate_past api now destination other otherRan kept timestamp
          random
        rw [← reachedAlike.trace] at used
        cases eq_of_continued (asked.trans text) (used.trans image)
      | none =>
        -- Both use the certificate that the server answers with.
        simp only [not_forall, not_not] at unclear
        rcases unclear with ⟨certificate, answered, expired⟩
        rw [reachedAlike.server] at answered
        rcases fetchCertificate_answered api answered with ⟨certBytes, fetches, parsed⟩
        have kept : imageCertificate api otherReached =
            (.ok (some certBytes), (fetchCertificate api otherReached).2) := by
          unfold imageCertificate
          rw [bind_of_ok stored]
          exact Prod.ext fetches rfl
        have used := useCertificate_past api now destination other otherRan kept timestamp
          random
        apply unexpired certificate _ expired
        apply (used.trans image).subset
        simp [parsed]

theorem attempts_past
    (certificates : ∀ past, Lockstep (Alike (fun _ => True) past) Eq certificateBytes
      certificateBytes) (timestamp : ℤ) (random : ℕ → ℕ → DeviceDraws P)
    (state : SendState formats sender Remote) :
    (attempt api now destination certificateBytes timestamp content (random 1) 1
      state).2.trace.map outline <+:
      (attempts api now destination certificateBytes timestamp content random
        state).2.trace.map outline := by
  unfold attempts
  rcases ran : attempt api now destination certificateBytes timestamp content (random 1) 1 state
    with ⟨reason | done, after⟩
  · rw [bind_of_error ran]
  · rw [bind_of_ok ran]
    have steps := lockstep_attempt api now destination content content (certificates _) timestamp
      (random 2) 2 after after (Alike.refl after)
    exact steps.2.past_extended

/-- Both attempts of a text message come to a clear certificate, if they come to one. -/
def CallClear (timestamp : ℤ) (random : ℕ → ℕ → DeviceDraws P)
    (state : SendState formats sender Remote) : Prop :=
  AttemptClear api now destination 1 state ∧
    ∀ after, attempt api now destination (textCertificate api now) timestamp content (random 1) 1
      state = (.ok (), after) → AttemptClear api now destination 2 after

theorem attempts_alike_of_clear (timestamp : ℤ) (random : ℕ → ℕ → DeviceDraws P)
    (clear : CallClear api now destination content timestamp random state)
    (alike : Alike (fun certificate => ¬Expired now sender certificate) past state otherState) :
    let text := attempts api now destination (textCertificate api now) timestamp content random
      state
    let image := attempts api now destination (imageCertificate api) timestamp other random
      otherState
    SameEnd Eq text.1 image.1 ∧
      Alike (fun certificate => ¬Expired now sender certificate) past text.2 image.2 := by
  apply sameEnd_bind
    (alike_of_clear api now destination content other clear.1 alike timestamp (random 1))
  rintro _ _ after otherAfter ran _ _ afterAlike
  exact alike_of_clear api now destination content other (clear.2 after ran) afterAlike timestamp
    (random 2)

theorem clear_of_agrees (timestamp : ℤ) (random : ℕ → ℕ → DeviceDraws P)
    (state : SendState formats sender Remote)
    (same : (attempts api now destination (imageCertificate api) timestamp other random
        state).2.trace.map outline =
      (attempts api now destination (textCertificate api now) timestamp content random
        state).2.trace.map outline)
    (unexpired : ∀ certificate, .useCertificate (some certificate) ∈
        (attempts api now destination (imageCertificate api) timestamp other random
          state).2.trace.map outline →
      ¬Expired now sender certificate) :
    CallClear api now destination content timestamp random state := by
  have firstClear : AttemptClear api now destination 1 state := by
    intro response reached ran
    by_contra unclear
    exact differs_of_unclear api now destination content other
      (Alike.refl state : Alike (fun _ => True) _ _ _) ran unclear timestamp (random 1)
      (attempts_past api now destination content
        (fun _ => lockstep_textCertificate api now) timestamp random state)
      (attempts_past api now destination other
        (fun _ => lockstep_imageCertificate api) timestamp random state) ⟨same, unexpired⟩
  refine ⟨firstClear, ?_⟩
  intro after ranFirst response reached ran
  by_contra unclear
  have first := alike_of_clear api now destination content other firstClear (Alike.refl state)
    timestamp (random 1)
  dsimp only at first
  rw [ranFirst] at first
  rcases otherFirst : attempt api now destination (imageCertificate api) timestamp other (random 1)
    1 state with ⟨reason | done, otherAfter⟩ <;> rw [otherFirst] at first
  · exact first.1
  · unfold attempts at same unexpired
    rw [bind_of_ok otherFirst] at same unexpired
    rw [bind_of_ok ranFirst] at same
    exact differs_of_unclear api now destination content other first.2 ran unclear timestamp
      (random 2) (prefix_refl _) (prefix_refl _) ⟨same, unexpired⟩

/-- The image is delivered like the text message, and with no expired certificate, exactly if the
attempts come to clear certificates. -/
theorem sendImageMessage_agrees_iff (messageBody caption : String)
    (pointer : sender.AttachmentPointer) (timestamp : ℤ) (profileKey : Option (List UInt8))
    (random : ℕ → ℕ → DeviceDraws P) (store : AppStore formats) (server : Remote) :
    let start : SendState formats sender Remote := ⟨store, server, []⟩
    let text := sendMessage api now destination messageBody timestamp profileKey random start
    let image := sendImageMessage api now destination pointer caption timestamp profileKey random
      start
    (image.1 = text.1 ∧ image.2.trace.map outline = text.2.trace.map outline ∧
        ∀ certificate, .useCertificate (some certificate) ∈ image.2.trace.map outline →
          ¬Expired now sender certificate) ↔
      CallClear api now destination
        (sender.paddedContent ⟨timestamp, some messageBody, profileKey, []⟩) timestamp random
        start := by
  intro start text image
  constructor
  · rintro ⟨_, same, unexpired⟩
    exact clear_of_agrees api now destination _ _ timestamp random _ same unexpired
  · intro clear
    have alike := attempts_alike_of_clear api now destination _
      (sender.paddedContent
        ⟨timestamp, if isBlank caption then none else some caption, profileKey, [pointer]⟩)
      timestamp random clear (Alike.refl _)
    refine ⟨?_, alike.2.trace.symm, ?_⟩
    · change wasSent _ = wasSent _
      rw [eq_of_sameEnd alike.1]
    · intro certificate used
      rcases alike.2.since with ⟨since, whole, unexpired⟩
      have listed : image.2.trace.map outline = since := alike.2.trace.symm.trans whole
      rw [listed] at used
      exact unexpired certificate used

end call

/-- The account has a certificate that expires at 1, and no sessions. -/
noncomputable def certifiedStart :
    SendState SignalFormats.symbolic SenderFormats.symbolic (List (List PushHeader)) :=
  ⟨⟨saveDeliveryCertificate SignalFormats.symbolic.store Symbolic.aliceStore.prefs [1]⟩, [], []⟩

theorem registered_certifiedStart :
    Registered ⟨(1 : ℕ)⟩ ((StoreWrite.saveDeliveryCertificate [1]).onMaps ownMaps)
      certifiedStart.store :=
  registered_aliceStore.write (.saveDeliveryCertificate [1]) trivial rfl

theorem certificateClear_certifiedStart {now number : ℕ} {fetched : Option PreKeyResponse}
    {reached : SendState SignalFormats.symbolic SenderFormats.symbolic (List (List PushHeader))}
    (ran : preKeyResponse (deviceServer zeroResponse "" 409) "bob" number certifiedStart =
      (.ok fetched, reached)) :
    CertificateClear (deviceServer zeroResponse "" 409) now reached ↔
      isUsable now SenderFormats.symbolic [1] = true := by
  rcases @preKeyResponse_eq _ _ _ zeroResponse "bob" 409 "" number certifiedStart with
    ⟨other, sameRun, store, _⟩
  cases ran.symm.trans sameRun
  unfold CertificateClear
  rw [store, registered_certifiedStart.represented.getDeliveryCertificate_eq]
  rfl

theorem firstDevices_certifiedStart :
    firstDevices zeroResponse "bob" certifiedStart.store = deviceIdsOf zeroResponse := by
  have absent : containsSession certifiedStart.store.prefs ⟨"bob", 1⟩ = false :=
    registered_certifiedStart.represented.containsSession_eq _
  rw [firstDevices, if_pos absent]
  rfl

/-- The server accepts the list of the first attempt. -/
theorem attempt_certifiedStart (now : ℕ) (timestamp : ℤ) (content : symbolic.Bytes)
    (after : SendState SignalFormats.symbolic SenderFormats.symbolic (List (List PushHeader))) :
    attempt (deviceServer zeroResponse "" 409) now "bob"
      (textCertificate (deviceServer zeroResponse "" 409) now) timestamp content (zeroDraws 1) 1
      certifiedStart ≠ (.ok (), after) := by
  intro ran
  rcases first_attempt_eq setting_zeroResponse now registered_certifiedStart nofun timestamp content
    (zeroDraws 1) with ⟨_, _, _, _, issued, registered, sessions, _, addressable, sends⟩
  have outcome := sends ▸ sendToDevices_outcome setting_zeroResponse issued registered addressable
    timestamp content (zeroDraws 1)
  rw [ran] at outcome
  cases outcome with
  | refused _ _ stale =>
    apply stale
    rw [firstDevices_certifiedStart, expected_absent setting_zeroResponse]
    intro deviceId _
    rw [sessions]
    rfl

/-- The message is sent, and the calls agree while the stored certificate is valid. -/
theorem sendImageMessage_agrees_iff_valid :
    let api := deviceServer zeroResponse "" 409
    let text := sendMessage api 1 "bob" "hello" 1 none zeroDraws certifiedStart
    let image := sendImageMessage api 1 "bob" () "" 1 none zeroDraws certifiedStart
    text.1 = true ∧ image.1 = text.1 ∧ image.2.trace.map outline = text.2.trace.map outline ∧
      ∀ certificate, .useCertificate (some certificate) ∈ image.2.trace.map outline →
        ¬Expired 1 SenderFormats.symbolic certificate := by
  intro api text image
  refine ⟨?_, (sendImageMessage_agrees_iff api 1 "bob" "hello" "" () 1 none zeroDraws
    certifiedStart.store []).mpr ⟨?_, ?_⟩⟩
  · refine ((attempts_reached_iff setting_zeroResponse registered_certifiedStart nofun 1 _
      zeroDraws).mpr ⟨by decide, ?_, Or.inr (by decide)⟩).1
    rw [firstDevices_certifiedStart]
    exact (ready_absent setting_zeroResponse fun _ _ => rfl).mpr (by decide)
  · intro response reached ran
    exact (certificateClear_certifiedStart ran).mpr (by decide)
  · intro after ran
    exact absurd ran (attempt_certifiedStart _ _ _ _)

/-- Once it has expired, only the text message is sent with a new one. -/
theorem sendImageMessage_expired_not_agrees :
    let api := deviceServer zeroResponse "" 409
    let text := sendMessage api 2 "bob" "hello" 1 none zeroDraws certifiedStart
    let image := sendImageMessage api 2 "bob" () "" 1 none zeroDraws certifiedStart
    ¬(image.1 = text.1 ∧ image.2.trace.map outline = text.2.trace.map outline ∧
      ∀ certificate, .useCertificate (some certificate) ∈ image.2.trace.map outline →
        ¬Expired 2 SenderFormats.symbolic certificate) := by
  rintro api text image ⟨_, same, unexpired⟩
  have clear := clear_of_agrees api 2 "bob"
    (SenderFormats.symbolic.paddedContent ⟨1, some "hello", none, []⟩)
    (SenderFormats.symbolic.paddedContent
      ⟨1, if isBlank "" then none else some "", none, [()]⟩)
    1 zeroDraws certifiedStart same unexpired
  rcases @preKeyResponse_eq _ _ _ zeroResponse "bob" 409 "" 1 certifiedStart with
    ⟨reached, ran, _⟩
  have usable := (certificateClear_certifiedStart ran).mp (clear.1 _ _ ran)
  exact absurd usable (by decide)

end MessageSender

end LegacySignal
