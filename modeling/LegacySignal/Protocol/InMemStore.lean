import LegacySignal.Protocol.StoreSpec
import LegacySignal.Protocol.Symbolic

/-!
# The in-memory stores

`InMemSignalProtocolStore` behind the store traits. It trusts the first
identity of an address, and refuses a base key that was used with the same
Kyber and signed prekeys before.

A commit saves the identity before it marks the Kyber prekey as used. So a
replayed prekey message fails, and yet leaves an identity behind where the
address had none.
-/

namespace LegacySignal

variable {P : Primitives}

/-- `InMemSignalProtocolStore`, each map as the function that looks a key up. -/
structure InMemStore (P : Primitives) where
  keyPair : P.KeyPair
  registrationId : UInt32
  knownKeys : SignalProtocolAddress → Option P.PublicKey
  preKeys : UInt32 → Option P.KeyPair
  signedPreKeys : UInt32 → Option P.KeyPair
  kyberPreKeys : UInt32 → Option P.KemSecretKey
  /-- For a Kyber prekey and a signed prekey. -/
  baseKeysSeen : UInt32 × UInt32 → Option (List P.PublicKey)
  sessions : SignalProtocolAddress → Option (SessionRecord P)

namespace InMemStore

def seen (store : InMemStore P) (kyberPreKeyId signedPreKeyId : UInt32) : List P.PublicKey :=
  (store.baseKeysSeen (kyberPreKeyId, signedPreKeyId)).getD []

def isTrustedIdentity (store : InMemStore P) (address : SignalProtocolAddress)
    (identity : P.PublicKey) : Bool :=
  match store.knownKeys address with
  | none => true
  | some known => known = identity

def saveIdentity (store : InMemStore P) (address : SignalProtocolAddress)
    (identity : P.PublicKey) : InMemStore P :=
  let inserted :=
    { store with knownKeys := Function.update store.knownKeys address (some identity) }
  match store.knownKeys address with
  | none => inserted
  | some known => if known = identity then store else inserted

def markKyberPreKeyUsed (store : InMemStore P) (kyberPreKeyId signedPreKeyId : UInt32)
    (baseKey : P.PublicKey) : Except SignalProtocolError (InMemStore P) :=
  if baseKey ∈ store.seen kyberPreKeyId signedPreKeyId then
    .error (.invalidMessage .preKey "reused base key")
  else
    .ok { store with
      baseKeysSeen := Function.update store.baseKeysSeen (kyberPreKeyId, signedPreKeyId)
        (some (store.seen kyberPreKeyId signedPreKeyId ++ [baseKey])) }

end InMemStore

/-- These stores cannot delete a session; nothing below asks for it. -/
instance : ProtocolStore P (InMemStore P) where
  loadSession store address := .ok (store.sessions address)
  storeSession store address record :=
    { store with sessions := Function.update store.sessions address (some record) }
  deleteSession store address :=
    { store with sessions := Function.update store.sessions address none }
  getIdentityKeyPair store := .ok store.keyPair
  getLocalRegistrationId store := .ok store.registrationId
  isTrustedIdentity store address identity _ := store.isTrustedIdentity address identity
  saveIdentity := InMemStore.saveIdentity
  getPreKey store preKeyId := Result.okOr (store.preKeys preKeyId) .invalidPreKeyId
  removePreKey store preKeyId :=
    { store with preKeys := Function.update store.preKeys preKeyId none }
  getSignedPreKey store preKeyId :=
    Result.okOr (store.signedPreKeys preKeyId) .invalidSignedPreKeyId
  getKyberPreKey store preKeyId := Result.okOr (store.kyberPreKeys preKeyId) .invalidKyberPreKeyId
  markKyberPreKeyUsed := InMemStore.markKyberPreKeyUsed

namespace InMemStore

variable {store : InMemStore P} {address : SignalProtocolAddress} {identity baseKey : P.PublicKey}
  {error : SignalProtocolError}

theorem saveIdentity_eq_self_iff :
    store.saveIdentity address identity = store ↔ store.knownKeys address = some identity := by
  constructor
  · intro same
    have known := congrArg (fun store => store.knownKeys address) same
    unfold saveIdentity at known
    split at known
    · simpa using known.symm
    · split at known
      · rename_i found equal
        rw [found, equal]
      · simpa using known.symm
  · intro known
    simp [saveIdentity, known]

theorem sessions_saveIdentity :
    (store.saveIdentity address identity).sessions = store.sessions := by
  unfold saveIdentity
  split
  · rfl
  · split <;> rfl

theorem seen_saveIdentity (kyberPreKeyId signedPreKeyId : UInt32) :
    (store.saveIdentity address identity).seen kyberPreKeyId signedPreKeyId =
      store.seen kyberPreKeyId signedPreKeyId := by
  unfold saveIdentity
  split
  · rfl
  · split <;> rfl

theorem markKyberPreKeyUsed_eq_error {kyberPreKeyId signedPreKeyId : UInt32} :
    store.markKyberPreKeyUsed kyberPreKeyId signedPreKeyId baseKey = .error error ↔
      baseKey ∈ store.seen kyberPreKeyId signedPreKeyId ∧
        error = .invalidMessage .preKey "reused base key" := by
  unfold markKyberPreKeyUsed
  by_cases reused : baseKey ∈ store.seen kyberPreKeyId signedPreKeyId
  · simp only [reused, if_true, true_and, Except.error.injEq]
    exact eq_comm
  · simp [reused]

instance : LawfulProtocolStore P (InMemStore P) where
  loadSession_storeSession store address record := by
    exact congrArg Except.ok (Function.update_self address (some record) store.sessions)
  loadSession_storeSession_of_ne store address other record different := by
    exact congrArg Except.ok (Function.update_of_ne different (some record) store.sessions)
  loadSession_deleteSession store address := by
    have gone := Function.update_self address none store.sessions
    simp only [ProtocolStore.loadSession, ProtocolStore.deleteSession, gone]
    rfl
  loadSession_saveIdentity store address other identity := by
    exact congrArg (fun sessions => Except.ok (sessions other)) sessions_saveIdentity
  loadSession_removePreKey store preKeyId other := rfl
  loadSession_markKyberPreKeyUsed := by
    intro store marked kyberPreKeyId signedPreKeyId baseKey other done
    have marks : store.markKyberPreKeyUsed kyberPreKeyId signedPreKeyId baseKey = .ok marked :=
      done
    unfold markKyberPreKeyUsed at marks
    split at marks
    · cases marks
    · cases marks
      rfl

/-- The message comes from an address without an identity and is decrypted in a session that is set
up for it, but its base key was seen with the same prekeys before. -/
structure Replays (store : InMemStore P) (address : SignalProtocolAddress)
    (message : PreKeySignalMessage P) (ourNewEphemeral : P.PrivateKey) : Prop where
  unknown : store.knownKeys address = none
  missing : ((store.sessions address).getD SessionRecord.newFresh).matchingSession
    message.messageVersion message.baseKey = none
  decrypts : ∃ session ptext updated, sessionFromPreKey store message = .ok session ∧
    session.decryptMessage message.message .preKey ourNewEphemeral = .ok (ptext, updated)
  reused : ∃ payload, message.kyberPayload = some payload ∧
    message.baseKey ∈ store.seen payload.preKeyId message.signedPreKeyId

theorem recordPreKeysUsed_eq_error {used : PreKeysUsed} :
    recordPreKeysUsed store used baseKey = .error error ↔
      ∃ kyberPreKeyId, used.kyberPreKeyId = some kyberPreKeyId ∧
        baseKey ∈ store.seen kyberPreKeyId used.signedEcPreKeyId ∧
        error = .invalidMessage .preKey "reused base key" := by
  rcases used with ⟨oneTime, signed, _ | kyber⟩
  · simp [recordPreKeysUsed, Except.map]
  · simp only [recordPreKeysUsed, Option.some.injEq, exists_eq_left']
    rw [← markKyberPreKeyUsed_eq_error]
    change (store.markKyberPreKeyUsed kyber signed baseKey).map _ = _ ↔ _
    cases store.markKyberPreKeyUsed kyber signed baseKey with
    | error failure => exact Iff.rfl
    | ok marked =>
      constructor <;> intro failed <;> cases failed

variable {after : InMemStore P}

theorem messageDecryptPreKey_failed_iff {message : PreKeySignalMessage P}
    {ourNewEphemeral : P.PrivateKey}
    (failed : messageDecryptPreKey store address message ourNewEphemeral = (.error error, after)) :
    after = store ↔ ¬store.Replays address message ourNewEphemeral := by
  have loaded : loadOrFresh store address =
      .ok ((store.sessions address).getD SessionRecord.newFresh) := rfl
  unfold messageDecryptPreKey at failed
  rw [loaded] at failed
  cases computed : decryptPreKeyUpdate store address message ourNewEphemeral
      ((store.sessions address).getD SessionRecord.newFresh) with
  | error failure =>
    simp only [Except.bind, computed, commitResult] at failed
    cases failed
    refine ⟨fun _ replays => ?_, fun _ => rfl⟩
    rcases replays.decrypts with ⟨session, ptext, updated, makes, decrypts⟩
    have trusted : ProtocolStore.isTrustedIdentity store address message.identityKey
        .receiving = true := by
      change store.isTrustedIdentity address message.identityKey = true
      simp [isTrustedIdentity, replays.unknown]
    cases computed.symm.trans
      (decryptPreKeyUpdate_of_new trusted replays.missing makes decrypts)
  | ok update =>
    simp only [Except.bind, computed, commitResult] at failed
    rcases commit_eq_error.mp failed with ⟨used, baseKey, uses, fails, rfl⟩
    rcases decryptPreKeyUpdate_new computed uses with
      ⟨trusted, missing, session, ptext, updated, makes, decrypts, rfl⟩
    cases uses
    rcases recordPreKeysUsed_eq_error.mp fails with ⟨kyber, isKyber, reused, _⟩
    rcases Option.map_eq_some_iff.mp isKyber with ⟨payload, isPayload, rfl⟩
    refine saveIdentity_eq_self_iff.trans ?_
    constructor
    · intro known replays
      cases known.symm.trans replays.unknown
    · intro noReplay
      have reusedBefore : message.baseKey ∈ store.seen payload.preKeyId
          message.signedPreKeyId := by
        rw [← seen_saveIdentity]
        exact reused
      have trustedHere : store.isTrustedIdentity address message.identityKey = true := trusted
      unfold isTrustedIdentity at trustedHere
      split at trustedHere
      · rename_i unknown
        exact absurd ⟨unknown, missing, ⟨session, ptext, updated, makes, decrypts⟩, payload,
          isPayload, reusedBefore⟩ noReplay
      · rename_i known isKnown
        exact isKnown.trans (congrArg some (of_decide_eq_true trustedHere))

theorem commitResult_failed {Output : Type}
    {result : Except SignalProtocolError (SessionUpdate P Output)}
    (usesNone : ∀ update, result = .ok update → update.preKeysUsed = none)
    (failed : commitResult store address result = (.error error, after)) : after = store := by
  cases result with
  | error failure =>
    cases failed
    rfl
  | ok update =>
    rcases commit_eq_error.mp failed with ⟨used, baseKey, uses, _⟩
    cases (usesNone update rfl).symm.trans uses

def ReplayCall (store : InMemStore P) (address : SignalProtocolAddress) : SessionCall P → Prop
  | .decryptPreKey message ourNewEphemeral => store.Replays address message ourNewEphemeral
  | _ => False

end InMemStore

theorem eq_error_of_map {Output : Type} {result : Except SignalProtocolError Output × InMemStore P}
    {error : SignalProtocolError}
    (failed : (result.map (Except.map fun _ => ()) id).1 = .error error) :
    result = (.error error, result.2) := by
  rcases result with ⟨_ | _, after⟩ <;> cases failed
  rfl

open InMemStore in
/-- A failed call leaves the stores as they were exactly when it is not the replay of a prekey
message from an address without an identity. -/
theorem failed_unchanged_iff {store : InMemStore P} {address : SignalProtocolAddress}
    {call : SessionCall P} {error : SignalProtocolError}
    (failed : (call.perform store address).1 = .error error) :
    (call.perform store address).2 = store ↔ ¬store.ReplayCall address call := by
  cases call with
  | encrypt ptext now random =>
    refine iff_of_true (commitResult_failed ?_ (eq_error_of_map failed)) id
    intro update computes
    rcases Result.bind_eq_ok.mp computes with ⟨record, _, updates⟩
    rcases encryptUpdate_eq_ok.mp updates with ⟨_, _, _, _, _, _, _, rfl⟩
    rfl
  | decryptSignal message ourNewEphemeral =>
    refine iff_of_true (commitResult_failed ?_ (eq_error_of_map failed)) id
    intro update computes
    rcases Result.bind_eq_ok.mp computes with ⟨record, _, updates⟩
    rcases decryptSignalUpdate_eq_ok.mp updates with ⟨_, _, _, _, _, _, rfl⟩
    rfl
  | decryptPreKey message ourNewEphemeral =>
    exact messageDecryptPreKey_failed_iff (eq_error_of_map failed)
  | processBundle bundle now random =>
    have failedHere : processPreKeyBundle store address bundle now random =
        (.error error, (processPreKeyBundle store address bundle now random).2) :=
      Prod.ext failed rfl
    refine iff_of_true (commitResult_failed ?_ failedHere) id
    intro update computes
    rcases Result.bind_eq_ok.mp computes with ⟨record, _, updates⟩
    rcases preKeyBundleUpdate_eq_ok.mp updates with ⟨_, _, _, _, _, _, _, _, _, rfl⟩
    rfl

namespace Symbolic

def bobMemory (seen : List ℕ) : InMemStore symbolic where
  keyPair := ⟨(2 : ℕ)⟩
  registrationId := 7
  knownKeys := fun _ => none
  preKeys := fun _ => none
  signedPreKeys := fun preKeyId => if preKeyId = 1 then some ⟨(3 : ℕ)⟩ else none
  kyberPreKeys := fun preKeyId => if preKeyId = 1 then some (4 : ℕ) else none
  baseKeysSeen := fun ids => if ids = (1, 1) then some seen else none
  sessions := fun _ => none

def damagedMessage : PreKeySignalMessage symbolic :=
  let sent := firstMessage (.plain 7)
  { sent with
    message := { sent.message with mac := Tag.mk firstKeys.macKey 5 2 sent.message.content } }

end Symbolic

open Symbolic in
/-- The first message with a damaged MAC fails and changes nothing. -/
theorem failed_unchanged_iff_damaged :
    ((SessionCall.decryptPreKey damagedMessage (12 : ℕ)).perform (bobMemory [10])
        ⟨"alice", 1⟩).1 = .error (.invalidMessage .preKey "decryption failed") ∧
      ((SessionCall.decryptPreKey damagedMessage (12 : ℕ)).perform (bobMemory [10])
        ⟨"alice", 1⟩).2 = bobMemory [10] := by
  have failed : ((SessionCall.decryptPreKey damagedMessage (12 : ℕ)).perform (bobMemory [10])
      ⟨"alice", 1⟩).1 = .error (.invalidMessage .preKey "decryption failed") := rfl
  refine ⟨failed, (failed_unchanged_iff failed).mpr ?_⟩
  rintro ⟨_, _, ⟨session, ptext, updated, makes, decrypts⟩, _⟩
  cases makes
  cases decrypts

namespace Symbolic

def contactedMemory : InMemStore symbolic :=
  ((SessionCall.decryptPreKey (firstMessage (.plain 7)) (12 : ℕ)).perform (bobMemory [])
    ⟨"alice", 1⟩).2

end Symbolic

open Symbolic in
/-- The first message once more, under an address of which no identity is known: it fails, and its
identity is saved. -/
theorem replay_saves_identity :
    ((SessionCall.decryptPreKey (firstMessage (.plain 7)) (12 : ℕ)).perform contactedMemory
        ⟨"mallory", 1⟩).1 = .error (.invalidMessage .preKey "reused base key") ∧
      contactedMemory.knownKeys ⟨"mallory", 1⟩ = none ∧
      ((SessionCall.decryptPreKey (firstMessage (.plain 7)) (12 : ℕ)).perform contactedMemory
        ⟨"mallory", 1⟩).2.knownKeys ⟨"mallory", 1⟩ = some ((1 : ℕ) : symbolic.PublicKey) :=
  ⟨rfl, rfl, rfl⟩

end LegacySignal
