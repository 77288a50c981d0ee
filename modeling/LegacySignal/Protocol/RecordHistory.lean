import LegacySignal.Library.Transition
import LegacySignal.Protocol.InMemStore

/-!
# A record over time

The states of a record move between the current place and the archive. An
operation can change one state, bring an archived one back, put a new one in
front, or archive the current one; `Moves` lists these, and everything about
records over time follows from it.
-/

namespace LegacySignal

open ProtocolStore List

variable {P : Primitives}

namespace SessionState

def origin (state : SessionState P) : ℕ × P.PublicKey := (state.sessionVersion, state.aliceBaseKey)

/-- What one operation makes of a session. -/
inductive Continues (state : SessionState P) : SessionState P → Prop where
  | same : Continues state state
  | archived : Continues state state.clearUnacknowledgedPreKeyMessage
  | sent {address : SignalProtocolAddress} {ptext : P.Bytes} {now : ℕ} {random : P.Random}
      {message : CiphertextMessage P} {next : SessionState P} {identity : P.PublicKey}
      (encrypts : state.encryptMessage address ptext now random = .ok (message, next, identity)) :
      Continues state next
  | received {ciphertext : SignalMessage P} {messageType : CiphertextMessageType}
      {ourNewEphemeral : P.PrivateKey} {ptext : P.Bytes} {next : SessionState P}
      (decrypts : state.decryptMessage ciphertext messageType ourNewEphemeral =
        .ok (ptext, next)) :
      Continues state next

variable {state next : SessionState P}

theorem origin_of_setup (same : next.setup = state.setup) :
    next.origin = state.origin := by
  have version : next.version = state.version := congrArg (fun setup => setup.1) same
  have baseKey : next.aliceBaseKey = state.aliceBaseKey :=
    congrArg (fun setup => setup.2.2.2.1) same
  simp only [origin, sessionVersion, version, baseKey]

theorem Continues.origin_eq (continues : state.Continues next) :
    next.origin = state.origin := by
  cases continues with
  | same => rfl
  | archived => rfl
  | sent encrypts =>
    rcases encryptMessage_frame encrypts with ⟨pqState, chain, rfl⟩
    rfl
  | received decrypts => exact origin_of_setup (setup_decryptMessage decrypts)

end SessionState

namespace SessionRecord

/-- What one operation makes of a record. -/
inductive Moves (record : SessionRecord P) : SessionRecord P → Prop where
  | kept : Moves record record
  | changed {state next : SessionState P} (isCurrent : record.currentSession = some state)
      (continues : state.Continues next) :
      Moves record { record with currentSession := some next }
  | promoted {position : ℕ} {state next : SessionState P}
      (found : record.previousSessions[position]? = some state)
      (continues : state.Continues next) : Moves record (record.promoteOldSession position next)
  | added {state : SessionState P} (new : state.origin ∉ record.states.map SessionState.origin) :
      Moves record (record.promoteState state)
  | archived : Moves record record.archiveCurrentState

/-- A record whose archive is bounded and whose sessions differ. -/
structure Kept (record : SessionRecord P) : Prop where
  bounded : record.previousSessions.length ≤ consts.ARCHIVED_STATES_MAX_LENGTH
  acknowledged : ∀ state ∈ record.previousSessions,
    state.pendingPreKey = none ∧ state.pendingKyberPreKey = none
  distinct : (record.states.map SessionState.origin).Nodup

/-- No session is lost, except for the oldest one of a full archive to which the current one is
added. -/
def Retains (before after : SessionRecord P) : Prop :=
  ∀ state ∈ before.states,
    (∃ next ∈ after.states, state.Continues next) ∨
    (before.previousSessions.length = consts.ARCHIVED_STATES_MAX_LENGTH ∧
      before.previousSessions.getLast? = some state ∧
      ∃ current, before.currentSession = some current ∧
        after.previousSessions.head? = some current.clearUnacknowledgedPreKeyMessage)

/-- What is left of an archive to which one more session is added. -/
def makeRoom (previous : List (SessionState P)) : List (SessionState P) :=
  if consts.ARCHIVED_STATES_MAX_LENGTH ≤ previous.length then previous.dropLast else previous

theorem makeRoom_sublist (previous : List (SessionState P)) :
    (makeRoom previous).Sublist previous := by
  unfold makeRoom
  split
  · exact dropLast_sublist _
  · exact Sublist.refl _

variable {previous : List (SessionState P)} {state : SessionState P} {record next : SessionRecord P}
  {version : ℕ} {aliceBaseKey : P.PublicKey}

theorem length_makeRoom (bounded : previous.length ≤ consts.ARCHIVED_STATES_MAX_LENGTH) :
    (makeRoom previous).length < consts.ARCHIVED_STATES_MAX_LENGTH := by
  have positive : 0 < consts.ARCHIVED_STATES_MAX_LENGTH := by decide
  unfold makeRoom
  split
  · rw [length_dropLast]
    omega
  · omega

theorem mem_makeRoom (bounded : previous.length ≤ consts.ARCHIVED_STATES_MAX_LENGTH)
    (member : state ∈ previous) :
    state ∈ makeRoom previous ∨
      previous.length = consts.ARCHIVED_STATES_MAX_LENGTH ∧ previous.getLast? = some state := by
  unfold makeRoom
  split
  · rename_i full
    rcases eq_nil_or_concat previous with rfl | ⟨front, last, rfl⟩
    · cases member
    · rw [concat_eq_append] at *
      rcases mem_append.mp member with early | isLast
      · left
        rw [dropLast_concat]
        exact early
      · right
        rw [mem_singleton.mp isLast]
        exact ⟨Nat.le_antisymm bounded full, getLast?_concat⟩
  · exact Or.inl member

section Archive

theorem length_archive (bounded :
    record.previousSessions.length ≤ consts.ARCHIVED_STATES_MAX_LENGTH) :
    record.archiveCurrentState.previousSessions.length ≤ consts.ARCHIVED_STATES_MAX_LENGTH := by
  rcases record with ⟨_ | current, previous⟩
  · exact bounded
  · exact length_makeRoom bounded

theorem acknowledged_archive (acknowledged : ∀ state ∈ record.previousSessions,
      state.pendingPreKey = none ∧ state.pendingKyberPreKey = none) :
    ∀ state ∈ record.archiveCurrentState.previousSessions,
      state.pendingPreKey = none ∧ state.pendingKyberPreKey = none := by
  rcases record with ⟨_ | current, previous⟩
  · exact acknowledged
  · intro state member
    rcases mem_cons.mp member with rfl | kept
    · exact ⟨rfl, rfl⟩
    · exact acknowledged state ((makeRoom_sublist previous).mem kept)

theorem origins_archive :
    (record.archiveCurrentState.previousSessions.map SessionState.origin).Sublist
      (record.states.map SessionState.origin) := by
  rcases record with ⟨_ | current, previous⟩
  · exact Sublist.refl _
  · exact ((makeRoom_sublist previous).map _).cons_cons _

theorem retained_archive (bounded :
    record.previousSessions.length ≤ consts.ARCHIVED_STATES_MAX_LENGTH)
    {state : SessionState P} (member : state ∈ record.states) :
    (∃ next ∈ record.archiveCurrentState.previousSessions, state.Continues next) ∨
    (record.previousSessions.length = consts.ARCHIVED_STATES_MAX_LENGTH ∧
      record.previousSessions.getLast? = some state ∧
      ∃ current, record.currentSession = some current ∧
        record.archiveCurrentState.previousSessions.head? =
          some current.clearUnacknowledgedPreKeyMessage) := by
  rcases record with ⟨_ | current, previous⟩
  · exact Or.inl ⟨state, member, .same⟩
  · rcases mem_cons.mp member with rfl | archived
    · exact Or.inl ⟨_, mem_cons_self, .archived⟩
    · rcases mem_makeRoom bounded archived with kept | ⟨full, isLast⟩
      · exact Or.inl ⟨state, mem_cons_of_mem _ kept, .same⟩
      · exact Or.inr ⟨full, isLast, current, rfl, rfl⟩

end Archive

theorem states_eraseIdx_perm {position : ℕ}
    (found : record.previousSessions[position]? = some state) :
    (state :: states { record with
      previousSessions := record.previousSessions.eraseIdx position }).Perm record.states := by
  rcases record with ⟨current, previous⟩
  rcases List.getElem?_eq_some_iff.mp found with ⟨inside, rfl⟩
  have restored := getElem_cons_eraseIdx_perm inside
  exact (perm_middle.symm).trans (restored.append_left current.toList)

theorem Kept.moves (kept : record.Kept) (moves : record.Moves next) : next.Kept := by
  cases moves with
  | kept => exact kept
  | changed isCurrent continues =>
    rename_i state changed
    rcases record with ⟨current, previous⟩
    cases isCurrent
    have same := continues.origin_eq
    refine ⟨kept.bounded, kept.acknowledged, ?_⟩
    have distinct := kept.distinct
    simp only [states, Option.toList_some, singleton_append, map_cons] at distinct ⊢
    rwa [same]
  | promoted found continues =>
    rename_i position state changed
    have shorter : (record.previousSessions.eraseIdx position).length ≤
        consts.ARCHIVED_STATES_MAX_LENGTH :=
      Nat.le_trans (length_eraseIdx_le _ _) kept.bounded
    have distinct := ((states_eraseIdx_perm found).map SessionState.origin).nodup_iff.mpr
      kept.distinct
    refine ⟨length_archive shorter, acknowledged_archive ?_, ?_⟩
    · intro other member
      exact kept.acknowledged other (mem_of_mem_eraseIdx member)
    · simp only [promoteOldSession, promoteState, states, Option.toList_some,
        singleton_append, map_cons, continues.origin_eq]
      rw [map_cons] at distinct
      exact distinct.sublist (origins_archive.cons_cons _)
  | added new =>
    rename_i state
    refine ⟨length_archive kept.bounded, acknowledged_archive kept.acknowledged, ?_⟩
    simp only [promoteState, states, Option.toList_some, singleton_append, map_cons]
    exact (nodup_cons.mpr ⟨new, kept.distinct⟩).sublist (origins_archive.cons_cons _)
  | archived =>
    refine ⟨length_archive kept.bounded, acknowledged_archive kept.acknowledged, ?_⟩
    rcases record with ⟨_ | current, previous⟩
    · exact kept.distinct
    · exact kept.distinct.sublist origins_archive

theorem Kept.retains (kept : record.Kept) (moves : record.Moves next) : record.Retains next := by
  intro state member
  cases moves with
  | kept => exact Or.inl ⟨state, member, .same⟩
  | changed isCurrent continues =>
    rcases record with ⟨current, previous⟩
    cases isCurrent
    left
    rcases mem_cons.mp member with rfl | archived
    · exact ⟨_, mem_cons_self, continues⟩
    · exact ⟨state, mem_cons_of_mem _ archived, .same⟩
  | promoted found continues =>
    rename_i position promotedState changed
    left
    rcases mem_cons.mp ((states_eraseIdx_perm found).mem_iff.mpr member) with rfl | other
    · exact ⟨_, mem_cons_self, continues⟩
    · have inside := (List.getElem?_eq_some_iff.mp found).1
      have shorter := length_eraseIdx_of_lt inside
      have bounded := kept.bounded
      rcases @retained_archive P ⟨record.currentSession, record.previousSessions.eraseIdx position⟩
        (by dsimp only; omega) state other with ⟨next, kept, continued⟩ | ⟨full, _⟩
      · exact ⟨next, mem_cons_of_mem _ kept, continued⟩
      · dsimp only at full
        omega
  | added new =>
    rcases retained_archive kept.bounded member with ⟨next, archived, continued⟩ | lost
    · exact Or.inl ⟨next, mem_cons_of_mem _ archived, continued⟩
    · exact Or.inr lost
  | archived =>
    rcases retained_archive kept.bounded member with ⟨next, archived, continued⟩ | lost
    · exact Or.inl ⟨next, mem_append_right _ archived, continued⟩
    · exact Or.inr lost

theorem kept_newFresh : (newFresh : SessionRecord P).Kept :=
  ⟨Nat.zero_le _, fun _ member => (not_mem_nil member).elim, nodup_nil⟩

theorem moves_decryptMessage {record decrypted : SessionRecord P} {ciphertext : SignalMessage P}
    {messageType : CiphertextMessageType} {ourNewEphemeral : P.PrivateKey} {ptext : P.Bytes}
    (decrypts : record.decryptMessage ciphertext messageType ourNewEphemeral =
      .ok (ptext, decrypted)) : record.Moves decrypted := by
  rcases decryptMessage_eq_ok decrypts with
    ⟨state, updated, _, attempted, ⟨isCurrent, rfl⟩ | ⟨position, found, rfl, _⟩⟩
  · exact .changed isCurrent (.received attempted)
  · exact .promoted found (.received attempted)

theorem not_mem_origins_of_missing (missing : record.matchingSession version aliceBaseKey = none) :
    (version, aliceBaseKey) ∉ record.states.map SessionState.origin := by
  intro member
  rcases mem_map.mp member with ⟨state, present, same⟩
  have different := find?_eq_none.mp missing state present
  apply different
  cases same
  simp [Matches]

theorem origin_of_matching (found : record.matchingSession version aliceBaseKey = some state) :
    state.origin = (version, aliceBaseKey) := by
  have isMatch := find?_some found
  simp only [Matches, Bool.and_eq_true, decide_eq_true_eq] at isMatch
  exact Prod.ext isMatch.1 isMatch.2

end SessionRecord

/-- What `PreKeySignalMessage::try_from` lets through. -/
def PreKeySignalMessage.Parsed (message : PreKeySignalMessage P) : Prop :=
  CIPHERTEXT_MESSAGE_PRE_KYBER_VERSION ≤ message.messageVersion ∧
    message.messageVersion ≤ CIPHERTEXT_MESSAGE_CURRENT_VERSION ∧
    (message.kyberPayload = none →
      message.messageVersion ≤ CIPHERTEXT_MESSAGE_PRE_KYBER_VERSION)

variable {Store : Type} [ProtocolStore P Store] {store : Store} {message : PreKeySignalMessage P}
  {address : SignalProtocolAddress} {record : SessionRecord P}

theorem origin_sessionFromPreKey {session : SessionState P} (parsed : message.Parsed)
    (makes : sessionFromPreKey store message = .ok session) :
    session.origin = (message.messageVersion, message.baseKey) := by
  rcases sessionFromPreKey_eq_ok.mp makes with
    ⟨version, parameters, made, _, parametersEq, madeEq, _, rfl⟩
  rcases bobParameters_eq_ok.mp parametersEq with ⟨_, _, _, _, _, _, _, _, _, _, rfl⟩
  rcases initializeBobSession_eq_ok.mp madeEq with ⟨_, _, _, _, _, rfl⟩
  have current : message.messageVersion = CIPHERTEXT_MESSAGE_CURRENT_VERSION := by
    rcases parsed with ⟨lower, upper, _⟩
    simp only [CIPHERTEXT_MESSAGE_PRE_KYBER_VERSION, CIPHERTEXT_MESSAGE_CURRENT_VERSION] at *
    omega
  rw [current]
  rfl

theorem moves_decryptPreKeyUpdate {ourNewEphemeral : P.PrivateKey}
    {update : SessionUpdate P P.Bytes} (parsed : message.Parsed)
    (updates : decryptPreKeyUpdate store address message ourNewEphemeral record = .ok update) :
    record.Moves update.record ∧ ∃ state, update.record.currentSession = some state ∧
      state.origin = (message.messageVersion, message.baseKey) := by
  rcases decryptPreKeyUpdate_eq_ok.mp updates with
    ⟨_, used, processed, ptext, decrypted, processes, decrypts, rfl⟩
  rcases SessionRecord.decryptMessage_eq_ok decrypts with ⟨state, updated, _, attempted, place⟩
  have continues : state.Continues updated := .received attempted
  have origin := continues.origin_eq
  have isCurrent : processed.currentSession.isSome →
      processed.currentSession = some state ∧
        decrypted = { processed with currentSession := some updated } := by
    intro present
    rcases place with kept | ⟨_, _, _, noCurrent⟩
    · exact kept
    · rw [noCurrent rfl] at present
      cases present
  rcases processPreKey_eq_ok processes with
    ⟨_, found, isMatching, ⟨current, rfl⟩ | ⟨position, located, rfl⟩⟩ |
      ⟨missing, _, session, makes, rfl⟩
  · rcases isCurrent (by rw [current]; rfl) with ⟨same, rfl⟩
    cases current.symm.trans same
    refine ⟨.changed current continues, updated, rfl, ?_⟩
    rw [origin, SessionRecord.origin_of_matching isMatching]
  · rcases isCurrent rfl with ⟨same, rfl⟩
    cases same
    refine ⟨.promoted located continues, updated, rfl, ?_⟩
    rw [origin, SessionRecord.origin_of_matching isMatching]
  · rcases isCurrent rfl with ⟨same, rfl⟩
    cases same
    have made := origin_sessionFromPreKey parsed makes
    refine ⟨@SessionRecord.Moves.added P record updated ?_, updated, rfl, by rw [origin, made]⟩
    rw [origin, made]
    exact SessionRecord.not_mem_origins_of_missing missing

theorem moves_preKeyBundleUpdate {bundle : PreKeyBundle P} {now : ℕ} {random : BundleRandomness P}
    {update : SessionUpdate P Unit}
    (fresh : ∀ state ∈ record.states, state.aliceBaseKey ≠ P.publicKey random.baseKey)
    (updates : preKeyBundleUpdate store address bundle now random record = .ok update) :
    record.Moves update.record := by
  rcases preKeyBundleUpdate_eq_ok.mp updates with
    ⟨_, _, _, identity, session, localId, _, makes, _, rfl⟩
  rcases initializeAliceSession_eq_ok.mp makes with ⟨_, _, _, _, _, rfl⟩
  apply SessionRecord.Moves.added
  intro member
  rcases mem_map.mp member with ⟨state, present, same⟩
  exact fresh state present (congrArg Prod.snd same)

namespace RecordHistory

/-- What happens to the session of one address. -/
inductive Event (P : Primitives) (Store : Type) where
  | call (call : SessionCall P)
  | archive
  /-- Anything else that changes the store. -/
  | outside (changed : Store)

/-- `archive_current_state` on the stored record. -/
def archiveSession (store : Store) (address : SignalProtocolAddress) : Store :=
  match loadSession store address with
  | .ok (some record) => storeSession store address record.archiveCurrentState
  | _ => store

def step (address : SignalProtocolAddress) (store : Store) : Event P Store → Option Store
  | .call call => some (call.perform store address).2
  | .archive => some (archiveSession store address)
  | .outside changed => some changed

/-- A received prekey message has been parsed, a generated base key is not that of a session of
the record, and what happens elsewhere leaves the session. -/
def Allowed (address : SignalProtocolAddress) (store : Store) : Event P Store → Prop
  | .call (.decryptPreKey message _) => message.Parsed
  | .call (.processBundle _ _ random) =>
    ∀ record, loadOrFresh store address = .ok record →
      ∀ state ∈ record.states, state.aliceBaseKey ≠ P.publicKey random.baseKey
  | .outside changed => loadSession changed address = loadSession store address
  | _ => True

def Decrypted (address : SignalProtocolAddress) (store : Store) (message : PreKeySignalMessage P) :
    Event P Store → Prop
  | .call (.decryptPreKey ciphertext ourNewEphemeral) =>
    ciphertext = message ∧
      ∃ ptext, (messageDecryptPreKey store address ciphertext ourNewEphemeral).1 = .ok ptext
  | _ => False

variable [LawfulProtocolStore P Store] {next : Store} {event : Event P Store}

theorem moves_commitResult {Output : Type}
    {load : Except SignalProtocolError (SessionRecord P)}
    {compute : SessionRecord P → Except SignalProtocolError (SessionUpdate P Output)}
    (loaded : loadOrFresh store address = .ok record)
    (loads : ∀ other, load = .ok other → loadOrFresh store address = .ok other)
    (moves : ∀ update, compute record = .ok update → record.Moves update.record) :
    ∃ after, loadOrFresh (commitResult store address (load.bind compute)).2 address = .ok after ∧
      record.Moves after := by
  rcases commitResult_cases store address (load.bind compute) with
    ⟨update, computes, _, stored⟩ | ⟨_, kept⟩
  · rcases Result.bind_eq_ok.mp computes with ⟨other, loadEq, computed⟩
    cases loaded.symm.trans (loads other loadEq)
    exact ⟨update.record, stored, moves update computed⟩
  · exact ⟨record, kept.trans loaded, .kept⟩

theorem moves_step (loaded : loadOrFresh store address = .ok record)
    (allowed : Allowed address store event) (stepped : step address store event = some next) :
    ∃ after, loadOrFresh next address = .ok after ∧ record.Moves after := by
  cases event with
  | call call =>
    cases stepped
    cases call with
    | encrypt ptext now random =>
      change ∃ after, loadOrFresh (messageEncrypt store address ptext now random).2 address =
        .ok after ∧ _
      unfold messageEncrypt
      apply moves_commitResult loaded (fun other => loadOrFresh_of_loadExisting)
      intro update updates
      rcases encryptUpdate_eq_ok.mp updates with
        ⟨state, _, sent, _, isCurrent, encrypts, _, rfl⟩
      exact .changed isCurrent (.sent encrypts)
    | decryptSignal message ourNewEphemeral =>
      change ∃ after, loadOrFresh (messageDecryptSignal store address message
        ourNewEphemeral).2 address = .ok after ∧ _
      unfold messageDecryptSignal
      apply moves_commitResult loaded (fun other => loadOrFresh_of_loadExisting)
      intro update updates
      rcases decryptSignalUpdate_eq_ok.mp updates with ⟨_, _, _, decrypts, _, _, rfl⟩
      exact SessionRecord.moves_decryptMessage decrypts
    | decryptPreKey message ourNewEphemeral =>
      change ∃ after, loadOrFresh (messageDecryptPreKey store address message
        ourNewEphemeral).2 address = .ok after ∧ _
      unfold messageDecryptPreKey
      apply moves_commitResult loaded (fun other found => found)
      intro update updates
      exact (moves_decryptPreKeyUpdate allowed updates).1
    | processBundle bundle now random =>
      apply moves_commitResult loaded (fun other found => found)
      intro update updates
      exact moves_preKeyBundleUpdate (allowed record loaded) updates
  | archive =>
    cases stepped
    unfold archiveSession
    rcases Result.map_eq_ok.mp loaded with ⟨held, loadEq, same⟩
    rw [loadEq]
    cases held with
    | none => exact ⟨record, loaded, .kept⟩
    | some held =>
      cases same
      exact ⟨_, loadOrFresh_storeSession _ _ _, .archived⟩
  | outside changed =>
    cases stepped
    exact ⟨record, (loadOrFresh_congr allowed).trans loaded, .kept⟩

theorem current_of_decrypted {message : PreKeySignalMessage P}
    (allowed : Allowed address store event) (decrypted : Decrypted address store message event)
    (stepped : step address store event = some next) {after : SessionRecord P}
    (stored : loadOrFresh next address = .ok after) :
    ∃ state, after.currentSession = some state ∧
      state.origin = (message.messageVersion, message.baseKey) := by
  cases event with
  | archive => cases decrypted
  | outside changed => cases decrypted
  | call call =>
    cases call with
    | encrypt ptext now random => cases decrypted
    | decryptSignal ciphertext ourNewEphemeral => cases decrypted
    | processBundle bundle now random => cases decrypted
    | decryptPreKey ciphertext ourNewEphemeral =>
      rcases decrypted with ⟨rfl, ptext, succeeded⟩
      cases stepped
      rcases commitResult_cases store address ((loadOrFresh store address).bind
          (decryptPreKeyUpdate store address ciphertext ourNewEphemeral)) with
        ⟨update, computes, _, kept⟩ | ⟨⟨error, failed⟩, _⟩
      · cases stored.symm.trans kept
        rcases Result.bind_eq_ok.mp computes with ⟨other, loadEq, computed⟩
        exact (moves_decryptPreKeyUpdate allowed computed).2
      · cases succeeded.symm.trans failed

/-- The sessions of a record are kept over every run that starts with a fresh one. -/
theorem record_keeps_sessions {final : Store} {events : List (Event P Store)}
    (fresh : loadOrFresh store address = .ok SessionRecord.newFresh)
    (allowed : Transition.Meets (step address) (Allowed address) store events)
    (reached : Transition.run (step address) store events = some final) :
    ∃ record, loadOrFresh final address = .ok record ∧ record.Kept ∧
      ∀ event next, Allowed address final event → step address final event = some next →
        ∃ after, loadOrFresh next address = .ok after ∧ record.Retains after ∧
          ∀ message, Decrypted address final message event →
            ∃ state, after.currentSession = some state ∧
              state.origin = (message.messageVersion, message.baseKey) := by
  have invariant : ∃ record, loadOrFresh final address = .ok record ∧ record.Kept := by
    apply Transition.run_invariant_of_meets _ _ allowed reached
    · rintro store event next ⟨record, loaded, kept⟩ allowed stepped
      rcases moves_step loaded allowed stepped with ⟨after, stored, moves⟩
      exact ⟨after, stored, kept.moves moves⟩
    · exact ⟨_, fresh, SessionRecord.kept_newFresh⟩
  rcases invariant with ⟨record, loaded, kept⟩
  refine ⟨record, loaded, kept, ?_⟩
  intro event next allowed stepped
  rcases moves_step loaded allowed stepped with ⟨after, stored, moves⟩
  refine ⟨after, stored, kept.retains moves, ?_⟩
  intro message decrypted
  exact current_of_decrypted allowed decrypted stepped stored

open Symbolic in
/-- A run that receives the first message and archives its session. -/
theorem record_keeps_sessions_archived :
    ∃ record : SessionRecord symbolic,
      loadOrFresh (archiveSession contactedMemory ⟨"alice", 1⟩) ⟨"alice", 1⟩ = .ok record ∧
      record.Kept ∧
      ∀ event next, Allowed ⟨"alice", 1⟩ (archiveSession contactedMemory ⟨"alice", 1⟩) event →
        step ⟨"alice", 1⟩ (archiveSession contactedMemory ⟨"alice", 1⟩) event = some next →
        ∃ after, loadOrFresh next ⟨"alice", 1⟩ = .ok after ∧ record.Retains after ∧
          ∀ message, Decrypted ⟨"alice", 1⟩ (archiveSession contactedMemory ⟨"alice", 1⟩) message
            event → ∃ state, after.currentSession = some state ∧
              state.origin = (message.messageVersion, message.baseKey) := by
  let events : List (Event symbolic (InMemStore symbolic)) :=
    [.call (.decryptPreKey (firstMessage (.plain 7)) (12 : ℕ)), .archive]
  have parsed : (firstMessage (.plain 7)).Parsed := by
    refine ⟨by decide, by decide, ?_⟩
    intro missing
    cases missing
  have allowed : Transition.Meets (step ⟨"alice", 1⟩) (Allowed ⟨"alice", 1⟩) (bobMemory [])
      events := by
    refine ⟨parsed, ?_⟩
    intro next stepped
    exact ⟨trivial, fun _ _ => trivial⟩
  have reached : Transition.run (step ⟨"alice", 1⟩) (bobMemory []) events =
      some (archiveSession contactedMemory ⟨"alice", 1⟩) := rfl
  exact record_keeps_sessions rfl allowed reached

end RecordHistory

end LegacySignal
