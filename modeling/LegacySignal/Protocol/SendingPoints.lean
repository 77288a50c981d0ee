import LegacySignal.Protocol.StoreSpec

/-!
# The points at which a record sends

A session sends at a point: its sending ratchet key with the counter of the
next message. Encrypting moves one point on by one. Receiving keeps every
point, loses some, or puts a point of a newly drawn key at counter zero.
-/

namespace LegacySignal

open List SessionRecord

variable {P : Primitives} {Store : Type} {store : Store} {address : SignalProtocolAddress} {now : ℕ}
  {random : P.Random} {record : SessionRecord P} {ourNewEphemeral : P.PrivateKey}
  {update : SessionUpdate P P.Bytes} {session : SessionState P}

namespace SessionState

/-- The sending ratchet key and the counter of the next message. -/
def sendingPoint (state : SessionState P) : Option (P.PublicKey × UInt32) :=
  state.senderChain.map fun chain => (chain.ratchetKey.publicKey, chain.chainKey.index)

@[simp]
theorem sendingPoint_clearUnacknowledgedPreKeyMessage (state : SessionState P) :
    state.clearUnacknowledgedPreKeyMessage.sendingPoint = state.sendingPoint := rfl

variable {ptext : P.Bytes}

theorem inner_of_wrapMessage {state : SessionState P} {message : SignalMessage P}
    {wrapped : CiphertextMessage P}
    (succeeded : state.wrapMessage address now message = .ok wrapped) :
    wrapped.inner = message := by
  unfold wrapMessage at succeeded
  split at succeeded
  · cases succeeded
    rfl
  · split at succeeded
    · cases succeeded
    · cases succeeded
      rfl

/-- The message is sent at the point of the state, which moves on by one. -/
theorem sendingPoint_encryptMessage {state sent : SessionState P} {random : P.Random}
    {message : CiphertextMessage P} {theirIdentityKey : P.PublicKey}
    (succeeded : state.encryptMessage address ptext now random =
      .ok (message, sent, theirIdentityKey)) :
    ∃ key index, state.sendingPoint = some (key, index) ∧
      message.inner.content.senderRatchetKey = key ∧ message.inner.content.counter = index ∧
      sent.sendingPoint = some (key, index + 1) := by
  rcases encryptMessage_eq_ok succeeded with
    ⟨chain, pqState, _, _, _, sender, _, _, _, wraps, rfl⟩
  have inner := inner_of_wrapMessage wraps
  refine ⟨chain.ratchetKey.publicKey, chain.chainKey.index, ?_, ?_, ?_, rfl⟩
  · simp only [sendingPoint, sender, Option.map_some]
  · rw [inner]
    rfl
  · rw [inner]
    rfl

theorem sendingPoint_getOrCreateChainKey {state chained : SessionState P}
    {theirEphemeral : P.PublicKey} {chainKey : ChainKey P}
    (succeeded : state.getOrCreateChainKey theirEphemeral ourNewEphemeral =
      .ok (chainKey, chained)) :
    (chained = state ∧ state.receiverChains ≠ []) ∨
      chained.sendingPoint = some (P.publicKey ourNewEphemeral, 0) := by
  unfold getOrCreateChainKey at succeeded
  split at succeeded
  · rename_i found
    cases succeeded
    refine Or.inl ⟨rfl, ?_⟩
    intro empty
    simp [getReceiverChainKey, getReceiverChain, empty] at found
  · rcases Result.bind_eq_ok.mp succeeded with ⟨chain, _, succeeded⟩
    cases succeeded
    exact Or.inr rfl

/-- Decrypting keeps the point or leaves the drawn key at zero. -/
theorem sendingPoint_decryptMessage {state updated : SessionState P} {ciphertext : SignalMessage P}
    {messageType : CiphertextMessageType}
    (succeeded : state.decryptMessage ciphertext messageType ourNewEphemeral =
      .ok (ptext, updated)) :
    (updated.sendingPoint = state.sendingPoint ∧ state.receiverChains ≠ []) ∨
      updated.sendingPoint = some (P.publicKey ourNewEphemeral, 0) := by
  rcases decrypts_of_eq_ok succeeded with ⟨steps⟩
  rcases getOrCreateMessageKey_frame steps.generator_eq with ⟨chains, keyed⟩
  have sender : steps.keyed.senderChain = steps.chained.senderChain := by
    rw [keyed]
  have kept : updated.sendingPoint = steps.chained.sendingPoint :=
    (congrArg sendingPoint steps.updated_eq).trans (congrArg (Option.map _) sender)
  rcases sendingPoint_getOrCreateChainKey steps.chainKey_eq with ⟨same, received⟩ | drawn
  · exact Or.inl ⟨by rw [kept, same], received⟩
  · exact Or.inr (by rw [kept, drawn])

end SessionState

namespace SessionRecord

/-- The points of all states, that of the current one first. -/
def sendingPoints (record : SessionRecord P) : List (P.PublicKey × UInt32) :=
  record.states.filterMap SessionState.sendingPoint

theorem filterMap_cons_eq (state : SessionState P) (rest : List (SessionState P)) :
    (state :: rest).filterMap SessionState.sendingPoint =
      state.sendingPoint.toList ++ rest.filterMap SessionState.sendingPoint := by
  rw [filterMap_cons]
  cases state.sendingPoint <;> rfl

theorem sendingPoints_eq (current : Option (SessionState P)) (previous : List (SessionState P)) :
    (⟨current, previous⟩ : SessionRecord P).sendingPoints =
      (current.bind SessionState.sendingPoint).toList ++
        previous.filterMap SessionState.sendingPoint := by
  cases current with
  | none => rfl
  | some state =>
    simp only [sendingPoints, states, Option.toList_some, singleton_append,
      filterMap_cons_eq, Option.bind_some]

theorem promoteState_eq (record : SessionRecord P) (newState : SessionState P) :
    record.promoteState newState =
      ⟨some newState, record.archiveCurrentState.previousSessions⟩ := rfl

/-- Archiving keeps the points of the states that still fit. -/
theorem sendingPoints_archiveCurrentState (record : SessionRecord P) :
    Subperm (record.archiveCurrentState.previousSessions.filterMap SessionState.sendingPoint)
      record.sendingPoints := by
  rcases record with ⟨current, previous⟩
  cases current with
  | none =>
    rw [sendingPoints_eq]
    exact Subperm.refl _
  | some state =>
    simp only [archiveCurrentState, sendingPoints_eq, Option.bind_some, filterMap_cons_eq,
      SessionState.sendingPoint_clearUnacknowledgedPreKeyMessage]
    apply Sublist.subperm
    apply Sublist.append_left
    apply Sublist.filterMap
    split
    · exact dropLast_sublist _
    · exact Sublist.refl _

theorem sendingPoints_promoteState (record : SessionRecord P) (newState : SessionState P) :
    Subperm (record.promoteState newState).sendingPoints
      (newState.sendingPoint.toList ++ record.sendingPoints) := by
  rw [promoteState_eq, sendingPoints_eq]
  exact (subperm_append_left _).mpr (sendingPoints_archiveCurrentState record)

variable {position : ℕ} {state updated : SessionState P} {ciphertext : SignalMessage P}
  {messageType : CiphertextMessageType} {ptext : P.Bytes}

/-- A state that is taken out takes its point with it. -/
theorem filterMap_eraseIdx_perm {states : List (SessionState P)}
    (found : states[position]? = some state) :
    (state.sendingPoint.toList ++
      (states.eraseIdx position).filterMap SessionState.sendingPoint).Perm
        (states.filterMap SessionState.sendingPoint) := by
  induction states generalizing position with
  | nil => cases found
  | cons first rest ih =>
    cases position with
    | zero =>
      cases found
      rw [eraseIdx_cons_zero, filterMap_cons_eq]
    | succ position =>
      have rest := ih (by simpa using found)
      rw [eraseIdx_cons_succ, filterMap_cons_eq, filterMap_cons_eq]
      exact (perm_append_comm_assoc _ _ _).trans (rest.append_left _)

theorem sendingPoints_promoteOldSession {record : SessionRecord P}
    (found : record.previousSessions[position]? = some state) {points : List (P.PublicKey × UInt32)}
    (covered : Subperm updated.sendingPoint.toList (points ++ state.sendingPoint.toList)) :
    Subperm (record.promoteOldSession position updated).sendingPoints
      (points ++ record.sendingPoints) := by
  rcases record with ⟨current, previous⟩
  have promoted := sendingPoints_promoteState
    (⟨current, previous.eraseIdx position⟩ : SessionRecord P) updated
  have restored := filterMap_eraseIdx_perm found
  rw [sendingPoints_eq current (previous.eraseIdx position)] at promoted
  rw [sendingPoints_eq current previous]
  have added := (subperm_append_right ((current.bind SessionState.sendingPoint).toList ++
    (previous.eraseIdx position).filterMap SessionState.sendingPoint)).mpr covered
  refine promoted.trans (added.trans ?_)
  rw [append_assoc]
  apply (subperm_append_left _).mpr
  exact ((perm_append_comm_assoc _ _ _).trans (restored.append_left _)).subperm

theorem sendingPoint_subperm
    (succeeded : state.decryptMessage ciphertext messageType ourNewEphemeral =
      .ok (ptext, updated)) :
    Subperm updated.sendingPoint.toList
      ([(P.publicKey ourNewEphemeral, 0)] ++ state.sendingPoint.toList) := by
  apply Sublist.subperm
  rcases SessionState.sendingPoint_decryptMessage succeeded with ⟨same, _⟩ | drawn
  · rw [same]
    exact sublist_append_right _ _
  · rw [drawn]
    exact sublist_append_left _ _

/-- Whichever state decrypts, only the drawn key can be a new point. -/
theorem sendingPoints_decryptMessage {record decrypted : SessionRecord P}
    (succeeded : record.decryptMessage ciphertext messageType ourNewEphemeral =
      .ok (ptext, decrypted)) :
    Subperm decrypted.sendingPoints
      ((P.publicKey ourNewEphemeral, 0) :: record.sendingPoints) := by
  rcases decryptMessage_eq_ok succeeded with
    ⟨state, updated, _, attempted, ⟨present, rfl⟩ | ⟨position, found, rfl, _⟩⟩
  · rcases record with ⟨_, previous⟩
    cases present
    rw [sendingPoints_eq, sendingPoints_eq]
    exact (subperm_append_right _).mpr (sendingPoint_subperm attempted)
  · exact sendingPoints_promoteOldSession found (sendingPoint_subperm attempted)

/-- A state without receiver chains draws a key with its first message. -/
theorem sendingPoints_decryptMessage_new {newState : SessionState P}
    {previous : List (SessionState P)} {decrypted : SessionRecord P}
    (unused : newState.receiverChains = [])
    (succeeded : decryptMessage ⟨some newState, previous⟩ ciphertext .preKey ourNewEphemeral =
      .ok (ptext, decrypted)) :
    decrypted.sendingPoints =
      (P.publicKey ourNewEphemeral, 0) :: previous.filterMap SessionState.sendingPoint := by
  rcases decryptMessage_eq_ok succeeded with
    ⟨state, updated, _, attempted, ⟨present, rfl⟩ | ⟨_, _, _, noCurrent⟩⟩
  · cases present
    rcases SessionState.sendingPoint_decryptMessage attempted with ⟨_, received⟩ | drawn
    · exact absurd unused received
    · simp only [sendingPoints_eq, Option.bind_some, drawn, Option.toList_some,
        singleton_append]
  · cases noCurrent rfl

theorem sendingPoints_promoted {record promoted : SessionRecord P}
    (origin : (record.currentSession = some state ∧ promoted = record) ∨
      ∃ position, record.previousSessions[position]? = some state ∧
        promoted = record.promoteOldSession position state) :
    Subperm promoted.sendingPoints record.sendingPoints := by
  rcases origin with ⟨_, rfl⟩ | ⟨position, present, rfl⟩
  · exact Subperm.refl _
  · exact @sendingPoints_promoteOldSession _ _ _ _ _ present [] (Subperm.refl _)

end SessionRecord

open ProtocolStore

variable [ProtocolStore P Store]

/-- Encrypting moves the first point on by one. -/
theorem encryptUpdate_sendingPoints {ptext : P.Bytes}
    {update : SessionUpdate P (CiphertextMessage P)}
    (succeeded : encryptUpdate store address ptext now random record = .ok update) :
    ∃ key index rest, record.sendingPoints = (key, index) :: rest ∧
      update.record.sendingPoints = (key, index + 1) :: rest ∧
      update.output.inner.content.senderRatchetKey = key ∧
      update.output.inner.content.counter = index := by
  rcases encryptUpdate_eq_ok.mp succeeded with ⟨state, message, sent, _, present, sentEq, _, rfl⟩
  rcases SessionState.sendingPoint_encryptMessage sentEq with
    ⟨key, index, point, keyEq, indexEq, sentPoint⟩
  rcases record with ⟨current, previous⟩
  cases present
  refine ⟨key, index, previous.filterMap SessionState.sendingPoint, ?_, ?_, keyEq, indexEq⟩
  · simp only [sendingPoints_eq, Option.bind_some, point, Option.toList_some,
      singleton_append]
  · simp only [sendingPoints_eq, Option.bind_some, sentPoint, Option.toList_some,
      singleton_append]

theorem decryptSignalUpdate_sendingPoints {ciphertext : SignalMessage P}
    (succeeded : decryptSignalUpdate store address ciphertext ourNewEphemeral record =
      .ok update) :
    Subperm update.record.sendingPoints
      ((P.publicKey ourNewEphemeral, 0) :: record.sendingPoints) := by
  rcases decryptSignalUpdate_eq_ok.mp succeeded with ⟨_, _, _, decryptedEq, _, _, rfl⟩
  exact sendingPoints_decryptMessage decryptedEq

theorem receiverChains_initializeBobSession {parameters : BobSignalProtocolParameters P}
    (succeeded : initializeBobSession parameters = .ok session) :
    session.receiverChains = [] := by
  rcases initializeBobSession_eq_ok.mp succeeded with ⟨_, _, _, _, _, rfl⟩
  rfl

theorem receiverChains_sessionFromPreKey {message : PreKeySignalMessage P}
    (succeeded : sessionFromPreKey store message = .ok session) :
    session.receiverChains = [] := by
  rcases sessionFromPreKey_eq_ok.mp succeeded with ⟨_, _, made, _, _, madeEq, _, rfl⟩
  exact (receiverChains_initializeBobSession madeEq : made.receiverChains = [])

/-- This includes sessions that the message sets up, which have no receiver chains yet. -/
theorem decryptPreKeyUpdate_sendingPoints {ciphertext : PreKeySignalMessage P}
    (succeeded : decryptPreKeyUpdate store address ciphertext ourNewEphemeral record =
      .ok update) :
    Subperm update.record.sendingPoints
      ((P.publicKey ourNewEphemeral, 0) :: record.sendingPoints) := by
  rcases decryptPreKeyUpdate_eq_ok.mp succeeded with
    ⟨_, used, processed, ptext, decrypted, processes, decrypts, rfl⟩
  rcases processPreKey_eq_ok processes with ⟨_, state, _, promoted⟩ | ⟨_, _, session, makes, rfl⟩
  · refine (sendingPoints_decryptMessage decrypts).trans ?_
    exact (subperm_cons _).mpr (sendingPoints_promoted promoted)
  · have unused := receiverChains_sessionFromPreKey makes
    rw [promoteState_eq] at decrypts
    rw [sendingPoints_decryptMessage_new unused decrypts]
    exact (subperm_cons _).mpr (sendingPoints_archiveCurrentState record)

theorem sendingPoint_initializeAliceSession {parameters : AliceSignalProtocolParameters P}
    {ratchetKey : P.PrivateKey}
    (succeeded : initializeAliceSession parameters random ratchetKey = .ok session) :
    session.sendingPoint = some (P.publicKey ratchetKey, 0) := by
  rcases initializeAliceSession_eq_ok.mp succeeded with ⟨_, _, _, _, _, rfl⟩
  rfl

/-- A session from a bundle sends with the drawn ratchet key. -/
theorem preKeyBundleUpdate_sendingPoints {bundle : PreKeyBundle P} {random : BundleRandomness P}
    {update : SessionUpdate P Unit}
    (succeeded : preKeyBundleUpdate store address bundle now random record = .ok update) :
    Subperm update.record.sendingPoints
      ((P.publicKey random.ratchetKey, 0) :: record.sendingPoints) := by
  rcases preKeyBundleUpdate_eq_ok.mp succeeded with
    ⟨_, _, _, _, session, localRegistrationId, _, sessionEq, _, rfl⟩
  have point := sendingPoint_initializeAliceSession sessionEq
  have promoted := sendingPoints_promoteState record
    (session.setUnacknowledged bundle (P.publicKey random.baseKey) now localRegistrationId)
  change Subperm _ (session.sendingPoint.toList ++ _) at promoted
  rwa [point] at promoted

end LegacySignal
