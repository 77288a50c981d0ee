import LegacySignal.Protocol.Cipher

/-!
# What encryption and decryption do to a session

One lemma for each function of the cipher says what a success means. The
results about runs rest on these and never look into the functions again.
-/

namespace LegacySignal

open Result

variable {P : Primitives}

namespace SessionState

theorem requireSenderChain_eq_ok {state : SessionState P} {chain : SenderChain P} :
    state.requireSenderChain = .ok chain ↔ state.senderChain = some chain := okOr_eq_ok

/-- The state after a received message: the keys of the chains and of the post-quantum ratchet
have moved on, and the setup counts as acknowledged. -/
def acknowledge (state : SessionState P) (pqState : P.PqState) : SessionState P :=
  { state with pqRatchetState := pqState }.clearUnacknowledgedPreKeyMessage

/-- A message that could be decrypted, step by step. -/
structure Decrypts (state : SessionState P) (ciphertext : SignalMessage P)
    (messageType : CiphertextMessageType) (ourNewEphemeral : P.PrivateKey)
    (ptext : P.Bytes) (updated : SessionState P) where
  chainKey : ChainKey P
  chained : SessionState P
  generator : MessageKeyGenerator P
  keyed : SessionState P
  pqState : P.PqState
  pqrKey : Option P.Secret
  keys : MessageKeys P
  theirIdentityKey : P.PublicKey
  version : ciphertext.content.messageVersion = state.sessionVersion
  chainKey_eq : state.getOrCreateChainKey ciphertext.content.senderRatchetKey ourNewEphemeral =
    .ok (chainKey, chained)
  generator_eq : chained.getOrCreateMessageKey ciphertext.content.senderRatchetKey messageType
    chainKey ciphertext.content.counter = .ok (generator, keyed)
  pqrKey_eq : P.pqRecv keyed.pqRatchetState ciphertext.content.pqRatchet = .ok (pqState, pqrKey)
  keys_eq : generator.generateKeys pqrKey = .ok keys
  identity : keyed.remoteIdentityKey = some theirIdentityKey
  mac : ciphertext.verifyMac theirIdentityKey keyed.localIdentityKey keys.macKey = true
  ptext_eq : P.aesCbcDecrypt ciphertext.content.ciphertext keys.cipherKey keys.iv = some ptext
  updated_eq : updated = keyed.acknowledge pqState

variable {messageType : CiphertextMessageType} {state updated : SessionState P}
  {ciphertext : SignalMessage P} {ourNewEphemeral : P.PrivateKey} {ptext : P.Bytes}
  {sender : P.PublicKey} {counter : UInt32} {generator : MessageKeyGenerator P}
  {theirEphemeral : P.PublicKey} {chainKey : ChainKey P} {sent : SessionState P}
  {address : SignalProtocolAddress} {now : ℕ} {random : P.Random} {message : CiphertextMessage P}
  {theirIdentityKey : P.PublicKey}

theorem pqRatchetRecv_eq_ok {state received : SessionState P} {message : P.PqMessage}
    {pqrKey : Option P.Secret} :
    state.pqRatchetRecv messageType message = .ok (pqrKey, received) ↔
      ∃ pqState, P.pqRecv state.pqRatchetState message = .ok (pqState, pqrKey) ∧
        received = { state with pqRatchetState := pqState } := by
  unfold pqRatchetRecv
  constructor
  · intro succeeded
    split at succeeded
    · rename_i pqState key recv
      cases succeeded
      exact ⟨pqState, recv, rfl⟩
    · cases succeeded
    · cases succeeded
  · rintro ⟨pqState, recv, rfl⟩
    rw [recv]

theorem decrypts_of_eq_ok (succeeded : state.decryptMessage ciphertext messageType ourNewEphemeral =
      .ok (ptext, updated)) :
    Nonempty (state.Decrypts ciphertext messageType ourNewEphemeral ptext updated) := by
  simp only [decryptMessage, authenticate, bind_eq_ok, ensure_eq_ok, okOr_eq_ok,
    exists_const] at succeeded
  rcases succeeded with ⟨version, ⟨chainKey, chained⟩, chainKeyEq, ⟨generator, keyed⟩, generatorEq,
    ⟨pqrKey, received⟩, recvEq, keys, keysEq, theirIdentityKey, identity, mac, _, ptextEq, ⟨⟩⟩
  rcases pqRatchetRecv_eq_ok.mp recvEq with ⟨pqState, pqrKeyEq, rfl⟩
  exact ⟨⟨chainKey, chained, generator, keyed, pqState, pqrKey, keys, theirIdentityKey, version,
    chainKeyEq, generatorEq, pqrKeyEq, keysEq, identity, mac, ptextEq, rfl⟩⟩

theorem Decrypts.eq_ok
    (steps : state.Decrypts ciphertext messageType ourNewEphemeral ptext updated) :
    state.decryptMessage ciphertext messageType ourNewEphemeral = .ok (ptext, updated) := by
  simp only [decryptMessage, authenticate, bind_eq_ok, ensure_eq_ok, okOr_eq_ok, exists_const]
  exact ⟨steps.version, _, steps.chainKey_eq, _, steps.generator_eq, _,
    pqRatchetRecv_eq_ok.mpr ⟨_, steps.pqrKey_eq, rfl⟩, _, steps.keys_eq, _, steps.identity,
    steps.mac, _, steps.ptext_eq,
    congrArg (fun state => Except.ok (ptext, state)) steps.updated_eq.symm⟩

theorem updateReceiverChain_frame {caller : String} {update : ReceiverChain P → ReceiverChain P}
    (succeeded : state.updateReceiverChain caller sender update = .ok updated) :
    ∃ chains, updated = { state with receiverChains := chains } := by
  unfold updateReceiverChain at succeeded
  split at succeeded
  · cases succeeded
  · cases succeeded
    exact ⟨_, rfl⟩

theorem getMessageKeys_frame
    (found : state.getMessageKeys sender counter = some (generator, updated)) :
    ∃ chains, updated = { state with receiverChains := chains } := by
  unfold getMessageKeys at found
  split at found
  · cases found
  · split at found
    · cases found
    · cases found
      exact ⟨_, rfl⟩

theorem skipMessageKeys_frame {remaining : ℕ} {state skipped : SessionState P}
    {chainKey reached : ChainKey P}
    (succeeded : skipMessageKeys theirEphemeral remaining state chainKey = .ok (skipped, reached)) :
    ∃ chains, skipped = { state with receiverChains := chains } := by
  induction remaining generalizing state chainKey with
  | zero =>
    cases succeeded
    exact ⟨_, rfl⟩
  | succ remaining ih =>
    rcases bind_eq_ok.mp succeeded with ⟨kept, keptEq, succeeded⟩
    rcases updateReceiverChain_frame keptEq with ⟨_, rfl⟩
    rcases ih succeeded with ⟨chains, rfl⟩
    exact ⟨chains, rfl⟩

theorem getOrCreateMessageKey_frame {state keyed : SessionState P}
    (succeeded : state.getOrCreateMessageKey theirEphemeral messageType chainKey counter =
      .ok (generator, keyed)) :
    ∃ chains, keyed = { state with receiverChains := chains } := by
  unfold getOrCreateMessageKey at succeeded
  split at succeeded
  · split at succeeded
    · rename_i found
      cases succeeded
      exact getMessageKeys_frame found
    · cases succeeded
  · split at succeeded
    · cases succeeded
    · rcases bind_eq_ok.mp succeeded with ⟨⟨skipped, reached⟩, skippedEq, succeeded⟩
      rcases bind_eq_ok.mp succeeded with ⟨advanced, advancedEq, succeeded⟩
      cases succeeded
      rcases skipMessageKeys_frame skippedEq with ⟨_, rfl⟩
      rcases updateReceiverChain_frame advancedEq with ⟨chains, rfl⟩
      exact ⟨chains, rfl⟩

/-- What a session was set up with. -/
def setup (state : SessionState P) :
    ℕ × P.PublicKey × Option P.PublicKey × P.PublicKey × UInt32 × UInt32 :=
  (state.version, state.localIdentityKey, state.remoteIdentityKey, state.aliceBaseKey,
    state.localRegistrationId, state.remoteRegistrationId)

theorem setup_getOrCreateChainKey {state chained : SessionState P}
    (succeeded : state.getOrCreateChainKey theirEphemeral ourNewEphemeral =
      .ok (chainKey, chained)) : chained.setup = state.setup := by
  unfold getOrCreateChainKey at succeeded
  split at succeeded
  · cases succeeded
    rfl
  · rcases bind_eq_ok.mp succeeded with ⟨chain, _, succeeded⟩
    cases succeeded
    rfl

theorem setup_decryptMessage
    (succeeded : state.decryptMessage ciphertext messageType ourNewEphemeral =
      .ok (ptext, updated)) : updated.setup = state.setup := by
  rcases decrypts_of_eq_ok succeeded with ⟨steps⟩
  rcases getOrCreateMessageKey_frame steps.generator_eq with ⟨chains, keyed⟩
  have acknowledged := congrArg setup steps.updated_eq
  have kept := congrArg setup keyed
  have created := setup_getOrCreateChainKey steps.chainKey_eq
  exact acknowledged.trans (kept.trans created)

theorem encryptMessage_eq_ok (succeeded : state.encryptMessage address ptext now random =
      .ok (message, sent, theirIdentityKey)) :
    ∃ chain pqState pqrMsg pqrKey keys, state.senderChain = some chain ∧
      P.pqSend state.pqRatchetState random = some (pqState, pqrMsg, pqrKey) ∧
      chain.chainKey.messageKeys.generateKeys pqrKey = .ok keys ∧
      state.remoteIdentityKey = some theirIdentityKey ∧
      state.wrapMessage address now
        (SignalMessage.new keys.macKey state.localIdentityKey theirIdentityKey
          { messageVersion := state.sessionVersion
            senderRatchetKey := chain.ratchetKey.publicKey
            counter := chain.chainKey.index
            previousCounter := state.previousCounter
            ciphertext := P.aesCbcEncrypt ptext keys.cipherKey keys.iv
            pqRatchet := pqrMsg }) = .ok message ∧
      sent = { state with
        senderChain := some { chain with chainKey := chain.chainKey.nextChainKey }
        pqRatchetState := pqState } := by
  simp only [encryptMessage, bind_eq_ok, requireSenderChain_eq_ok, ensure_eq_ok, okOr_eq_ok,
    exists_const] at succeeded
  rcases succeeded with ⟨chain, sender, ⟨pqState, pqrMsg, pqrKey⟩, sends, keys, keysEq, _, identity,
    identityEq, wrapped, wraps, ⟨⟩⟩
  refine ⟨chain, pqState, pqrMsg, pqrKey, keys, sender, sends, keysEq, identityEq, wraps, ?_⟩
  simp only [setSenderChainKey, sender, Option.map_some]

theorem encryptMessage_frame (succeeded : state.encryptMessage address ptext now random =
      .ok (message, sent, theirIdentityKey)) :
    ∃ pqState chain,
      sent = { state with pqRatchetState := pqState, senderChain := chain } := by
  rcases encryptMessage_eq_ok succeeded with ⟨chain, pqState, _, _, _, _, _, _, _, _, rfl⟩
  exact ⟨pqState, _, rfl⟩

end SessionState

namespace SessionRecord

/-- The first state that verifies and decrypts the message. -/
def accepting (record : SessionRecord P) (ciphertext : SignalMessage P)
    (messageType : CiphertextMessageType) (ourNewEphemeral : P.PrivateKey) :
    Option (SessionState P) :=
  record.states.find? fun state =>
    (state.decryptMessage ciphertext messageType ourNewEphemeral).isOk

variable {ptext : P.Bytes} {record : SessionRecord P} {version : ℕ} {aliceBaseKey : P.PublicKey}

theorem tryPrevious_eq_ok
    {attempt : SessionState P → Except SignalProtocolError (P.Bytes × SessionState P)}
    {states : List (SessionState P)} {start position : ℕ} {updated : SessionState P}
    (succeeded : tryPrevious attempt states start = .ok (some (ptext, position, updated))) :
    ∃ offset state, position = start + offset ∧ states[offset]? = some state ∧
      states.find? (fun state => (attempt state).isOk) = some state ∧
      attempt state = .ok (ptext, updated) := by
  induction states generalizing start with
  | nil => cases succeeded
  | cons first rest ih =>
    unfold tryPrevious at succeeded
    split at succeeded
    · rename_i decrypted
      cases succeeded
      have accepts : (attempt first).isOk = true := by rw [decrypted]; rfl
      exact ⟨0, first, rfl, rfl, List.find?_cons_of_pos accepts, decrypted⟩
    · cases succeeded
    · rename_i failed
      rcases ih succeeded with ⟨offset, state, positionEq, located, found, decrypted⟩
      have refuses : ¬(attempt first).isOk = true := by simp [failed, Except.isOk, Except.toBool]
      refine ⟨offset + 1, state, by omega, by simpa using located, ?_, decrypted⟩
      rw [List.find?_cons_of_neg (p := fun state => (attempt state).isOk) refuses]
      exact found

/-- A decrypted record: the state that accepts the message became or stayed the current one. -/
theorem decryptMessage_eq_ok {record decrypted : SessionRecord P} {ciphertext : SignalMessage P}
    {messageType : CiphertextMessageType} {ourNewEphemeral : P.PrivateKey}
    (succeeded : record.decryptMessage ciphertext messageType ourNewEphemeral =
      .ok (ptext, decrypted)) :
    ∃ state updated, record.accepting ciphertext messageType ourNewEphemeral = some state ∧
      state.decryptMessage ciphertext messageType ourNewEphemeral = .ok (ptext, updated) ∧
      ((record.currentSession = some state ∧
        decrypted = { record with currentSession := some updated }) ∨
      ∃ position, record.previousSessions[position]? = some state ∧
        decrypted = record.promoteOldSession position updated ∧
        (messageType = .preKey → record.currentSession = none)) := by
  have previous : record.decryptPrevious messageType (fun state =>
      state.decryptMessage ciphertext messageType ourNewEphemeral) = .ok (ptext, decrypted) →
      ∃ position state updated, record.previousSessions[position]? = some state ∧
        record.previousSessions.find? (fun state =>
          (state.decryptMessage ciphertext messageType ourNewEphemeral).isOk) = some state ∧
        state.decryptMessage ciphertext messageType ourNewEphemeral = .ok (ptext, updated) ∧
        decrypted = record.promoteOldSession position updated := by
    intro decryptedPrevious
    rcases bind_eq_ok.mp decryptedPrevious with ⟨result, tried, ended⟩
    cases result with
    | none => cases ended
    | some entry =>
      cases ended
      rcases tryPrevious_eq_ok tried with ⟨offset, state, positionEq, located, found, attempted⟩
      rw [Nat.zero_add] at positionEq
      exact ⟨_, state, _, positionEq ▸ located, found, attempted, rfl⟩
  rcases record with ⟨current, archived⟩
  cases current with
  | none =>
    rcases previous succeeded with ⟨position, state, updated, located, found, attempted, result⟩
    exact ⟨state, updated, found, attempted, Or.inr ⟨position, located, result, fun _ => rfl⟩⟩
  | some current =>
    unfold decryptMessage at succeeded
    dsimp only at succeeded
    cases attempted : current.decryptMessage ciphertext messageType ourNewEphemeral with
    | ok result =>
      simp only [attempted] at succeeded
      cases succeeded
      have accepts : (current.decryptMessage ciphertext messageType ourNewEphemeral).isOk =
          true := by rw [attempted]; rfl
      exact ⟨current, _, List.find?_cons_of_pos accepts, attempted, Or.inl ⟨rfl, rfl⟩⟩
    | error error =>
      have notPreKey : messageType ≠ .preKey := by
        rintro rfl
        simp only [attempted] at succeeded
        cases error <;> cases succeeded
      have later : (⟨some current, archived⟩ : SessionRecord P).decryptPrevious messageType
          (fun state => state.decryptMessage ciphertext messageType ourNewEphemeral) =
            .ok (ptext, decrypted) := by
        simp only [attempted] at succeeded
        cases error <;>
          first | cases succeeded | simpa only [notPreKey, if_false] using succeeded
      rcases previous later with ⟨position, state, updated, located, found, decrypts, result⟩
      have refuses : ¬(current.decryptMessage ciphertext messageType ourNewEphemeral).isOk =
          true := by simp [attempted, Except.isOk, Except.toBool]
      have skipped := List.find?_cons_of_neg (l := archived)
        (p := fun state : SessionState P =>
          (state.decryptMessage ciphertext messageType ourNewEphemeral).isOk) refuses
      exact ⟨state, updated, skipped.trans found, decrypts,
        Or.inr ⟨position, located, result, fun isPreKey => absurd isPreKey notPreKey⟩⟩

def matchingSession (record : SessionRecord P) (version : ℕ) (aliceBaseKey : P.PublicKey) :
    Option (SessionState P) :=
  record.states.find? (Matches version aliceBaseKey)

theorem find_zipIdx_map_fst {Value : Type} (values : List Value) (condition : Value → Bool) :
    (values.zipIdx.find? fun entry => condition entry.1).map Prod.fst =
      values.find? condition := by
  conv_rhs => rw [← List.zipIdx_map_fst 0 values, List.find?_map]
  rfl

theorem matchingSession_eq (record : SessionRecord P) (version : ℕ) (aliceBaseKey : P.PublicKey) :
    record.matchingSession version aliceBaseKey =
      if record.currentSession.any (Matches version aliceBaseKey) then record.currentSession
      else record.previousSessions.find? (Matches version aliceBaseKey) := by
  rcases record with ⟨_ | current, previous⟩
  · rfl
  · by_cases isMatch : Matches version aliceBaseKey current = true
    · simp [matchingSession, states, isMatch]
    · simp [matchingSession, states, isMatch]

theorem promoteMatchingSession_eq_none
    (missing : record.promoteMatchingSession version aliceBaseKey = none) :
    record.matchingSession version aliceBaseKey = none := by
  rw [matchingSession_eq]
  unfold promoteMatchingSession at missing
  split at missing
  · cases missing
  · rename_i other
    have nowhere := Option.map_eq_none_iff.mp missing
    rw [if_neg other, ← find_zipIdx_map_fst, nowhere]
    rfl

theorem promoteMatchingSession_eq_some {record promoted : SessionRecord P}
    (found : record.promoteMatchingSession version aliceBaseKey = some promoted) :
    ∃ state, record.matchingSession version aliceBaseKey = some state ∧
      ((record.currentSession = some state ∧ promoted = record) ∨
      ∃ position, record.previousSessions[position]? = some state ∧
        promoted = record.promoteOldSession position state) := by
  rw [matchingSession_eq]
  unfold promoteMatchingSession at found
  split at found
  · rename_i isMatch
    cases found
    rcases (Option.any_eq_true _ _).mp isMatch with ⟨current, isCurrent, _⟩
    exact ⟨current, by rw [if_pos isMatch, isCurrent], Or.inl ⟨isCurrent, rfl⟩⟩
  · rename_i other
    rcases Option.map_eq_some_iff.mp found with ⟨⟨state, position⟩, located, rfl⟩
    have present := List.mem_zipIdx_iff_getElem?.mp (List.mem_of_find?_eq_some located)
    refine ⟨state, ?_, Or.inr ⟨position, present, rfl⟩⟩
    rw [if_neg other, ← find_zipIdx_map_fst, located]
    rfl

theorem promoteMatchingSession_of_none
    (missing : record.matchingSession version aliceBaseKey = none) :
    record.promoteMatchingSession version aliceBaseKey = none := by
  cases found : record.promoteMatchingSession version aliceBaseKey with
  | none => rfl
  | some promoted =>
    rcases promoteMatchingSession_eq_some found with ⟨state, isMatching, _⟩
    cases missing.symm.trans isMatching

end SessionRecord

end LegacySignal
