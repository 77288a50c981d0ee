import LegacySignal.Library.Steps
import LegacySignal.Protocol.CipherSpec
import LegacySignal.Protocol.Symbolic

/-!
# The work that a message causes

A message is authenticated with keys that come from its own counter, so the chain has to be
moved to that counter before anything is known about the sender. The functions of this module
are those of the cipher that derive chain keys, with a log of what they derive; the results are
the same. The counter of a message decides how far the chain moves, up to a limit that a session
with oneself does not have.
-/

namespace LegacySignal

open List

variable {P : Primitives}

/-- The chain keys that a call has derived. -/
structure Derived where
  /-- How many came from `create_chain`. -/
  created : ℕ
  /-- What `next_chain_key` computed for the index of each, before it is cut to 32 bits. -/
  next : List ℕ
deriving DecidableEq, Repr

namespace Derived

def none : Derived := ⟨0, []⟩

end Derived

open Steps

def createChainLogged (rootKey : P.Secret) (theirRatchetKey : P.PublicKey)
    (ourRatchetKey : P.PrivateKey) :
    Steps SignalProtocolError Derived (P.Secret × ChainKey P) :=
  fun derived => (.ok (createChain rootKey theirRatchetKey ourRatchetKey),
    { derived with created := derived.created + 1 })

def ChainKey.nextChainKeyLogged (chainKey : ChainKey P) :
    Steps SignalProtocolError Derived (ChainKey P) :=
  fun derived => (.ok chainKey.nextChainKey,
    { derived with next := derived.next ++ [chainKey.index.toNat + 1] })

namespace SessionState

def getOrCreateChainKeyLogged (state : SessionState P) (theirEphemeral : P.PublicKey)
    (ourNewEphemeral : P.PrivateKey) :
    Steps SignalProtocolError Derived (ChainKey P × SessionState P) :=
  match state.getReceiverChainKey theirEphemeral with
  | some chainKey => ofExcept (.ok (chainKey, state))
  | none => do
      let senderChain ← ofExcept state.requireSenderChain
      let (receiverRoot, receiverChainKey) ←
        createChainLogged state.rootKey theirEphemeral senderChain.ratchetKey.privateKey
      let (senderRoot, senderChainKey) ←
        createChainLogged receiverRoot theirEphemeral ourNewEphemeral
      let currentIndex := senderChain.chainKey.index
      let received :=
        { state with rootKey := senderRoot }.addReceiverChain theirEphemeral receiverChainKey
      let counted :=
        { received with previousCounter := if 0 < currentIndex then currentIndex - 1 else 0 }
      ofExcept (.ok (receiverChainKey, counted.setSenderChain ⟨ourNewEphemeral⟩ senderChainKey))

def skipMessageKeysLogged (theirEphemeral : P.PublicKey) :
    ℕ → SessionState P → ChainKey P →
      Steps SignalProtocolError Derived (SessionState P × ChainKey P)
  | 0, state, chainKey => ofExcept (.ok (state, chainKey))
  | remaining + 1, state, chainKey => do
      let kept ← ofExcept (state.setMessageKeys theirEphemeral chainKey.messageKeys)
      let next ← chainKey.nextChainKeyLogged
      skipMessageKeysLogged theirEphemeral remaining kept next

/-- The part of `get_or_create_message_key` that moves the chain. -/
def moveChainLogged (state : SessionState P) (theirEphemeral : P.PublicKey)
    (chainKey : ChainKey P) (jump : ℕ) :
    Steps SignalProtocolError Derived (MessageKeyGenerator P × SessionState P) := do
  let (skipped, reached) ← skipMessageKeysLogged theirEphemeral jump state chainKey
  let next ← reached.nextChainKeyLogged
  let advanced ← ofExcept (skipped.setReceiverChainKey theirEphemeral next)
  ofExcept (.ok (reached.messageKeys, advanced))

def getOrCreateMessageKeyLogged (state : SessionState P) (theirEphemeral : P.PublicKey)
    (messageType : CiphertextMessageType) (chainKey : ChainKey P) (counter : UInt32) :
    Steps SignalProtocolError Derived (MessageKeyGenerator P × SessionState P) :=
  if counter < chainKey.index then
    match state.getMessageKeys theirEphemeral counter with
    | some found => ofExcept (.ok found)
    | none => ofExcept (.error (.duplicatedMessage chainKey.index counter))
  else if consts.MAX_FORWARD_JUMPS < (counter - chainKey.index).toNat &&
      !state.sessionWithSelf then
    ofExcept (.error (.invalidMessage messageType "message from too far into the future"))
  else state.moveChainLogged theirEphemeral chainKey (counter - chainKey.index).toNat

def decryptMessageLogged (state : SessionState P) (ciphertext : SignalMessage P)
    (messageType : CiphertextMessageType) (ourNewEphemeral : P.PrivateKey) :
    Steps SignalProtocolError Derived (P.Bytes × SessionState P) := do
  ofExcept (Result.ensure (ciphertext.content.messageVersion = state.sessionVersion)
    (.unrecognizedMessageVersion ciphertext.content.messageVersion))
  let theirEphemeral := ciphertext.content.senderRatchetKey
  let (chainKey, chained) ← state.getOrCreateChainKeyLogged theirEphemeral ourNewEphemeral
  let (generator, keyed) ← chained.getOrCreateMessageKeyLogged theirEphemeral messageType
    chainKey ciphertext.content.counter
  ofExcept (keyed.authenticate ciphertext messageType generator)

theorem yields_getOrCreateChainKeyLogged (state : SessionState P) (theirEphemeral : P.PublicKey)
    (ourNewEphemeral : P.PrivateKey) :
    Yields (state.getOrCreateChainKeyLogged theirEphemeral ourNewEphemeral)
      (state.getOrCreateChainKey theirEphemeral ourNewEphemeral) := by
  unfold getOrCreateChainKeyLogged getOrCreateChainKey
  cases state.getReceiverChainKey theirEphemeral with
  | some chainKey => exact yields_ofExcept _
  | none =>
    refine (yields_ofExcept _).bind fun senderChain => ?_
    exact fun derived => rfl

theorem yields_skipMessageKeysLogged (theirEphemeral : P.PublicKey) (remaining : ℕ)
    (state : SessionState P) (chainKey : ChainKey P) :
    Yields (skipMessageKeysLogged theirEphemeral remaining state chainKey)
      (skipMessageKeys theirEphemeral remaining state chainKey) := by
  induction remaining generalizing state chainKey with
  | zero => exact yields_ofExcept _
  | succ remaining ih =>
    refine (yields_ofExcept _).bind fun kept => ?_
    exact fun derived => ih kept chainKey.nextChainKey _

theorem yields_getOrCreateMessageKeyLogged (state : SessionState P)
    (theirEphemeral : P.PublicKey) (messageType : CiphertextMessageType) (chainKey : ChainKey P)
    (counter : UInt32) :
    Yields (state.getOrCreateMessageKeyLogged theirEphemeral messageType chainKey counter)
      (state.getOrCreateMessageKey theirEphemeral messageType chainKey counter) := by
  unfold getOrCreateMessageKeyLogged getOrCreateMessageKey
  split
  · cases state.getMessageKeys theirEphemeral counter with
    | some found => exact yields_ofExcept _
    | none => exact yields_ofExcept _
  · split
    · exact yields_ofExcept _
    · refine (yields_skipMessageKeysLogged _ _ _ _).bind fun (skipped, reached) => ?_
      exact fun derived => (yields_ofExcept _).bind (fun _ => yields_ofExcept _) _

theorem yields_decryptMessageLogged (state : SessionState P) (ciphertext : SignalMessage P)
    (messageType : CiphertextMessageType) (ourNewEphemeral : P.PrivateKey) :
    Yields (state.decryptMessageLogged ciphertext messageType ourNewEphemeral)
      (state.decryptMessage ciphertext messageType ourNewEphemeral) := by
  refine (yields_ofExcept _).bind fun _ => ?_
  refine (yields_getOrCreateChainKeyLogged _ _ _).bind fun (chainKey, chained) => ?_
  refine (yields_getOrCreateMessageKeyLogged _ _ _ _ _).bind fun (generator, keyed) => ?_
  exact yields_ofExcept _

theorem created_getOrCreateChainKeyLogged (state : SessionState P) (theirEphemeral : P.PublicKey)
    (ourNewEphemeral : P.PrivateKey) (derived : Derived) :
    ∃ created ≤ 2, (state.getOrCreateChainKeyLogged theirEphemeral ourNewEphemeral derived).2 =
      { derived with created := derived.created + created } := by
  unfold getOrCreateChainKeyLogged
  cases state.getReceiverChainKey theirEphemeral with
  | some chainKey => exact ⟨0, by omega, rfl⟩
  | none =>
    cases required : state.requireSenderChain with
    | error reason => exact ⟨0, by omega, rfl⟩
    | ok senderChain => exact ⟨2, by omega, rfl⟩

theorem next_skipMessageKeysLogged (theirEphemeral : P.PublicKey) {remaining : ℕ}
    (state : SessionState P) {chainKey : ChainKey P}
    (fits : chainKey.index.toNat + remaining < 2 ^ 32) (derived : Derived) :
    ∃ count ≤ remaining,
      (skipMessageKeysLogged theirEphemeral remaining state chainKey derived).2 =
        { derived with
          next := derived.next ++ range' (chainKey.index.toNat + 1) count } ∧
      ∀ skipped reached,
        (skipMessageKeysLogged theirEphemeral remaining state chainKey derived).1 =
          .ok (skipped, reached) →
        count = remaining ∧ reached.index.toNat = chainKey.index.toNat + remaining := by
  induction remaining generalizing state chainKey derived with
  | zero =>
    refine ⟨0, Nat.le_refl 0, by simp [skipMessageKeysLogged], ?_⟩
    rintro _ _ ⟨⟩
    exact ⟨rfl, rfl⟩
  | succ remaining ih =>
    cases kept : state.setMessageKeys theirEphemeral chainKey.messageKeys with
    | error reason =>
      have stopped : skipMessageKeysLogged theirEphemeral (remaining + 1) state chainKey
          derived = (.error reason, derived) := by
        rw [skipMessageKeysLogged, kept]
        rfl
      rw [stopped]
      exact ⟨0, Nat.zero_le _, by simp, fun _ _ ok => by cases ok⟩
    | ok after =>
      have index : chainKey.nextChainKey.index.toNat = chainKey.index.toNat + 1 := by
        rw [ChainKey.nextChainKey, UInt32.toNat_add]
        exact Nat.mod_eq_of_lt (by simp only [UInt32.toNat_one]; omega)
      have continued : skipMessageKeysLogged theirEphemeral (remaining + 1) state chainKey
          derived = skipMessageKeysLogged theirEphemeral remaining after
            chainKey.nextChainKey
            { derived with next := derived.next ++ [chainKey.index.toNat + 1] } := by
        rw [skipMessageKeysLogged, kept]
        rfl
      rw [continued]
      obtain ⟨count, small, log, ended⟩ := @ih after chainKey.nextChainKey (by omega)
        { derived with next := derived.next ++ [chainKey.index.toNat + 1] }
      refine ⟨count + 1, by omega, ?_, ?_⟩
      · rw [log, index, range'_succ, append_assoc]
        rfl
      · intro skipped reached ok
        obtain ⟨all, position⟩ := ended skipped reached ok
        exact ⟨by omega, by omega⟩

theorem next_moveChainLogged (state : SessionState P) (theirEphemeral : P.PublicKey)
    {chainKey : ChainKey P} {jump : ℕ} (fits : chainKey.index.toNat + jump < 2 ^ 32)
    (derived : Derived) :
    ∃ count ≤ jump + 1,
      (state.moveChainLogged theirEphemeral chainKey jump derived).2 =
        { derived with
          next := derived.next ++ range' (chainKey.index.toNat + 1) count } ∧
      ∀ found, skipMessageKeys theirEphemeral jump state chainKey = .ok found →
        count = jump + 1 := by
  obtain ⟨count, small, log, ended⟩ :=
    next_skipMessageKeysLogged theirEphemeral state fits derived
  have same := yields_skipMessageKeysLogged theirEphemeral jump state chainKey derived
  unfold moveChainLogged
  rcases ran : skipMessageKeysLogged theirEphemeral jump state chainKey derived with
    ⟨reason | ⟨skipped, reached⟩, after⟩
  · rw [ran] at log same
    rw [bind_of_error ran]
    refine ⟨count, by omega, log, fun found succeeded => ?_⟩
    rw [succeeded] at same
    cases same
  · rw [ran] at log ended
    obtain ⟨rfl, position⟩ := ended skipped reached rfl
    have moved : reached.nextChainKeyLogged after = (.ok reached.nextChainKey,
        { after with next := after.next ++ [reached.index.toNat + 1] }) := rfl
    rw [bind_of_ok ran]
    refine ⟨_, Nat.le_refl _, ?_, fun _ _ => rfl⟩
    dsimp only at log ⊢
    rw [bind_of_ok moved, snd_bind_ofExcept, snd_ofExcept, log, position, range'_concat,
      append_assoc]
    simp only [Nat.one_mul, Nat.add_right_comm]

theorem next_getOrCreateMessageKeyLogged (state : SessionState P) (theirEphemeral : P.PublicKey)
    (messageType : CiphertextMessageType) (chainKey : ChainKey P) (counter : UInt32)
    (derived : Derived) :
    ∃ count,
      (state.getOrCreateMessageKeyLogged theirEphemeral messageType chainKey counter derived).2 =
        { derived with
          next := derived.next ++ range' (chainKey.index.toNat + 1) count } ∧
      (count = 0 ∨ chainKey.index.toNat + count ≤ counter.toNat + 1) ∧
      (state.sessionWithSelf = false → count ≤ consts.MAX_FORWARD_JUMPS + 1) := by
  unfold getOrCreateMessageKeyLogged
  have nothing : ∀ result : Except SignalProtocolError (MessageKeyGenerator P × SessionState P),
      ∃ count, ((ofExcept result : Steps _ Derived _) derived).2 =
        { derived with
          next := derived.next ++ range' (chainKey.index.toNat + 1) count } ∧
      (count = 0 ∨ chainKey.index.toNat + count ≤ counter.toNat + 1) ∧
      (state.sessionWithSelf = false → count ≤ consts.MAX_FORWARD_JUMPS + 1) :=
    fun result => ⟨0, by simp, .inl rfl, fun _ => Nat.zero_le _⟩
  by_cases old : counter < chainKey.index
  · rw [if_pos old]
    cases state.getMessageKeys theirEphemeral counter with
    | some found => exact nothing _
    | none => exact nothing _
  · rw [if_neg old]
    by_cases far : consts.MAX_FORWARD_JUMPS < (counter - chainKey.index).toNat &&
        !state.sessionWithSelf
    · rw [if_pos far]
      exact nothing _
    · rw [if_neg far]
      have below : chainKey.index.toNat ≤ counter.toNat := Nat.not_lt.mp old
      have jump : (counter - chainKey.index).toNat = counter.toNat - chainKey.index.toNat :=
        UInt32.toNat_sub_of_le _ _ below
      have fits : chainKey.index.toNat + (counter - chainKey.index).toNat < 2 ^ 32 := by
        have := counter.toNat_lt
        omega
      have limited : state.sessionWithSelf = false →
          (counter - chainKey.index).toNat ≤ consts.MAX_FORWARD_JUMPS := by
        intro other
        simpa [other] using far
      obtain ⟨count, small, log, _⟩ := state.next_moveChainLogged theirEphemeral fits derived
      refine ⟨count, log, .inr (by omega), fun other => ?_⟩
      have := limited other
      omega

theorem sessionWithSelf_eq_of_setup {state other : SessionState P}
    (same : other.setup = state.setup) : other.sessionWithSelf = state.sessionWithSelf := by
  simp only [setup, Prod.mk.injEq] at same
  simp only [sessionWithSelf, same]

theorem log_decryptMessageLogged (state : SessionState P) (ciphertext : SignalMessage P)
    (messageType : CiphertextMessageType) (ourNewEphemeral : P.PrivateKey) :
    ∃ created ≤ 2, ∃ first count,
      (state.decryptMessageLogged ciphertext messageType ourNewEphemeral .none).2 =
        ⟨created, range' (first + 1) count⟩ ∧
      (count = 0 ∨ first + count ≤ ciphertext.content.counter.toNat + 1) ∧
      (state.sessionWithSelf = false → count ≤ consts.MAX_FORWARD_JUMPS + 1) := by
  unfold decryptMessageLogged
  cases checked : (Result.ensure (ciphertext.content.messageVersion = state.sessionVersion)
      (.unrecognizedMessageVersion ciphertext.content.messageVersion) :
        Except SignalProtocolError Unit) with
  | error reason => exact ⟨0, by omega, 0, 0, rfl, .inl rfl, fun _ => Nat.zero_le _⟩
  | ok _ =>
    obtain ⟨created, atMostTwo, log⟩ := state.created_getOrCreateChainKeyLogged
      ciphertext.content.senderRatchetKey ourNewEphemeral .none
    have same := state.yields_getOrCreateChainKeyLogged
      ciphertext.content.senderRatchetKey ourNewEphemeral .none
    rcases ran : state.getOrCreateChainKeyLogged ciphertext.content.senderRatchetKey
      ourNewEphemeral .none with ⟨reason | ⟨chainKey, chained⟩, after⟩
    · rw [ran] at log
      simp only [Derived.none, Nat.zero_add] at log
      rw [bind_of_ok (rfl : ofExcept (.ok ()) .none = (.ok (), Derived.none)),
        bind_of_error ran]
      exact ⟨created, atMostTwo, 0, 0, log, .inl rfl, fun _ => Nat.zero_le _⟩
    · rw [ran] at same log
      simp only [Derived.none, Nat.zero_add] at log
      rw [bind_of_ok (rfl : ofExcept (.ok ()) .none = (.ok (), Derived.none)),
        bind_of_ok ran]
      obtain ⟨count, next, moved, limited⟩ := chained.next_getOrCreateMessageKeyLogged
        ciphertext.content.senderRatchetKey messageType chainKey ciphertext.content.counter
        after
      have withSelf := sessionWithSelf_eq_of_setup (setup_getOrCreateChainKey same.symm)
      refine ⟨created, atMostTwo, chainKey.index.toNat, count, ?_, moved, withSelf ▸ limited⟩
      dsimp only
      rw [snd_bind_ofExcept, next, log]
      rfl

/-- The work for one message. Besides the chain keys of a new ratchet step, a session with
somebody else derives at most `MAX_FORWARD_JUMPS + 1`, and any session at most one more than the
counter; unless the counter is the largest one, no index needs more than 32 bits. -/
theorem derived_decryptMessage (state : SessionState P) (ciphertext : SignalMessage P)
    (messageType : CiphertextMessageType) (ourNewEphemeral : P.PrivateKey) :
    let run := state.decryptMessageLogged ciphertext messageType ourNewEphemeral .none
    run.1 = state.decryptMessage ciphertext messageType ourNewEphemeral ∧
      run.2.created ≤ 2 ∧
      (state.sessionWithSelf = false → run.2.next.length ≤ consts.MAX_FORWARD_JUMPS + 1) ∧
      run.2.next.length ≤ ciphertext.content.counter.toNat + 1 ∧
      (ciphertext.content.counter ≠ 0xFFFFFFFF → ∀ index ∈ run.2.next, index < 2 ^ 32) := by
  intro run
  obtain ⟨created, atMostTwo, first, count, log, moved, limited⟩ :=
    state.log_decryptMessageLogged ciphertext messageType ourNewEphemeral
  have created_eq : run.2.created = created := congrArg Derived.created log
  have next_eq : run.2.next = range' (first + 1) count := congrArg Derived.next log
  rw [created_eq, next_eq, length_range']
  refine ⟨yields_decryptMessageLogged _ _ _ _ _, atMostTwo, limited, by omega, ?_⟩
  intro notLast index member
  have below : ciphertext.content.counter.toNat < 2 ^ 32 - 1 := by
    have small := ciphertext.content.counter.toNat_lt
    have different : ciphertext.content.counter.toNat ≠ 2 ^ 32 - 1 :=
      fun equal => notLast (UInt32.toNat_inj.mp equal)
    omega
  obtain ⟨offset, inside, rfl⟩ := mem_range'.mp member
  omega

variable {state : SessionState P}

theorem isSome_getReceiverChain {sender : P.PublicKey} :
    (state.getReceiverChain sender).isSome ↔
      ∃ chain ∈ state.receiverChains, chain.senderRatchetKey = sender := by
  rw [getReceiverChain, find?_isSome]
  constructor
  · rintro ⟨⟨chain, position⟩, member, same⟩
    exact ⟨chain, fst_mem_of_mem_zipIdx member, by simpa using same⟩
  · rintro ⟨chain, member, same⟩
    obtain ⟨position, inside, rfl⟩ := getElem_of_mem member
    refine ⟨(state.receiverChains[position], position), ?_, by simpa using same⟩
    exact mem_zipIdx_iff_getElem?.mpr (getElem?_eq_getElem inside)

theorem skipMessageKeys_of_known {theirEphemeral : P.PublicKey} (jump : ℕ) (chainKey : ChainKey P)
    (known : (state.getReceiverChain theirEphemeral).isSome) :
    ∃ found, skipMessageKeys theirEphemeral jump state chainKey = .ok found := by
  induction jump generalizing state chainKey with
  | zero => exact ⟨_, rfl⟩
  | succ jump ih =>
    obtain ⟨⟨chain, position⟩, found⟩ := Option.isSome_iff_exists.mp known
    have member := mem_zipIdx_iff_getElem?.mp (mem_of_find?_eq_some found)
    have key : chain.senderRatchetKey = theirEphemeral := by
      simpa using find?_some found
    simp only [skipMessageKeys, setMessageKeys, updateReceiverChain, found]
    refine ih chainKey.nextChainKey ?_
    rw [isSome_getReceiverChain]
    refine ⟨_, List.mem_set (List.getElem?_eq_some_iff.mp member).1 _, ?_⟩
    exact key

theorem next_decryptMessageLogged_withSelf {ciphertext : SignalMessage P}
    (messageType : CiphertextMessageType) (ourNewEphemeral : P.PrivateKey) {chainKey : ChainKey P}
    (version : ciphertext.content.messageVersion = state.sessionVersion)
    (known : state.getReceiverChainKey ciphertext.content.senderRatchetKey = some chainKey)
    (withSelf : state.sessionWithSelf = true)
    (ahead : chainKey.index ≤ ciphertext.content.counter) :
    (state.decryptMessageLogged ciphertext messageType ourNewEphemeral .none).2.next =
      range' (chainKey.index.toNat + 1)
        (ciphertext.content.counter.toNat - chainKey.index.toNat + 1) := by
  have chain : state.getOrCreateChainKeyLogged ciphertext.content.senderRatchetKey
      ourNewEphemeral .none = (.ok (chainKey, state), .none) := by
    rw [getOrCreateChainKeyLogged, known]
    rfl
  have found : (state.getReceiverChain ciphertext.content.senderRatchetKey).isSome := by
    rw [getReceiverChainKey] at known
    rw [← Option.isSome_map, known]
    rfl
  have jump : (ciphertext.content.counter - chainKey.index).toNat =
      ciphertext.content.counter.toNat - chainKey.index.toNat :=
    UInt32.toNat_sub_of_le _ _ ahead
  have fits : chainKey.index.toNat + (ciphertext.content.counter - chainKey.index).toNat <
      2 ^ 32 := by
    have small := ciphertext.content.counter.toNat_lt
    have below : chainKey.index.toNat ≤ ciphertext.content.counter.toNat := ahead
    omega
  obtain ⟨skipped, succeeded⟩ := skipMessageKeys_of_known
    (ciphertext.content.counter - chainKey.index).toNat chainKey found
  obtain ⟨count, _, log, all⟩ := state.next_moveChainLogged
    ciphertext.content.senderRatchetKey fits .none
  obtain rfl := all skipped succeeded
  rw [decryptMessageLogged, Result.ensure, if_pos version,
    bind_of_ok (rfl : ofExcept (.ok ()) .none = (.ok (), Derived.none)), bind_of_ok chain]
  dsimp only
  have notBehind : ¬ciphertext.content.counter < chainKey.index := Nat.not_lt.mpr ahead
  rw [snd_bind_ofExcept, getOrCreateMessageKeyLogged, if_neg notBehind,
    if_neg (by simp [withSelf]), log, jump]
  rfl

end SessionState

namespace Symbolic

theorem derived_decryptMessage_firstMessage :
    (bobSession.decryptMessageLogged (firstMessage (.plain 7)).message .preKey (12 : ℕ)
      .none).2.next.length ≤ consts.MAX_FORWARD_JUMPS + 1 ∧
    ∀ index ∈ (bobSession.decryptMessageLogged (firstMessage (.plain 7)).message .preKey (12 : ℕ)
      .none).2.next, index < 2 ^ 32 :=
  have bounds := bobSession.derived_decryptMessage (firstMessage (.plain 7)).message .preKey
    (12 : ℕ)
  ⟨bounds.2.2.1 rfl, bounds.2.2.2.2 (by decide)⟩

/-- The bundle of another device of the account whose identity key is `1`. -/
def ownBundle : PreKeyBundle symbolic :=
  { bobBundle with
    identityKey := (1 : ℕ)
    signedPreKeySignature := ((1, 3) : ℕ × ℕ)
    kyberPreKeySignature := ((1, 4) : ℕ × ℕ) }

def selfSession : SessionState symbolic :=
  let keys := deriveKeys ((ownBundle.parameters ⟨(1 : ℕ)⟩ ⟨(10 : ℕ)⟩).secrets (Term.kem 4 0))
  let sending := createChain keys.1 (3 : ℕ) (11 : ℕ)
  let session : SessionState symbolic :=
    SessionState.new CIPHERTEXT_MESSAGE_CURRENT_VERSION (1 : ℕ) (1 : ℕ) sending.1 (10 : ℕ)
      ⟨keys.2.2, .a2b, 0⟩
  { (session.addReceiverChain (3 : ℕ) keys.2.1).setSenderChain ⟨(11 : ℕ)⟩ sending.2 with
    pendingKyberPreKey := some ⟨0xFFFFFFFF, ((4, 0) : ℕ × ℕ)⟩ }

/-- A message that anybody can make: its MAC is made with a key of the forger. -/
def forgedMessage : SignalMessage symbolic :=
  SignalMessage.new .discontinuity (1 : ℕ) (1 : ℕ)
    { messageVersion := CIPHERTEXT_MESSAGE_CURRENT_VERSION
      senderRatchetKey := (3 : ℕ)
      counter := 0xFFFFFFFF
      previousCounter := 0
      ciphertext := Text.plain 0
      pqRatchet := (0 : ℕ) }

/-- It makes a session with oneself derive all the chain keys up to the largest index, and one
more, whose index does not fit. -/
theorem derived_forgedMessage :
    initializeAliceSession (ownBundle.parameters ⟨(1 : ℕ)⟩ ⟨(10 : ℕ)⟩) (0 : ℕ) (11 : ℕ) =
        .ok selfSession ∧
      (selfSession.decryptMessageLogged forgedMessage .whisper (12 : ℕ) .none).2.next =
        range' 1 (2 ^ 32) := by
  refine ⟨rfl, ?_⟩
  have known : selfSession.getReceiverChainKey (3 : ℕ) = some _ := rfl
  have ahead : (0 : UInt32) ≤ forgedMessage.content.counter := by decide
  exact @SessionState.next_decryptMessageLogged_withSelf symbolic selfSession forgedMessage
    .whisper (12 : ℕ) _ rfl known rfl ahead

end Symbolic

end LegacySignal
