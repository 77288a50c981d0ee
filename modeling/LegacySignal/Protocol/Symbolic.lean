import LegacySignal.Protocol.AppStore

/-!
# Symbolic primitives

Primitives that only build terms: an agreement is the pair of the two keys,
a hash is the term that it was applied to, a ciphertext holds what was
encrypted. They run, and they satisfy what is asked of ideal ones.

Records of symbolic keys are countable, so they can be written to bytes.
-/

namespace LegacySignal

namespace Symbolic

inductive Term where
  | absent
  | present (term : Term)
  | nil
  | cons (head tail : Term)
  | discontinuity
  | agreement (smaller larger : ℕ)
  | kem (key random : ℕ)
  /-- What Kyber gives for a ciphertext of another key. -/
  | kemRejected (key other random : ℕ)
  | hkdf (salt material : Term) (info : KdfInfo) (block : Fin 3)
  | hmac (key : Term) (seed : UInt8)
  | pq (key : Term) (direction : PqDirection) (number : ℕ)
deriving DecidableEq

def Term.ofOption : Option Term → Term
  | none => .absent
  | some term => .present term

def Term.ofList : List Term → Term
  | [] => .nil
  | head :: tail => .cons head (ofList tail)

inductive Text where
  | plain (content : ℕ)
  | encrypted (content : Text) (key iv : Term)
deriving DecidableEq

structure Tag where
  key : Term
  sender : ℕ
  receiver : ℕ
  content : SignalContent ℕ Text ℕ
deriving DecidableEq

/-- One direction of a post-quantum ratchet that numbers its messages. -/
structure PqState where
  key : Term
  direction : PqDirection
  sent : ℕ
deriving DecidableEq

def opposite : PqDirection → PqDirection
  | .a2b => .b2a
  | .b2a => .a2b

def decrypt (key iv : Term) : Text → Option Text
  | .plain _ => none
  | .encrypted content usedKey usedIv => if usedKey = key ∧ usedIv = iv then some content else none

end Symbolic

open Symbolic in
def symbolic : Primitives where
  PrivateKey := ℕ
  PublicKey := ℕ
  Secret := Term
  Bytes := Text
  Tag := Tag
  Signature := ℕ × ℕ
  KemPublicKey := ℕ
  KemSecretKey := ℕ
  KemCiphertext := ℕ × ℕ
  PqState := PqState
  PqMessage := ℕ
  Random := ℕ
  publicKey := id
  isCanonical := fun _ => true
  calculateAgreement := fun ours theirs => .agreement (min ours theirs) (max ours theirs)
  verifySignature := fun signer key signature => signature = (signer, key)
  verifyKemSignature := fun signer key signature => signature = (signer, key)
  discontinuity := .discontinuity
  hkdf := fun salt material info block => .hkdf (.ofOption salt) (.ofList material) info block
  hmacSha256 := .hmac
  computeMac := Tag.mk
  aesCbcEncrypt := .encrypted
  aesCbcDecrypt := fun ciphertext key iv => decrypt key iv ciphertext
  encapsulate := fun key random => some (.kem key random, (key, random))
  decapsulate := fun key ciphertext =>
    some (if ciphertext.1 = key then .kem key ciphertext.2
      else .kemRejected key ciphertext.1 ciphertext.2)
  pqInitialState := fun key direction _ => some ⟨key, direction, 0⟩
  pqSend := fun state _ =>
    some ({ state with sent := state.sent + 1 }, state.sent,
      some (.pq state.key state.direction state.sent))
  pqRecv := fun state message =>
    .ok (state, some (.pq state.key (opposite state.direction) message))

namespace Symbolic

theorem ofOption_injective : Function.Injective Term.ofOption := by
  intro one other same
  cases one <;> cases other <;> cases same <;> rfl

theorem ofList_injective : Function.Injective Term.ofList := by
  intro one
  induction one with
  | nil =>
    intro other same
    cases other with
    | nil => rfl
    | cons head tail => cases same
  | cons head tail ih =>
    intro other same
    cases other with
    | nil => cases same
    | cons otherHead otherTail =>
      injection same with heads tails
      rw [heads, ih tails]

theorem ideal : symbolic.Ideal where
  agreement_comm := by
    intro ours theirs
    exact congrArg₂ Term.agreement (Nat.min_comm ours theirs) (Nat.max_comm ours theirs)
  hkdf_injective := by
    intro salt other material otherMaterial info otherInfo block otherBlock same
    injection same with salts materials infos blocks
    exact ⟨ofOption_injective salts, ofList_injective materials, infos, blocks⟩
  hmac_injective := by
    intro key other seed otherSeed same
    injection same with keys seeds
    exact ⟨keys, seeds⟩
  computeMac_injective := by
    intro key other sender receiver content same
    injection same
  decrypt_encrypt := by
    intro ptext key iv
    exact if_pos ⟨rfl, rfl⟩

/-- The messages that one end has sent carry its keys. -/
def Carries (state : PqState) (sent : List (ℕ × Option Term)) : Prop :=
  ∀ entry ∈ sent, entry.2 = some (.pq state.key state.direction entry.1)

def pqLink : symbolic.PqLink where
  Linked := fun (one other : PqState) outgoing incoming =>
    one.key = other.key ∧ one.direction = opposite other.direction ∧
      other.direction = opposite one.direction ∧ Carries one outgoing ∧ Carries other incoming
  initial := by
    intro key withSelf alice bob aliceEq bobEq
    cases aliceEq
    cases bobEq
    refine ⟨rfl, rfl, rfl, ?_, ?_⟩ <;> intro entry member <;> cases member
  symm := by
    rintro one other outgoing incoming ⟨keys, directions, converse, sent, received⟩
    exact ⟨keys.symm, converse, directions, received, sent⟩
  send := by
    rintro one other next outgoing incoming random message key
      ⟨keys, directions, converse, sent, received⟩ sends
    cases sends
    refine ⟨keys, directions, converse, ?_, received⟩
    intro entry member
    rcases List.mem_append.mp member with earlier | last
    · exact sent entry earlier
    · rw [List.mem_singleton.mp last]
  receive := by
    rintro one other before after incoming message key
      ⟨keys, directions, converse, sent, received⟩
    have carried : key = some (.pq one.key one.direction message) :=
      sent (message, key) (List.mem_append_right _ List.mem_cons_self)
    refine ⟨other, ?_, keys, directions, converse, ?_, received⟩
    · rw [carried, keys, directions]
      rfl
    · intro entry member
      apply sent entry
      rcases List.mem_append.mp member with earlier | later
      · exact List.mem_append_left _ earlier
      · exact List.mem_append_right _ (List.mem_cons_of_mem _ later)

deriving instance Countable for KdfInfo
deriving instance Countable for PqDirection
deriving instance Countable for Term
deriving instance Countable for PqState

instance : Countable symbolic.KeyPair :=
  @Function.Injective.countable _ _ (inferInstanceAs (Countable ℕ)) Primitives.KeyPair.privateKey
    (by rintro ⟨_⟩ ⟨_⟩ rfl; rfl)

instance : Countable (ChainKey symbolic) :=
  @Function.Injective.countable _ _ (inferInstanceAs (Countable (Term × UInt32)))
    (fun chainKey => (chainKey.key, chainKey.index)) (by rintro ⟨_, _⟩ ⟨_, _⟩ same; cases same; rfl)

instance : Countable (MessageKeyGenerator symbolic) := by
  apply @Function.Injective.countable _ _
    (inferInstanceAs (Countable (Bool × Term × Term × Term × UInt32)))
    (fun
      | .keys ⟨cipherKey, macKey, iv, counter⟩ => (true, cipherKey, macKey, iv, counter)
      | .seed seed counter => (false, seed, seed, seed, counter))
  rintro (⟨_, _, _, _⟩ | ⟨_, _⟩) (⟨_, _, _, _⟩ | ⟨_, _⟩) same <;> cases same <;> rfl

instance : Countable (SenderChain symbolic) :=
  Function.Injective.countable (f := fun chain : SenderChain symbolic =>
    (chain.ratchetKey, chain.chainKey)) (by rintro ⟨_, _⟩ ⟨_, _⟩ same; cases same; rfl)

instance : Countable (ReceiverChain symbolic) :=
  @Function.Injective.countable _ _
    (inferInstanceAs (Countable (ℕ × ChainKey symbolic × List (MessageKeyGenerator symbolic))))
    (fun chain => (chain.senderRatchetKey, chain.chainKey, chain.messageKeys))
    (by rintro ⟨_, _, _⟩ ⟨_, _, _⟩ same; cases same; rfl)

instance : Countable (PendingPreKey symbolic) :=
  @Function.Injective.countable _ _
    (inferInstanceAs (Countable (Option UInt32 × UInt32 × ℕ × ℕ)))
    (fun pending => (pending.preKeyId, pending.signedPreKeyId, pending.baseKey, pending.timestamp))
    (by rintro ⟨_, _, _, _⟩ ⟨_, _, _, _⟩ same; cases same; rfl)

instance : Countable (PendingKyberPreKey symbolic) :=
  @Function.Injective.countable _ _ (inferInstanceAs (Countable (UInt32 × ℕ × ℕ)))
    (fun pending => (pending.preKeyId, pending.ciphertext))
    (by rintro ⟨_, _⟩ ⟨_, _⟩ same; cases same; rfl)

instance : Countable (SessionState symbolic) := by
  apply @Function.Injective.countable _ _
    (inferInstanceAs (Countable ((ℕ × ℕ × Option ℕ × Term × UInt32) ×
      (Option (SenderChain symbolic) × List (ReceiverChain symbolic)) ×
      (Option (PendingPreKey symbolic) × Option (PendingKyberPreKey symbolic)) ×
      UInt32 × UInt32 × ℕ × PqState)))
    (fun state => ((state.version, state.localIdentityKey, state.remoteIdentityKey,
        state.rootKey, state.previousCounter),
      (state.senderChain, state.receiverChains),
      (state.pendingPreKey, state.pendingKyberPreKey),
      state.remoteRegistrationId, state.localRegistrationId, state.aliceBaseKey,
      state.pqRatchetState))
  rintro ⟨_, _, _, _, _, _, _, _, _, _, _, _, _⟩ ⟨_, _, _, _, _, _, _, _, _, _, _, _, _⟩ same
  cases same
  rfl

instance : Countable (SessionRecord symbolic) :=
  Function.Injective.countable (f := fun record : SessionRecord symbolic =>
    (record.currentSession, record.previousSessions))
    (by rintro ⟨_, _⟩ ⟨_, _⟩ same; cases same; rfl)

end Symbolic

noncomputable def RecordFormat.ofCountable (Record : Type) [Countable Record] :
    RecordFormat Record :=
  let number := (Countable.exists_injective_nat Record).choose
  let bytes : Record → List UInt8 := fun record => List.replicate (number record) 0
  have injective : Function.Injective bytes := by
    intro record other same
    apply (Countable.exists_injective_nat Record).choose_spec
    simpa [bytes] using congrArg List.length same
  { serialize := bytes
    deserialize := Function.partialInv bytes
    deserialize_serialize := Function.partialInv_left injective }

noncomputable def SignalFormats.symbolic : SignalFormats symbolic where
  identityKeyPair := .ofCountable _
  identityKey := @RecordFormat.ofCountable _ (inferInstanceAs (Countable ℕ))
  preKeyRecord := .ofCountable _
  sessionRecord := .ofCountable _
  signedPreKeyRecord := .ofCountable _
  kyberPreKeyRecord := @RecordFormat.ofCountable _ (inferInstanceAs (Countable ℕ))
  base64 := .standard
  otherDigit := fun _ => none

namespace Symbolic

def bobBundle : PreKeyBundle symbolic where
  registrationId := 7
  preKeyId := none
  preKeyPublic := none
  signedPreKeyId := 1
  signedPreKeyPublic := (3 : ℕ)
  signedPreKeySignature := ((2, 3) : ℕ × ℕ)
  identityKey := (2 : ℕ)
  kyberPreKeyId := 1
  kyberPreKeyPublic := (4 : ℕ)
  kyberPreKeySignature := ((2, 4) : ℕ × ℕ)

def aliceParameters : AliceSignalProtocolParameters symbolic :=
  bobBundle.parameters ⟨(1 : ℕ)⟩ ⟨(10 : ℕ)⟩

def aliceDraw : BundleRandomness symbolic := ⟨(10 : ℕ), (0 : ℕ), (11 : ℕ)⟩

def aliceSession : SessionState symbolic :=
  let keys := deriveKeys (aliceParameters.secrets (Term.kem 4 0))
  let sending := createChain keys.1 (3 : ℕ) (11 : ℕ)
  let session : SessionState symbolic :=
    SessionState.new CIPHERTEXT_MESSAGE_CURRENT_VERSION (1 : ℕ) (2 : ℕ) sending.1 (10 : ℕ)
      ⟨keys.2.2, .a2b, 0⟩
  { (session.addReceiverChain (3 : ℕ) keys.2.1).setSenderChain ⟨(11 : ℕ)⟩ sending.2 with
    pendingKyberPreKey := some ⟨0xFFFFFFFF, ((4, 0) : ℕ × ℕ)⟩ }

def aliceRecord : SessionRecord symbolic :=
  ⟨some (aliceSession.setUnacknowledged bobBundle (10 : ℕ) 0 0), []⟩

def firstKeys : MessageKeys symbolic :=
  let keys := deriveKeys (aliceParameters.secrets (Term.kem 4 0))
  let sending := createChain keys.1 (3 : ℕ) (11 : ℕ)
  MessageKeys.deriveKeys (Term.hmac sending.2.key ChainKey.MESSAGE_KEY_SEED)
    (some (Term.pq keys.2.2 .a2b 0)) 0

def firstMessage (ptext : Text) : PreKeySignalMessage symbolic where
  messageVersion := CIPHERTEXT_MESSAGE_CURRENT_VERSION
  registrationId := 0
  preKeyId := none
  signedPreKeyId := 1
  kyberPayload := some ⟨1, ((4, 0) : ℕ × ℕ)⟩
  baseKey := (10 : ℕ)
  identityKey := (1 : ℕ)
  message := SignalMessage.new firstKeys.macKey (1 : ℕ) (2 : ℕ)
    { messageVersion := CIPHERTEXT_MESSAGE_CURRENT_VERSION
      senderRatchetKey := (11 : ℕ)
      counter := 0
      previousCounter := 0
      ciphertext := Text.encrypted ptext firstKeys.cipherKey firstKeys.iv
      pqRatchet := (0 : ℕ) }

/-- What the owner of the bundle makes of the first message. -/
def bobParameters : BobSignalProtocolParameters symbolic where
  ourIdentityKeyPair := ⟨(2 : ℕ)⟩
  ourSignedPreKeyPair := ⟨(3 : ℕ)⟩
  ourOneTimePreKeyPair := none
  ourRatchetKeyPair := ⟨(3 : ℕ)⟩
  ourKyberPreKeyPair := (4 : ℕ)
  theirIdentityKey := (1 : ℕ)
  theirBaseKey := (10 : ℕ)
  theirKyberCiphertext := ((4, 0) : ℕ × ℕ)

def bobSession : SessionState symbolic :=
  let keys := deriveKeys (bobParameters.secrets (Term.kem 4 0))
  let session : SessionState symbolic :=
    SessionState.new CIPHERTEXT_MESSAGE_CURRENT_VERSION (2 : ℕ) (1 : ℕ) keys.1 (10 : ℕ)
      ⟨keys.2.2, .b2a, 0⟩
  session.setSenderChain ⟨(3 : ℕ)⟩ keys.2.1

theorem initializeBobSession_eq : initializeBobSession bobParameters = .ok bobSession := rfl

noncomputable def aliceStore : AppStore SignalFormats.symbolic :=
  ⟨SharedPrefsStore.saveIdentityKeyPair SignalFormats.symbolic.store ∅ ⟨(1 : ℕ)⟩⟩

theorem getIdentityKeyPair_aliceStore :
    ProtocolStore.getIdentityKeyPair aliceStore = .ok ⟨(1 : ℕ)⟩ := by
  have found : aliceStore.prefs.lookup StoreKey.identityKeyPair.text =
      (some (⟨(1 : ℕ)⟩ : symbolic.KeyPair)).map
        (SharedPrefsStore.encode SignalFormats.symbolic.store
          SignalFormats.symbolic.store.identityKeyPair) :=
    AList.lookup_insert _
  simp only [ProtocolStore.getIdentityKeyPair, SharedPrefsStore.getIdentityKeyPair,
    StoreMaps.getString_of_lookup found]
  exact congrArg callback (StoreMaps.decode_encodeToString _ _)

theorem lookup_aliceStore {key : StoreKey} (different : key.word ≠ 0) :
    aliceStore.prefs.lookup key.text = none := by
  have other : key.text ≠ StoreKey.identityKeyPair.text :=
    AppStore.text_ne_of_word_ne different
  exact (AList.lookup_insert_ne other).trans (AList.lookup_empty _)

theorem getLocalRegistrationId_aliceStore :
    ProtocolStore.getLocalRegistrationId aliceStore = .ok 0 := by
  have missing := @lookup_aliceStore .localRegistrationId (by decide)
  simp only [ProtocolStore.getLocalRegistrationId, SharedPrefsStore.getLocalRegistrationId,
    Preferences.getInt, missing]
  rfl

theorem loadOrFresh_aliceStore (address : SignalProtocolAddress) :
    loadOrFresh aliceStore address = .ok SessionRecord.newFresh := by
  have missing := @lookup_aliceStore (.session address) (by simp [StoreKey.word])
  simp only [loadOrFresh, ProtocolStore.loadSession, SharedPrefsStore.loadSession,
    Preferences.getString, missing]
  rfl

theorem preKeyBundleUpdate_aliceStore (address : SignalProtocolAddress) :
    preKeyBundleUpdate aliceStore address bobBundle 0 aliceDraw SessionRecord.newFresh =
      .ok ⟨(), aliceRecord, (2 : ℕ), none⟩ := by
  unfold preKeyBundleUpdate
  rw [getIdentityKeyPair_aliceStore, getLocalRegistrationId_aliceStore]
  rfl

end Symbolic

end LegacySignal
