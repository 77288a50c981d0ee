import LegacySignal.Group.Windows
import LegacySignal.Library.KeyedRows
import LegacySignal.Library.Transition

/-!
# Group messages in any order

One sender and one receiver of a distribution. The sender makes chains,
distributes them at any iteration and encrypts on the newest one; it starts a
new chain when its store has lost the record. The receiver processes
distribution messages and decrypts messages in any order, any number of times;
its store also has the records of other senders and distributions.

The receiver's record is an inbox of windows, one for each chain it holds. A
message of a chain that it holds is decrypted once, unless its key made room
for newer ones. A chain that had to make room is forgotten altogether: when it
is learned again its messages are decrypted again.
-/

namespace LegacySignal

open ReceiveWindow SenderKeyRecord Transition List

variable {P : GroupPrimitives}

namespace GroupChain

def contentAt (chain : GroupChain P) (distributionId : Uuid) (position : ℕ) (ptext : P.Bytes) :
    SenderKeyContent P.Bytes :=
  let key := chain.messageKeyAt position
  ⟨SENDERKEY_MESSAGE_CURRENT_VERSION, distributionId, chain.chainId, UInt32.ofNat position,
    P.aesCbcEncrypt ptext key.cipherKey key.iv⟩

def distributionAt (chain : GroupChain P) (distributionId : Uuid) (position : ℕ) :
    SenderKeyDistributionMessage P :=
  ⟨SENDERKEY_MESSAGE_CURRENT_VERSION, distributionId, chain.chainId, UInt32.ofNat position,
    (chain.keyAt position).chainKey, chain.publicKey⟩

def ownState (chain : GroupChain P) (position : ℕ) : SenderKeyState P :=
  ⟨SENDERKEY_MESSAGE_CURRENT_VERSION, chain.chainId, chain.keyAt position, chain.publicKey,
    some chain.signingKey, []⟩

theorem encrypt_ownState (chain : GroupChain P) {position : ℕ}
    (small : position + 1 < UInt32.size) (distributionId : Uuid) (ptext : P.Bytes)
    (random : P.Random) :
    (chain.ownState position).encrypt distributionId ptext random =
      .ok (⟨chain.contentAt distributionId position ptext,
          P.calculateSignature chain.signingKey
            (chain.contentAt distributionId position ptext) random⟩,
        chain.ownState (position + 1)) := by
  have next := chain.next_keyAt small
  simp only [SenderKeyState.encrypt, ownState, next]
  rfl

theorem encrypt_ownState_last (chain : GroupChain P) {position : ℕ}
    (inside : position < UInt32.size) (last : ¬position + 1 < UInt32.size) (distributionId : Uuid)
    (ptext : P.Bytes) (random : P.Random) :
    ∃ error, (chain.ownState position).encrypt distributionId ptext random = .error error := by
  have same : (UInt32.ofNat position).toNat = position := UInt32.toNat_ofNat_of_lt' inside
  have next : (chain.keyAt position).next = .error
      (.invalidState "sender_chain_key_next" "Sender chain is too long") := by
    rw [SenderChainKey.next, if_neg (by rw [keyAt, same]; exact last)]
  simp only [SenderKeyState.encrypt, ownState, next]
  exact ⟨_, rfl⟩

end GroupChain

namespace HeldChain

variable {held : HeldChain P} {number : ℕ}

def learned (chain : GroupChain P) (base : ℕ) : HeldChain P := ⟨chain, base, Window.new⟩

theorem state_learned (chain : GroupChain P) (base : ℕ) :
    (learned chain base).state = .new SENDERKEY_MESSAGE_CURRENT_VERSION chain.chainId
      (UInt32.ofNat base) (chain.keyAt base).chainKey chain.publicKey none := rfl

theorem decrypt_state (lawful : P.Lawful) (sound : held.Sound)
    (small : held.base + number + 1 < UInt32.size) {next : Window}
    (received : held.receive number = some next) {distributionId : Uuid} {ptext : P.Bytes}
    {signature : P.Signature}
    (verified : P.verifySignature held.chain.publicKey
      (held.chain.contentAt distributionId (held.base + number) ptext) signature = true) :
    held.state.decrypt
        ⟨held.chain.contentAt distributionId (held.base + number) ptext, signature⟩ =
      .ok (ptext, (held.withWindow next).state) := by
  have opened := lawful.decrypt_encrypt ptext
    (held.chain.messageKeyAt (held.base + number)).cipherKey
    (held.chain.messageKeyAt (held.base + number)).iv
  exact SenderKeyState.decrypt_eq_ok.mpr ⟨rfl, verified, _,
    getSenderKey_of_receive sound small received, opened⟩

end HeldChain

namespace Group

def recordOf (inbox : List (HeldChain P)) : SenderKeyRecord P := ⟨inbox.map HeldChain.state⟩

def chainIds (inbox : List (HeldChain P)) : List UInt32 :=
  inbox.map fun held => held.chain.chainId

def receive (inbox : List (HeldChain P)) (chainId iteration : UInt32) : List (HeldChain P) :=
  inbox.map fun held =>
    if held.chain.chainId = chainId then
      held.withWindow ((held.receive (iteration.toNat - held.base)).getD held.window)
    else held

def heldAs (inbox : List (HeldChain P)) (chain : GroupChain P) : Option (HeldChain P) :=
  inbox.find? fun held =>
    held.chain.chainId = chain.chainId && held.chain.publicKey = chain.publicKey

def learn (inbox : List (HeldChain P)) (chain : GroupChain P) (position : ℕ) :
    List (HeldChain P) :=
  let others := inbox.filter fun held => held.chain.chainId ≠ chain.chainId
  (heldAs inbox chain).getD (.learned chain position) ::
    others.take (consts.MAX_SENDER_KEY_STATES - 1)

variable {inbox : List (HeldChain P)}

theorem senderKeyStateForChainId_recordOf (inbox : List (HeldChain P)) (chainId : UInt32) :
    (recordOf inbox).senderKeyStateForChainId chainId =
      (inbox.find? fun held => held.chain.chainId = chainId).map HeldChain.state := by
  simp only [senderKeyStateForChainId, recordOf, find?_map]
  rfl

theorem addSenderKeyState_recordOf (inbox : List (HeldChain P)) (chain : GroupChain P)
    (position : ℕ) :
    (recordOf inbox).addSenderKeyState SENDERKEY_MESSAGE_CURRENT_VERSION chain.chainId
        (UInt32.ofNat position) (chain.keyAt position).chainKey chain.publicKey none =
      recordOf (learn inbox chain position) := by
  simp only [addSenderKeyState, recordOf, learn, heldAs, find?_map, filter_map,
    map_cons, map_take, ← HeldChain.state_learned, Option.getD_map]
  rfl

theorem setStateForChainId_recordOf (nodup : (chainIds inbox).Nodup) {held : HeldChain P}
    (member : held ∈ inbox) {iteration : UInt32} {next : Window}
    (received : held.receive (iteration.toNat - held.base) = some next) :
    (recordOf inbox).setStateForChainId held.chain.chainId (held.withWindow next).state =
      recordOf (receive inbox held.chain.chainId iteration) := by
  simp only [setStateForChainId, recordOf, receive, map_map,
    mk.injEq]
  induction inbox with
  | nil => cases member
  | cons first rest ih =>
    rw [chainIds, map_cons, nodup_cons] at nodup
    by_cases same : first.chain.chainId = held.chain.chainId
    · rcases mem_cons.mp member with rfl | later
      · have others : rest.map HeldChain.state = rest.map (HeldChain.state ∘ fun other =>
            if other.chain.chainId = held.chain.chainId then
              other.withWindow ((other.receive (iteration.toNat - other.base)).getD other.window)
            else other) := by
          apply map_congr_left
          intro other present
          have different : other.chain.chainId ≠ held.chain.chainId := by
            intro equal
            exact nodup.1 (equal ▸ mem_map_of_mem present)
          simp [different]
        simp [replaceF, HeldChain.state, others, received]
      · exact absurd (same ▸ mem_map_of_mem later) nodup.1
    · have later : held ∈ rest := by
        rcases mem_cons.mp member with rfl | later
        · exact absurd rfl same
        · exact later
      have kept := ih nodup.2 later
      have passed : first.state.chainId ≠ held.chain.chainId := same
      simp only [map_cons, replaceF, Function.comp_apply, if_neg passed, if_neg same]
      exact congrArg _ kept

/-- A message that the sender has encrypted. -/
structure Sent (P : GroupPrimitives) where
  chain : GroupChain P
  position : ℕ
  ptext : P.Bytes
  message : SenderKeyMessage P

/-- The stores of the sender and of the receiver. What the sender has made and the inbox of the
receiver are recorded besides; they decide no step. -/
structure World (P : GroupPrimitives) (Own Theirs : Type) where
  own : Own
  theirs : Theirs
  /-- The newest first. -/
  chains : List (GroupChain P)
  distributed : List (SenderKeyDistributionMessage P)
  sent : List (Sent P)
  inbox : List (HeldChain P)

inductive Event (P : GroupPrimitives) (Own : Type) where
  /-- The sender makes a distribution message, for a new chain if it has none. -/
  | create (draw : SenderKeyDraw P)
  | encrypt (ptext : P.Bytes) (random : P.Random)
  /-- The sender's store loses the record. -/
  | rotate (emptied : Own)
  | process (address : SignalProtocolAddress) (skdm : SenderKeyDistributionMessage P)
  | decrypt (address : SignalProtocolAddress) (message : SenderKeyMessage P)

def chainOfDraw (draw : SenderKeyDraw P) : GroupChain P :=
  ⟨draw.chainId >>> 1, draw.senderKey, draw.signingKey⟩

def learnFrom (chains : List (GroupChain P)) (inbox : List (HeldChain P))
    (skdm : SenderKeyDistributionMessage P) : List (HeldChain P) :=
  match chains.find? fun chain => chain.publicKey = skdm.signingKey with
  | some chain => learn inbox chain skdm.iteration.toNat
  | none => inbox

variable {Own Theirs : Type} [SenderKeyStore P Own] [SenderKeyStore P Theirs]

open SenderKeyStore

def step (sender : SignalProtocolAddress) (distributionId : Uuid) (world : World P Own Theirs) :
    Event P Own → Option (World P Own Theirs)
  | .create draw =>
    let (result, own) := createSenderKeyDistributionMessage sender distributionId world.own draw
    some { world with
      own := own
      chains :=
        match loadSenderKey world.own sender distributionId with
        | some _ => world.chains
        | none => chainOfDraw draw :: world.chains
      distributed :=
        match result with
        | .ok skdm => skdm :: world.distributed
        | .error _ => world.distributed }
  | .encrypt ptext random =>
    match groupEncrypt world.own sender distributionId ptext random, world.chains with
    | (.ok message, own), chain :: _ =>
      some { world with
        own := own
        sent := ⟨chain, message.content.iteration.toNat, ptext, message⟩ :: world.sent }
    | (_, own), _ => some { world with own := own }
  | .rotate emptied =>
    match loadSenderKey emptied sender distributionId with
    | some _ => none
    | none => some { world with own := emptied }
  | .process address skdm =>
    some { world with
      theirs := processSenderKeyDistributionMessage address skdm world.theirs
      inbox :=
        if address = sender ∧ skdm.distributionId = distributionId then
          learnFrom world.chains world.inbox skdm
        else world.inbox }
  | .decrypt address message =>
    match groupDecrypt world.theirs address message with
    | (.error _, theirs) => some { world with theirs := theirs }
    | (.ok _, theirs) =>
      some { world with
        theirs := theirs
        inbox :=
          if address = sender ∧ message.content.distributionId = distributionId then
            receive world.inbox message.content.chainId message.content.iteration
          else world.inbox }

/-- Signing keys are new, the distribution messages of the sender come from the sender, and
signatures cannot be forged. -/
def Allowed (sender : SignalProtocolAddress) (distributionId : Uuid) (world : World P Own Theirs) :
    Event P Own → Prop
  | .create draw => ∀ chain ∈ world.chains, chain.publicKey ≠ P.publicKey draw.signingKey
  | .process address skdm => address = sender → skdm.distributionId = distributionId →
      skdm ∈ world.distributed
  | .decrypt address message => address = sender →
      message.content.distributionId = distributionId → ∀ chain ∈ world.chains,
        P.verifySignature chain.publicKey message.content message.signature = true →
        ∃ sent ∈ world.sent, sent.chain = chain ∧ sent.message.content = message.content
  | _ => True

section Decidable

variable [DecidableEq P.PrivateKey] [DecidableEq P.Secret] [DecidableEq P.Bytes]

instance : DecidableEq (GroupChain P) := fun chain other =>
  decidable_of_iff
    (chain.chainId = other.chainId ∧ chain.seed = other.seed ∧ chain.signingKey = other.signingKey)
    (by cases chain; cases other; simp)

instance : DecidableEq (SenderKeyDistributionMessage P) := fun skdm other =>
  decidable_of_iff
    (skdm.messageVersion = other.messageVersion ∧ skdm.distributionId = other.distributionId ∧
      skdm.chainId = other.chainId ∧ skdm.iteration = other.iteration ∧
      skdm.chainKey = other.chainKey ∧ skdm.signingKey = other.signingKey)
    (by cases skdm; cases other; simp)

instance (sender : SignalProtocolAddress) (distributionId : Uuid) (world : World P Own Theirs)
    (event : Event P Own) : Decidable (Allowed sender distributionId world event) := by
  cases event <;> unfold Allowed <;> infer_instance

end Decidable

def initial (own : Own) (theirs : Theirs) : World P Own Theirs := ⟨own, theirs, [], [], [], []⟩

/-- What the sender has made belongs to its chains, and it stands beyond what it has sent. -/
structure SenderSound (sender : SignalProtocolAddress) (distributionId : Uuid)
    (world : World P Own Theirs) : Prop where
  chains_nodup : (world.chains.map GroupChain.publicKey).Nodup
  own : loadSenderKey world.own sender distributionId = none ∨
    ∃ chain older position, world.chains = chain :: older ∧ position < UInt32.size ∧
      loadSenderKey world.own sender distributionId = some ⟨[chain.ownState position]⟩ ∧
      ∀ sent ∈ world.sent, sent.chain = chain → sent.position < position
  distributed : ∀ skdm ∈ world.distributed, ∃ chain ∈ world.chains, ∃ position < UInt32.size,
    skdm = chain.distributionAt distributionId position
  sent : ∀ sent ∈ world.sent, sent.chain ∈ world.chains ∧ sent.position + 1 < UInt32.size ∧
    sent.message.content = sent.chain.contentAt distributionId sent.position sent.ptext ∧
    P.verifySignature sent.chain.publicKey sent.message.content sent.message.signature = true
  sent_once : world.sent.Pairwise fun sent other =>
    sent.chain = other.chain → sent.position ≠ other.position

variable {sender : SignalProtocolAddress} {distributionId : Uuid} {world next : World P Own Theirs}

theorem create_of_own {own : Own} {chain : GroupChain P} {position : ℕ}
    (loaded : loadSenderKey own sender distributionId = some ⟨[chain.ownState position]⟩)
    (draw : SenderKeyDraw P) :
    createSenderKeyDistributionMessage sender distributionId own draw =
      (.ok (chain.distributionAt distributionId position), own) := by
  simp only [createSenderKeyDistributionMessage, loadOrCreateSenderKey, loaded]
  rfl

theorem create_of_none {own : Own} (missing : loadSenderKey own sender distributionId = none)
    (draw : SenderKeyDraw P) :
    createSenderKeyDistributionMessage sender distributionId own draw =
      (.ok ((chainOfDraw draw).distributionAt distributionId 0),
        storeSenderKey own sender distributionId ⟨[(chainOfDraw draw).ownState 0]⟩) := by
  simp only [createSenderKeyDistributionMessage, loadOrCreateSenderKey, missing]
  rfl

section LawfulOwn

variable [LawfulSenderKeyStore P Own]

theorem SenderSound.create (sound : SenderSound sender distributionId world)
    {draw : SenderKeyDraw P}
    (allowed : ∀ chain ∈ world.chains, chain.publicKey ≠ P.publicKey draw.signingKey)
    (stepped : step sender distributionId world (.create draw) = some next) :
    SenderSound sender distributionId next := by
  rcases sound.own with missing | ⟨chain, older, position, newest, small, loaded, beyond⟩
  · simp only [step, create_of_none missing, missing] at stepped
    cases stepped
    have fresh : ∀ sent ∈ world.sent, sent.chain ≠ chainOfDraw draw := by
      intro sent member same
      exact allowed sent.chain (sound.sent sent member).1 (congrArg GroupChain.publicKey same)
    refine ⟨?_, ?_, ?_, ?_, sound.sent_once⟩
    · rw [map_cons, nodup_cons]
      refine ⟨?_, sound.chains_nodup⟩
      intro member
      rcases mem_map.mp member with ⟨other, isChain, same⟩
      exact allowed other isChain same
    · right
      refine ⟨_, _, 0, rfl, by decide, ?_, ?_⟩
      · exact LawfulSenderKeyStore.loadSenderKey_storeSenderKey _ _ _ _
      · intro sent member same
        exact absurd same (fresh sent member)
    · intro skdm member
      rcases mem_cons.mp member with rfl | earlier
      · exact ⟨_, mem_cons_self, 0, by decide, rfl⟩
      · rcases sound.distributed skdm earlier with ⟨chain, isChain, made⟩
        exact ⟨chain, mem_cons_of_mem _ isChain, made⟩
    · intro sent member
      rcases sound.sent sent member with ⟨isChain, made⟩
      exact ⟨mem_cons_of_mem _ isChain, made⟩
  · simp only [step, create_of_own loaded, loaded] at stepped
    cases stepped
    refine ⟨sound.chains_nodup, ?_, ?_, sound.sent, sound.sent_once⟩
    · exact Or.inr ⟨chain, older, position, newest, small, loaded, beyond⟩
    · intro skdm member
      rcases mem_cons.mp member with rfl | earlier
      · refine ⟨chain, ?_, position, small, rfl⟩
        rw [newest]
        exact mem_cons_self
      · exact sound.distributed skdm earlier

theorem SenderSound.encrypt (lawful : P.Lawful) (sound : SenderSound sender distributionId world)
    {ptext : P.Bytes} {random : P.Random}
    (stepped : step sender distributionId world (.encrypt ptext random) = some next) :
    SenderSound sender distributionId next := by
  rcases sound.own with missing | ⟨chain, older, position, newest, small, loaded, beyond⟩
  · simp only [step, groupEncrypt, missing] at stepped
    cases stepped
    exact sound
  · by_cases last : position + 1 < UInt32.size
    · have sentAt : (chain.contentAt distributionId position ptext).iteration.toNat = position :=
        UInt32.toNat_ofNat_of_lt' small
      rcases world with ⟨own, theirs, chains, distributed, allSent, inbox⟩
      obtain rfl : chains = chain :: older := newest
      simp only [step, groupEncrypt, loaded, chain.encrypt_ownState last, sentAt] at stepped
      cases stepped
      refine ⟨sound.chains_nodup, ?_, sound.distributed, ?_, ?_⟩
      · right
        refine ⟨chain, older, position + 1, rfl, last, ?_, ?_⟩
        · exact LawfulSenderKeyStore.loadSenderKey_storeSenderKey _ _ _ _
        · intro sent member same
          rcases mem_cons.mp member with rfl | earlier
          · exact Nat.lt_succ_self _
          · exact Nat.lt_succ_of_lt (beyond sent earlier same)
      · intro sent member
        rcases mem_cons.mp member with rfl | earlier
        · exact ⟨mem_cons_self, last, rfl, lawful.verify_calculate _ _ _⟩
        · exact sound.sent sent earlier
      · rw [pairwise_cons]
        refine ⟨?_, sound.sent_once⟩
        intro other earlier same
        exact Nat.ne_of_gt (beyond other earlier same.symm)
    · rcases chain.encrypt_ownState_last small last distributionId ptext random with
        ⟨error, failed⟩
      simp only [step, groupEncrypt, loaded, failed] at stepped
      cases stepped
      exact sound

end LawfulOwn

/-- The record of the receiver is that of the inbox, which holds chains of the sender. -/
structure ReceiverSound (sender : SignalProtocolAddress) (distributionId : Uuid)
    (world : World P Own Theirs) : Prop where
  theirs : (loadSenderKey world.theirs sender distributionId).getD .newEmpty =
    recordOf world.inbox
  held : ∀ held ∈ world.inbox, held.Sound ∧ held.chain ∈ world.chains
  chainIds_nodup : (chainIds world.inbox).Nodup
  length_le : world.inbox.length ≤ consts.MAX_SENDER_KEY_STATES

theorem sound_learned (chain : GroupChain P) {position : ℕ} (small : position < UInt32.size) :
    (HeldChain.learned chain position).Sound :=
  ⟨Window.sound_new _, small⟩

theorem mem_learn {chain : GroupChain P} {position : ℕ} {held : HeldChain P}
    (member : held ∈ learn inbox chain position) :
    held ∈ inbox ∨ held = .learned chain position := by
  rcases mem_cons.mp member with rfl | other
  · cases existing : heldAs inbox chain with
    | none => exact Or.inr rfl
    | some found => exact Or.inl (mem_of_find?_eq_some existing)
  · exact Or.inl (mem_filter.mp (mem_of_mem_take other)).1

theorem length_learn (inbox : List (HeldChain P)) (chain : GroupChain P) (position : ℕ) :
    (learn inbox chain position).length ≤ consts.MAX_SENDER_KEY_STATES := by
  simp only [learn, length_cons, length_take]
  have room : 0 < consts.MAX_SENDER_KEY_STATES := by decide
  omega

theorem nodup_chainIds_learn (nodup : (chainIds inbox).Nodup) (chain : GroupChain P)
    (position : ℕ) : (chainIds (learn inbox chain position)).Nodup := by
  have sameId : ((heldAs inbox chain).getD (.learned chain position)).chain.chainId =
      chain.chainId := by
    cases existing : heldAs inbox chain with
    | none => rfl
    | some held =>
      have matching := find?_some existing
      simp only [Bool.and_eq_true, decide_eq_true_eq] at matching
      exact matching.1
  rw [chainIds, learn, map_cons, nodup_cons, sameId]
  constructor
  · intro member
    rcases mem_map.mp member with ⟨other, kept, same⟩
    have different := (mem_filter.mp (mem_of_mem_take kept)).2
    simp [same] at different
  · exact (KeyedRows.nodup_map_filter _ nodup).sublist ((take_sublist _ _).map _)

theorem nodup_chainIds_receive (nodup : (chainIds inbox).Nodup) (chainId iteration : UInt32) :
    (chainIds (receive inbox chainId iteration)).Nodup := by
  have kept : ∀ held : HeldChain P,
      (if held.chain.chainId = chainId then
        held.withWindow ((held.receive (iteration.toNat - held.base)).getD held.window)
      else held).chain.chainId = held.chain.chainId := by
    intro held
    split <;> rfl
  rw [chainIds, receive, KeyedRows.map_key_map kept]
  exact nodup

theorem sound_receive {held : HeldChain P} (sound : held.Sound) {number : ℕ} {next : Window}
    (received : held.receive number = some next) (small : held.base + number + 1 < UInt32.size) :
    (held.withWindow next).Sound := by
  refine ⟨sound.window.receive received, ?_⟩
  change held.base + next.next < UInt32.size
  have before := sound.position_lt
  rw [HeldChain.position] at before
  rcases Window.next_receive received with same | taken
  · omega
  · omega

omit [SenderKeyStore P Own] in
theorem ReceiverSound.mono {before : World P Own Theirs}
    (sound : ReceiverSound sender distributionId before) (theirs : next.theirs = before.theirs)
    (inbox : next.inbox = before.inbox) (chains : ∀ chain ∈ before.chains, chain ∈ next.chains) :
    ReceiverSound sender distributionId next := by
  refine ⟨?_, ?_, ?_, ?_⟩
  · rw [theirs, inbox]
    exact sound.theirs
  · intro held member
    rw [inbox] at member
    exact ⟨(sound.held held member).1, chains _ (sound.held held member).2⟩
  · rw [inbox]
    exact sound.chainIds_nodup
  · rw [inbox]
    exact sound.length_le

omit [SenderKeyStore P Own] in
theorem ReceiverSound.eq_recordOf (sound : ReceiverSound sender distributionId world)
    {record : SenderKeyRecord P}
    (loaded : loadSenderKey world.theirs sender distributionId = some record) :
    record = recordOf world.inbox := by
  have theirs := sound.theirs
  rw [loaded] at theirs
  exact theirs

omit [SenderKeyStore P Own] in
theorem ReceiverSound.loadSenderKey_of_mem (sound : ReceiverSound sender distributionId world)
    {held : HeldChain P} (member : held ∈ world.inbox) :
    loadSenderKey world.theirs sender distributionId = some (recordOf world.inbox) := by
  cases loaded : loadSenderKey world.theirs sender distributionId with
  | none =>
    have theirs := sound.theirs
    rw [loaded] at theirs
    have empty : world.inbox.map HeldChain.state = [] :=
      (congrArg states theirs).symm
    rw [map_eq_nil_iff.mp empty] at member
    cases member
  | some record => exact congrArg some (sound.eq_recordOf loaded)

/-- A message that the record decrypts is one that the window of its chain takes. -/
theorem ReceiverSound.decryptUpdate_inv (sound : ReceiverSound sender distributionId world)
    (senderSound : SenderSound sender distributionId world) {message : SenderKeyMessage P}
    (own : message.content.distributionId = distributionId)
    (unforged : ∀ chain ∈ world.chains,
      P.verifySignature chain.publicKey message.content message.signature = true →
      ∃ sent ∈ world.sent, sent.chain = chain ∧ sent.message.content = message.content)
    {ptext : P.Bytes} {updated : SenderKeyRecord P}
    (decrypted : decryptUpdate world.theirs sender message = .ok (ptext, updated)) :
    ∃ held ∈ world.inbox, held.chain.chainId = message.content.chainId ∧
      held.base ≤ message.content.iteration.toNat ∧
      message.content.iteration.toNat + 1 < UInt32.size ∧
      ∃ next, held.receive (message.content.iteration.toNat - held.base) = some next ∧
        updated =
          recordOf (receive world.inbox message.content.chainId message.content.iteration) := by
  rcases decryptUpdate_eq_ok.mp decrypted with ⟨_, record, loaded, opened⟩
  rw [own] at loaded
  have isInbox := sound.eq_recordOf loaded
  subst isInbox
  rcases decrypt_eq_ok.mp opened with ⟨state, advanced, found, stateOpened, rfl⟩
  rw [senderKeyStateForChainId_recordOf] at found
  rcases Option.map_eq_some_iff.mp found with ⟨held, isHeld, rfl⟩
  have member := mem_of_find?_eq_some isHeld
  have sameId : held.chain.chainId = message.content.chainId := by
    simpa using find?_some isHeld
  rcases sound.held held member with ⟨heldSound, isChain⟩
  rcases SenderKeyState.decrypt_eq_ok.mp stateOpened with ⟨_, verified, key, gotKey, _⟩
  rcases unforged held.chain isChain verified with ⟨sent, isSent, _, sameContent⟩
  rcases senderSound.sent sent isSent with ⟨_, small, content, _⟩
  have iteration : message.content.iteration = UInt32.ofNat sent.position := by
    rw [← sameContent, content]
    rfl
  have position : message.content.iteration.toNat = sent.position := by
    rw [iteration]
    exact UInt32.toNat_ofNat_of_lt' (Nat.lt_of_succ_lt small)
  have notBefore : held.base ≤ message.content.iteration.toNat := by
    by_contra before
    rcases HeldChain.getSenderKey_of_lt_base heldSound (Nat.lt_of_not_le before) with
      ⟨error, failed⟩
    cases failed.symm.trans gotKey
  have numbered : held.base + (message.content.iteration.toNat - held.base) = sent.position := by
    omega
  have nearEnd : held.base + (message.content.iteration.toNat - held.base) + 1 < UInt32.size := by
    omega
  have sameIteration : UInt32.ofNat (held.base + (message.content.iteration.toNat - held.base)) =
      message.content.iteration := by
    rw [numbered, iteration]
  cases received : held.receive (message.content.iteration.toNat - held.base) with
  | none =>
    have inside := Nat.lt_of_succ_lt nearEnd
    rcases HeldChain.getSenderKey_of_not_receive heldSound inside received with ⟨error, failed⟩
    rw [sameIteration] at failed
    cases failed.symm.trans gotKey
  | some next =>
    have got := HeldChain.getSenderKey_of_receive heldSound nearEnd received
    rw [sameIteration] at got
    cases got.symm.trans gotKey
    refine ⟨held, member, sameId, notBefore, ?_, next, received, ?_⟩
    · omega
    · rw [← sameId]
      exact setStateForChainId_recordOf sound.chainIds_nodup member received

section LawfulTheirs

variable [LawfulSenderKeyStore P Theirs]

section

variable (sound : ReceiverSound sender distributionId world)
  (senderSound : SenderSound sender distributionId world)

include sound senderSound

theorem ReceiverSound.process {address : SignalProtocolAddress}
    {skdm : SenderKeyDistributionMessage P}
    (allowed : address = sender → skdm.distributionId = distributionId → skdm ∈ world.distributed)
    (stepped : step sender distributionId world (.process address skdm) = some next) :
    ReceiverSound sender distributionId next := by
  by_cases here : address = sender ∧ skdm.distributionId = distributionId
  · rcases senderSound.distributed skdm (allowed here.1 here.2) with
      ⟨chain, isChain, position, small, rfl⟩
    rcases here with ⟨rfl, _⟩
    have chainFound : (world.chains.find? fun other =>
        other.publicKey = (chain.distributionAt distributionId position).signingKey) =
          some chain :=
      KeyedRows.find?_key senderSound.chains_nodup isChain
    have iteration : (chain.distributionAt distributionId position).iteration.toNat = position :=
      UInt32.toNat_ofNat_of_lt' small
    have inside : (chain.distributionAt distributionId position).distributionId =
        distributionId := rfl
    simp only [step, inside, and_self, if_true, learnFrom, chainFound, iteration] at stepped
    cases stepped
    refine ⟨?_, ?_, ?_, ?_⟩
    · change (loadSenderKey (storeSenderKey world.theirs address distributionId
        (((loadSenderKey world.theirs address distributionId).getD .newEmpty).addSenderKeyState
          _ _ _ _ _ _)) address distributionId).getD .newEmpty = _
      rw [LawfulSenderKeyStore.loadSenderKey_storeSenderKey, sound.theirs]
      exact addSenderKeyState_recordOf world.inbox chain position
    · intro held member
      rcases mem_learn member with before | rfl
      · exact sound.held held before
      · exact ⟨sound_learned chain small, isChain⟩
    · exact nodup_chainIds_learn sound.chainIds_nodup chain position
    · exact length_learn world.inbox chain position
  · simp only [step, if_neg here] at stepped
    cases stepped
    refine ⟨?_, sound.held, sound.chainIds_nodup, sound.length_le⟩
    have elsewhere : (sender, distributionId) ≠ (address, skdm.distributionId) := by
      intro same
      exact here ⟨(Prod.mk.inj same).1.symm, (Prod.mk.inj same).2.symm⟩
    change (loadSenderKey (storeSenderKey world.theirs address skdm.distributionId _) sender
      distributionId).getD .newEmpty = _
    rw [LawfulSenderKeyStore.loadSenderKey_storeSenderKey_of_ne _ _ elsewhere]
    exact sound.theirs

theorem ReceiverSound.decrypt {address : SignalProtocolAddress} {message : SenderKeyMessage P}
    (allowed : Allowed sender distributionId world (.decrypt address message))
    (stepped : step sender distributionId world (.decrypt address message) = some next) :
    ReceiverSound sender distributionId next := by
  simp only [step] at stepped
  split at stepped
  · rename_i error theirs failed
    cases stepped
    have unchanged : theirs = world.theirs :=
      (congrArg Prod.snd failed).symm.trans (groupDecrypt_error (congrArg Prod.fst failed))
    exact sound.mono unchanged rfl (fun _ isChain => isChain)
  · rename_i ptext theirs succeeded
    cases stepped
    rcases groupDecrypt_eq_ok.mp succeeded with ⟨updated, decrypted, rfl⟩
    by_cases here : address = sender ∧ message.content.distributionId = distributionId
    · rcases here with ⟨rfl, own⟩
      rcases sound.decryptUpdate_inv senderSound own (allowed rfl own) decrypted with
        ⟨held, member, sameId, notBefore, small, window, received, rfl⟩
      simp only [own, and_self, if_true]
      refine ⟨?_, ?_, ?_, ?_⟩
      · change (loadSenderKey (storeSenderKey _ _ _ _) _ _).getD .newEmpty = _
        rw [LawfulSenderKeyStore.loadSenderKey_storeSenderKey]
        rfl
      · intro changed isChanged
        rcases mem_map.mp isChanged with ⟨before, present, rfl⟩
        rcases sound.held before present with ⟨beforeSound, isChain⟩
        split
        · rename_i matching
          have same := KeyedRows.eq_of_key_eq sound.chainIds_nodup present member
            (matching.trans sameId.symm)
          subst same
          rw [received]
          refine ⟨sound_receive beforeSound received ?_, isChain⟩
          omega
        · exact ⟨beforeSound, isChain⟩
      · exact nodup_chainIds_receive sound.chainIds_nodup _ _
      · change (map _ _).length ≤ _
        rw [length_map]
        exact sound.length_le
    · have elsewhere : (sender, distributionId) ≠ (address, message.content.distributionId) := by
        intro same
        exact here ⟨(Prod.mk.inj same).1.symm, (Prod.mk.inj same).2.symm⟩
      simp only [if_neg here]
      refine ⟨?_, sound.held, sound.chainIds_nodup, sound.length_le⟩
      change (loadSenderKey (storeSenderKey _ _ _ _) _ _).getD .newEmpty = _
      rw [LawfulSenderKeyStore.loadSenderKey_storeSenderKey_of_ne _ _ elsewhere]
      exact sound.theirs

end

end LawfulTheirs

theorem sound_initial {own : Own} {theirs : Theirs}
    (noOwn : loadSenderKey own sender distributionId = none)
    (noTheirs : loadSenderKey theirs sender distributionId = none) :
    SenderSound sender distributionId (initial own theirs) ∧
      ReceiverSound sender distributionId (initial own theirs) := by
  constructor
  · exact ⟨nodup_nil, Or.inl noOwn, by simp [initial], by simp [initial],
      Pairwise.nil⟩
  · refine ⟨?_, by simp [initial], nodup_nil, Nat.zero_le _⟩
    change (loadSenderKey theirs sender distributionId).getD .newEmpty = _
    rw [noTheirs]
    rfl

theorem sound_step [LawfulSenderKeyStore P Own] [LawfulSenderKeyStore P Theirs]
    (lawful : P.Lawful) (world : World P Own Theirs) (event : Event P Own)
    (next : World P Own Theirs)
    (sound : SenderSound sender distributionId world ∧ ReceiverSound sender distributionId world)
    (allowed : Allowed sender distributionId world event)
    (stepped : step sender distributionId world event = some next) :
    SenderSound sender distributionId next ∧ ReceiverSound sender distributionId next := by
  rcases sound with ⟨senderSound, receiverSound⟩
  cases event with
  | create draw =>
    refine ⟨senderSound.create allowed stepped, ?_⟩
    have theirs : next.theirs = world.theirs := by
      cases stepped
      rfl
    have inbox : next.inbox = world.inbox := by
      cases stepped
      rfl
    apply receiverSound.mono theirs inbox
    intro chain isChain
    cases stepped
    dsimp only
    split
    · exact isChain
    · exact mem_cons_of_mem _ isChain
  | encrypt ptext random =>
    refine ⟨senderSound.encrypt lawful stepped, ?_⟩
    simp only [step] at stepped
    split at stepped
    · cases stepped
      exact receiverSound.mono rfl rfl (fun _ isChain => isChain)
    · cases stepped
      exact receiverSound.mono rfl rfl (fun _ isChain => isChain)
  | rotate emptied =>
    simp only [step] at stepped
    split at stepped
    · cases stepped
    · rename_i missing
      cases stepped
      refine ⟨?_, receiverSound.mono rfl rfl (fun _ isChain => isChain)⟩
      exact ⟨senderSound.chains_nodup, Or.inl missing, senderSound.distributed,
        senderSound.sent, senderSound.sent_once⟩
  | process address skdm =>
    refine ⟨?_, receiverSound.process senderSound allowed stepped⟩
    cases stepped
    exact ⟨senderSound.chains_nodup, senderSound.own, senderSound.distributed,
      senderSound.sent, senderSound.sent_once⟩
  | decrypt address message =>
    refine ⟨?_, receiverSound.decrypt senderSound allowed stepped⟩
    simp only [step] at stepped
    split at stepped
    · cases stepped
      exact ⟨senderSound.chains_nodup, senderSound.own, senderSound.distributed,
        senderSound.sent, senderSound.sent_once⟩
    · cases stepped
      exact ⟨senderSound.chains_nodup, senderSound.own, senderSound.distributed,
        senderSound.sent, senderSound.sent_once⟩

/-- What the receiver of group messages can rely on. -/
structure Reliable (sender : SignalProtocolAddress) (distributionId : Uuid)
    (world : World P Own Theirs) : Prop where
  represented : (loadSenderKey world.theirs sender distributionId).getD .newEmpty =
    recordOf world.inbox
  sent_once : world.sent.Pairwise fun sent other =>
    sent.chain = other.chain → sent.position ≠ other.position
  /-- A message of a chain that is held is decrypted if it was not decrypted and its key was not
  dropped since the chain was learned, unless it is too far ahead. -/
  first : ∀ sent ∈ world.sent, ∀ held ∈ world.inbox, held.chain = sent.chain →
    held.base ≤ sent.position → sent.position - held.base ∉ held.window.taken →
    sent.position - held.base ∉ held.window.forgotten →
    sent.position ≤ held.position + consts.MAX_FORWARD_JUMPS →
    (groupDecrypt world.theirs sender sent.message).1 = .ok sent.ptext
  /-- What was decrypted since the chain was learned is not decrypted again. -/
  further : ∀ held ∈ world.inbox, ∀ number ∈ held.window.taken, ∀ message : SenderKeyMessage P,
    message.content.distributionId = distributionId →
    message.content.chainId = held.chain.chainId →
    message.content.iteration.toNat = held.base + number →
    ∃ error, (groupDecrypt world.theirs sender message).1 = .error error
  unheld : ∀ message : SenderKeyMessage P, message.content.distributionId = distributionId →
    message.content.chainId ∉ chainIds world.inbox →
    ∃ error, (groupDecrypt world.theirs sender message).1 = .error error
  failed : ∀ (address : SignalProtocolAddress) (message : SenderKeyMessage P) (error : GroupError),
    (groupDecrypt world.theirs address message).1 = .error error →
    (groupDecrypt world.theirs address message).2 = world.theirs
  bounded : ∀ record, loadSenderKey world.theirs sender distributionId = some record →
    record.states.length ≤ consts.MAX_SENDER_KEY_STATES ∧
      (record.states.map SenderKeyState.chainId).Nodup
  /-- A distribution message for a chain that is held changes nothing about it. -/
  kept : ∀ (skdm : SenderKeyDistributionMessage P) (record : SenderKeyRecord P)
    (state : SenderKeyState P), skdm.distributionId = distributionId →
    loadSenderKey world.theirs sender distributionId = some record →
    record.senderKeyStateForChainId skdm.chainId = some state →
    state.signingKeyPublic = skdm.signingKey →
    ∃ after, loadSenderKey (processSenderKeyDistributionMessage sender skdm world.theirs) sender
        distributionId = some after ∧
      after.senderKeyStateForChainId skdm.chainId = some state

theorem ReceiverSound.first (lawful : P.Lawful) (sound : ReceiverSound sender distributionId world)
    (senderSound : SenderSound sender distributionId world) {sent : Sent P}
    (isSent : sent ∈ world.sent) {held : HeldChain P} (member : held ∈ world.inbox)
    (sameChain : held.chain = sent.chain) (notBefore : held.base ≤ sent.position)
    (notTaken : sent.position - held.base ∉ held.window.taken)
    (notForgotten : sent.position - held.base ∉ held.window.forgotten)
    (near : sent.position ≤ held.position + consts.MAX_FORWARD_JUMPS) :
    (groupDecrypt world.theirs sender sent.message).1 = .ok sent.ptext := by
  rcases senderSound.sent sent isSent with ⟨_, small, content, verified⟩
  rcases sound.held held member with ⟨heldSound, _⟩
  have numbered : held.base + (sent.position - held.base) = sent.position := by omega
  have isReceived : (held.receive (sent.position - held.base)).isSome := by
    apply heldSound.window.receive_isSome notTaken notForgotten
    intro bound isBound
    cases isBound
    rw [HeldChain.position] at near
    omega
  rcases Option.isSome_iff_exists.mp isReceived with ⟨window, received⟩
  have opened := HeldChain.decrypt_state lawful heldSound (by rw [numbered]; exact small) received
    (by rw [numbered, sameChain, ← content]; exact verified)
  rw [numbered, sameChain, ← content] at opened
  have sameId : held.chain.chainId = sent.message.content.chainId := by
    rw [content, sameChain]
    rfl
  have isHeld : (world.inbox.find? fun other => other.chain.chainId = held.chain.chainId) =
      some held := KeyedRows.find?_key sound.chainIds_nodup member
  have found : (recordOf world.inbox).senderKeyStateForChainId sent.message.content.chainId =
      some held.state := by
    rw [senderKeyStateForChainId_recordOf, ← sameId, isHeld]
    rfl
  have loaded : loadSenderKey world.theirs sender sent.message.content.distributionId =
      some (recordOf world.inbox) := by
    rw [content]
    exact sound.loadSenderKey_of_mem member
  have version : sent.message.content.messageVersion = SENDERKEY_MESSAGE_CURRENT_VERSION := by
    rw [content]
    rfl
  have update := decryptUpdate_eq_ok.mpr ⟨version, _, loaded,
    decrypt_eq_ok.mpr ⟨held.state, _, found, opened, rfl⟩⟩
  exact congrArg Prod.fst (groupDecrypt_eq_ok.mpr ⟨_, update, rfl⟩)

omit [SenderKeyStore P Own] in
theorem ReceiverSound.refused (sound : ReceiverSound sender distributionId world)
    {message : SenderKeyMessage P} (own : message.content.distributionId = distributionId)
    (noKey : ∀ held ∈ world.inbox, held.chain.chainId = message.content.chainId →
      ∃ error, getSenderKey held.state message.content.iteration = .error error) :
    ∃ error, (groupDecrypt world.theirs sender message).1 = .error error := by
  apply groupDecrypt_fails
  intro ptext updated decrypted
  rcases decryptUpdate_eq_ok.mp decrypted with ⟨_, record, loaded, opened⟩
  rw [own] at loaded
  have isInbox := sound.eq_recordOf loaded
  subst isInbox
  rcases decrypt_eq_ok.mp opened with ⟨state, advanced, found, stateOpened, _⟩
  rw [senderKeyStateForChainId_recordOf] at found
  rcases Option.map_eq_some_iff.mp found with ⟨held, isHeld, rfl⟩
  have sameId : held.chain.chainId = message.content.chainId := by
    simpa using find?_some isHeld
  rcases SenderKeyState.decrypt_eq_ok.mp stateOpened with ⟨_, _, key, gotKey, _⟩
  rcases noKey held (mem_of_find?_eq_some isHeld) sameId with ⟨error, failed⟩
  cases failed.symm.trans gotKey

theorem senderKeyStateForChainId_addSenderKeyState {record : SenderKeyRecord P}
    {state : SenderKeyState P} {chainId iteration : UInt32} {messageVersion : ℕ}
    {chainKey : P.Secret} {signatureKey : P.PublicKey} {privateKey : Option P.PrivateKey}
    (found : record.senderKeyStateForChainId chainId = some state)
    (sameKey : state.signingKeyPublic = signatureKey) :
    (record.addSenderKeyState messageVersion chainId iteration chainKey signatureKey
      privateKey).senderKeyStateForChainId chainId = some state := by
  have existing : (record.states.find? fun other =>
      other.chainId = chainId && other.signingKeyPublic = signatureKey) = some state := by
    rw [senderKeyStateForChainId, find?_eq_some_iff_append] at found
    rw [find?_eq_some_iff_append]
    rcases found with ⟨sameId, before, after, split, others⟩
    refine ⟨by simpa [sameKey] using sameId, before, after, split, ?_⟩
    intro other member
    have different := others other member
    simp only [Bool.not_eq_true', decide_eq_false_iff_not] at different
    simp [different]
  have sameId : state.chainId = chainId := by
    simpa using find?_some found
  rw [addSenderKeyState, existing, senderKeyStateForChainId]
  simp [sameId]

omit [SenderKeyStore P Own] in
theorem ReceiverSound.further (sound : ReceiverSound sender distributionId world)
    {held : HeldChain P} (member : held ∈ world.inbox) {number : ℕ}
    (taken : number ∈ held.window.taken) {message : SenderKeyMessage P}
    (own : message.content.distributionId = distributionId)
    (sameId : message.content.chainId = held.chain.chainId)
    (iteration : message.content.iteration.toNat = held.base + number) :
    ∃ error, (groupDecrypt world.theirs sender message).1 = .error error := by
  apply sound.refused own
  intro other otherMember otherId
  have same := KeyedRows.eq_of_key_eq sound.chainIds_nodup otherMember member
    (otherId.trans sameId)
  subst same
  rcases sound.held other otherMember with ⟨heldSound, _⟩
  have passed := (heldSound.window.taken_passed number taken).1
  have last := heldSound.position_lt
  rw [HeldChain.position] at last
  have small : other.base + number < UInt32.size := by omega
  have sameIteration : UInt32.ofNat (other.base + number) = message.content.iteration := by
    rw [← iteration, UInt32.ofNat_toNat]
  rw [← sameIteration]
  exact HeldChain.getSenderKey_of_not_receive heldSound small
    (heldSound.window.receive_of_taken taken)

omit [SenderKeyStore P Own] in
theorem ReceiverSound.bounded (sound : ReceiverSound sender distributionId world)
    {record : SenderKeyRecord P}
    (loaded : loadSenderKey world.theirs sender distributionId = some record) :
    record.states.length ≤ consts.MAX_SENDER_KEY_STATES ∧
      (record.states.map SenderKeyState.chainId).Nodup := by
  have isInbox := sound.eq_recordOf loaded
  subst isInbox
  constructor
  · rw [recordOf, length_map]
    exact sound.length_le
  · rw [recordOf, map_map]
    exact sound.chainIds_nodup

/-- Whatever the order of calls and deliveries, the receiver decrypts what it can, once for each
time that it has learned a chain. -/
theorem reliable_of_allowed [LawfulSenderKeyStore P Own] [LawfulSenderKeyStore P Theirs]
    (lawful : P.Lawful) {own : Own} {theirs : Theirs}
    (noOwn : loadSenderKey own sender distributionId = none)
    (noTheirs : loadSenderKey theirs sender distributionId = none) {events : List (Event P Own)}
    (allowed : Meets (step sender distributionId) (Allowed sender distributionId)
      (initial own theirs) events)
    (reached : run (step sender distributionId) (initial own theirs) events =
      some world) : Reliable sender distributionId world := by
  rcases run_invariant_of_meets (sound_step lawful) (sound_initial noOwn noTheirs)
    allowed reached with ⟨senderSound, receiverSound⟩
  refine ⟨receiverSound.theirs, senderSound.sent_once, ?_, ?_, ?_, ?_, ?_, ?_⟩
  · intro sent isSent held member sameChain notBefore notTaken notForgotten near
    exact receiverSound.first lawful senderSound isSent member sameChain notBefore notTaken
      notForgotten near
  · intro held member number taken message own sameId iteration
    exact receiverSound.further member taken own sameId iteration
  · intro message own absent
    apply receiverSound.refused own
    intro held member sameId
    exact absurd (sameId ▸ mem_map_of_mem member) absent
  · intro address message error failed
    exact groupDecrypt_error failed
  · intro record loaded
    exact receiverSound.bounded loaded
  · intro skdm record state own loaded found sameKey
    refine ⟨record.addSenderKeyState skdm.messageVersion skdm.chainId skdm.iteration skdm.chainKey
      skdm.signingKey none, ?_, senderKeyStateForChainId_addSenderKeyState found sameKey⟩
    rw [processSenderKeyDistributionMessage, own, loaded]
    exact LawfulSenderKeyStore.loadSenderKey_storeSenderKey _ _ _ _

/-- Numbers for keys, and a signature that shows the key and the content. -/
def plain : GroupPrimitives where
  PrivateKey := ℕ
  PublicKey := ℕ
  Secret := ℕ
  Bytes := List ℕ
  Signature := ℕ × SenderKeyContent (List ℕ)
  Random := Unit
  publicKey := id
  hmacSha256 := fun key seed => 4 * key + seed.toNat
  hkdf := fun seed => ([seed], [seed])
  aesCbcEncrypt := fun ptext key _ => key ++ ptext
  aesCbcDecrypt := fun ctext key _ =>
    if ctext.take key.length = key then some (ctext.drop key.length) else none
  calculateSignature := fun key content _ => (key, content)
  verifySignature := fun key content signature => signature = (key, content)

theorem lawful_plain : plain.Lawful where
  verify_calculate := by
    intro (key : ℕ) (content : SenderKeyContent (List ℕ)) random
    change decide ((key, content) = (key, content)) = true
    simp
  decrypt_encrypt := by
    intro (ptext : List ℕ) (key : List ℕ) iv
    change (if (key ++ ptext).take key.length = key then
      some ((key ++ ptext).drop key.length) else none) = some ptext
    rw [take_left, drop_left, if_pos rfl]

instance : DecidableEq plain.PrivateKey := inferInstanceAs (DecidableEq ℕ)

instance : DecidableEq plain.Secret := inferInstanceAs (DecidableEq ℕ)

instance : DecidableEq plain.Bytes := inferInstanceAs (DecidableEq (List ℕ))

def draw (number : ℕ) : SenderKeyDraw plain := ⟨UInt32.ofNat (2 * number), number, number⟩

def alice : SignalProtocolAddress := ⟨"alice", 1⟩

def distribution (number : ℕ) : SenderKeyDistributionMessage plain :=
  (chainOfDraw (draw number)).distributionAt 0 0

def letter : SenderKeyMessage plain :=
  let content := (chainOfDraw (draw 1)).contentAt 0 0 [7]
  ⟨content, (1, content)⟩

abbrev Stores := World plain (InMemSenderKeyStore plain) (InMemSenderKeyStore plain)

def start : Stores := initial .new .new

/-- The sender makes a chain and encrypts; the receiver learns the chain. -/
def learnedOnce : List (Event plain (InMemSenderKeyStore plain)) :=
  [.create (draw 1), .encrypt [7] (), .process alice (distribution 1)]

/-- Then it decrypts the message, and the sender encrypts once more. -/
def decryptedOnce : List (Event plain (InMemSenderKeyStore plain)) :=
  learnedOnce ++ [.decrypt alice letter, .encrypt [8] ()]

theorem reliable_decryptedOnce :
    ∃ final : Stores, run (step alice 0) start decryptedOnce = some final ∧
      Reliable alice 0 final := by
  have allowed : Meets (step alice 0) (Allowed alice 0) start decryptedOnce := by
    decide +kernel
  have reached : ∃ final : Stores, run (step alice 0) start decryptedOnce = some final :=
    ⟨_, rfl⟩
  rcases reached with ⟨final, reached⟩
  exact ⟨final, reached, reliable_of_allowed lawful_plain rfl rfl allowed reached⟩

/-- The message is decrypted, and five other chains are learned before the first one again. -/
def learnedTwice : List (Event plain (InMemSenderKeyStore plain)) :=
  .decrypt alice letter ::
    ([2, 3, 4, 5, 6].flatMap fun number =>
      [.rotate .new, .create (draw number), .process alice (distribution number)]) ++
    [.process alice (distribution 1)]

theorem decrypted_twice :
    Meets (step alice 0) (Allowed alice 0) start (learnedOnce ++ learnedTwice) ∧
      ∃ first second : Stores, run (step alice 0) start learnedOnce = some first ∧
        (groupDecrypt first.theirs alice letter).1 = .ok [7] ∧
        run (step alice 0) first learnedTwice = some second ∧
        (groupDecrypt second.theirs alice letter).1 = .ok [7] := by
  constructor
  · decide +kernel
  · exact ⟨_, _, rfl, rfl, rfl, rfl⟩

end Group

end LegacySignal
