import LegacySignal.Protocol.Delivery

/-!
# The keys of skipped messages

A session follows few chains and stores few skipped keys in each, and every
key is handed out once. A chain is told from all others by the root key that
it was derived from: a root key is a number of steps away from the setup, and
no root key is two different numbers of steps away from it.

All of this holds until a chain has passed its last counter, for the index of
the chain is then zero again.
-/

namespace LegacySignal

open ReceiveWindow ChainKey Transition Function List

variable {P : Primitives}

/-- How many steps a root key is away from the setup. -/
inductive RootDepth : P.Secret → ℕ → Prop where
  | setup (secrets : List P.Secret) : RootDepth (P.hkdf none secrets .whisperText 0) 0
  | next {root : P.Secret} {depth : ℕ} (before : RootDepth root depth) (shared : List P.Secret) :
      RootDepth (P.hkdf (some root) shared .whisperRatchet 0) (depth + 1)

theorem RootDepth.unique (ideal : P.Ideal) {root : P.Secret} {depth other : ℕ}
    (one : RootDepth root depth) (two : RootDepth root other) : depth = other := by
  induction one generalizing other with
  | setup secrets =>
    generalize same : P.hkdf none secrets .whisperText 0 = root at two
    cases two with
    | setup _ => rfl
    | next before shared => cases (ideal.hkdf_injective same).1
  | next before shared ih =>
    rename_i below depth
    generalize same : P.hkdf (some below) shared .whisperRatchet 0 = root at two
    cases two with
    | setup _ => cases (ideal.hkdf_injective same).1
    | next otherBefore _ =>
      cases (ideal.hkdf_injective same).1
      rw [ih otherBefore]

/-- A receiving chain that was derived before the root key came to the given depth. -/
inductive ChainBefore : P.Secret → ℕ → Prop where
  | setup (secrets : List P.Secret) (depth : ℕ) :
      ChainBefore (P.hkdf none secrets .whisperText 1) depth
  | turn {root : P.Secret} {below depth : ℕ} (before : RootDepth root below)
      (lower : below < depth) (shared : List P.Secret) :
      ChainBefore (P.hkdf (some root) shared .whisperRatchet 1) depth

theorem ChainBefore.mono {secret : P.Secret} {depth later : ℕ} (before : ChainBefore secret depth)
    (reached : depth ≤ later) : ChainBefore secret later := by
  cases before with
  | setup secrets depth => exact .setup secrets later
  | turn root lower shared => exact .turn root (Nat.lt_of_lt_of_le lower reached) shared

theorem ChainBefore.ne (ideal : P.Ideal) {secret root : P.Secret} {depth : ℕ}
    (before : ChainBefore secret depth) (here : RootDepth root depth) (shared : List P.Secret) :
    secret ≠ P.hkdf (some root) shared .whisperRatchet 1 := by
  intro same
  cases before with
  | setup secrets depth => cases (ideal.hkdf_injective same).1
  | turn other lower otherShared =>
    cases (ideal.hkdf_injective same).1
    exact Nat.ne_of_lt lower (other.unique ideal here)

namespace SessionState

structure Bounded (state : SessionState P) : Prop where
  chains : state.receiverChains.length ≤ consts.MAX_RECEIVER_CHAINS
  distinct : (state.receiverChains.map ReceiverChain.senderRatchetKey).Nodup
  keys : ∀ chain ∈ state.receiverChains, chain.messageKeys.length ≤ consts.MAX_MESSAGE_KEYS
  descending : ∀ chain ∈ state.receiverChains,
    chain.messageKeys.Pairwise fun newer older => older.index < newer.index
  below : ∀ chain ∈ state.receiverChains, ∀ generator ∈ chain.messageKeys,
    generator.index < chain.chainKey.index

def messageKeyOf (state : SessionState P) (ciphertext : SignalMessage P)
    (messageType : CiphertextMessageType) (ourNewEphemeral : P.PrivateKey) :
    Except SignalProtocolError (MessageKeyGenerator P) := do
  let theirEphemeral := ciphertext.content.senderRatchetKey
  let (chainKey, chained) ← state.getOrCreateChainKey theirEphemeral ourNewEphemeral
  let (generator, _) ← chained.getOrCreateMessageKey theirEphemeral messageType chainKey
    ciphertext.content.counter
  .ok generator

theorem Decrypts.messageKeyOf_eq {state updated : SessionState P} {ciphertext : SignalMessage P}
    {messageType : CiphertextMessageType} {ourNewEphemeral : P.PrivateKey} {ptext : P.Bytes}
    (steps : state.Decrypts ciphertext messageType ourNewEphemeral ptext updated) :
    state.messageKeyOf ciphertext messageType ourNewEphemeral = .ok steps.generator := by
  apply Result.bind_eq_ok.mpr
  refine ⟨_, steps.chainKey_eq, ?_⟩
  apply Result.bind_eq_ok.mpr
  exact ⟨_, steps.generator_eq, rfl⟩

end SessionState

namespace SkippedKeys

/-- A key by the secret that its chain starts with and its position there. -/
def keyOf (place : P.Secret × ℕ) : MessageKeyGenerator P := (keyAt place.1 place.2).messageKeys

theorem keyOf_injective (ideal : P.Ideal) {one other : P.Secret × ℕ}
    (oneSmall : one.2 < UInt32.size) (otherSmall : other.2 < UInt32.size)
    (same : keyOf one = keyOf other) : one = other := by
  rcases one with ⟨start, number⟩
  rcases other with ⟨otherStart, otherNumber⟩
  injection same with seeds counters
  have numbers : number = otherNumber := SessionState.ofNat_inj oneSmall otherSmall counters
  subst numbers
  have starts : start = otherStart := keyAt_injective ideal (ideal.hmac_injective seeds).1
  rw [starts]

/-- A state whose chains are those of an inbox, with the places of the keys handed out so far. -/
structure Tidy (state : SessionState P) (handed : List (P.Secret × ℕ))
    (start : P.PublicKey → P.Secret) (inbox : Inbox P.PublicKey) (depth : ℕ) : Prop where
  chains : state.receiverChains = inbox.windows.map (chainOf start)
  nodup : inbox.streams.Nodup
  few : inbox.windows.length ≤ consts.MAX_RECEIVER_CHAINS
  sound : ∀ entry ∈ inbox.windows, entry.2.Sound consts.MAX_MESSAGE_KEYS
  descending : ∀ entry ∈ inbox.windows, entry.2.Descending
  small : ∀ entry ∈ inbox.windows, entry.2.next < UInt32.size
  root : RootDepth state.rootKey depth
  before : ∀ entry ∈ inbox.windows, ChainBefore (start entry.1) depth
  starts : ∀ one ∈ inbox.windows, ∀ other ∈ inbox.windows,
    start one.1 = start other.1 → one.1 = other.1
  handed_before : ∀ place ∈ handed, ChainBefore place.1 depth
  handed_small : ∀ place ∈ handed, place.2 < UInt32.size
  handed_taken : ∀ entry ∈ inbox.windows, ∀ place ∈ handed,
    place.1 = start entry.1 → place.2 ∈ entry.2.taken
  handed_nodup : handed.Nodup

namespace Tidy

variable {state : SessionState P} {handed : List (P.Secret × ℕ)} {start : P.PublicKey → P.Secret}
  {inbox : Inbox P.PublicKey} {depth : ℕ} {key : P.PublicKey} {chained : SessionState P}
  {ourNewEphemeral : P.PrivateKey}

theorem eq_following (tidy : Tidy state handed start inbox depth) :
    state = state.following start inbox := by
  unfold SessionState.following
  rw [← tidy.chains]

theorem congr {other : SessionState P} (tidy : Tidy state handed start inbox depth)
    (sameChains : other.receiverChains = state.receiverChains)
    (sameRoot : other.rootKey = state.rootKey) : Tidy other handed start inbox depth :=
  { tidy with chains := sameChains.trans tidy.chains, root := sameRoot ▸ tidy.root }

theorem bounded (tidy : Tidy state handed start inbox depth) : state.Bounded := by
  have entryOf : ∀ chain ∈ state.receiverChains, ∃ entry ∈ inbox.windows,
      chainOf start entry = chain := by
    intro chain member
    rw [tidy.chains] at member
    exact mem_map.mp member
  refine ⟨?_, ?_, ?_, ?_, ?_⟩
  · rw [tidy.chains, length_map]
    exact tidy.few
  · rw [tidy.chains, map_map]
    exact tidy.nodup
  · intro chain member
    rcases entryOf chain member with ⟨entry, present, rfl⟩
    rw [chainOf, length_map]
    exact (tidy.sound entry present).room
  · intro chain member
    rcases entryOf chain member with ⟨entry, present, rfl⟩
    have lower := (tidy.sound entry present).skipped_lt
    have small := tidy.small entry present
    refine pairwise_map.mpr ((tidy.descending entry present).imp_of_mem ?_)
    intro newer older newerMember olderMember order
    have newerSmall := lower newer newerMember
    have olderSmall := lower older olderMember
    exact (SessionState.ofNat_lt_ofNat (by omega) (by omega)).mpr order
  · intro chain member generator stored
    rcases entryOf chain member with ⟨entry, present, rfl⟩
    rcases mem_map.mp stored with ⟨number, skipped, rfl⟩
    have lower := (tidy.sound entry present).skipped_lt number skipped
    have small := tidy.small entry present
    exact (SessionState.ofNat_lt_ofNat (by omega) small).mpr lower

theorem follow (ideal : P.Ideal) (tidy : Tidy state handed start inbox depth)
    (missing : inbox.find key = none) (withSelf : Bool) {shared : List P.Secret} {later : ℕ}
    (chains : chained.receiverChains =
      (inbox.follow (receivingLimits withSelf) key).windows.map (chainOf
        (update start key (P.hkdf (some state.rootKey) shared .whisperRatchet 1))))
    (root : RootDepth chained.rootKey later) (lower : depth < later) :
    Tidy chained handed
      (update start key (P.hkdf (some state.rootKey) shared .whisperRatchet 1))
      (inbox.follow (receivingLimits withSelf) key) later := by
  have notFollowed := Inbox.find_eq_none.mp missing
  have isNew := fun secret (before : ChainBefore secret depth) => before.ne ideal tidy.root shared
  have old : ∀ entry ∈ inbox.windows, update start key
      (P.hkdf (some state.rootKey) shared .whisperRatchet 1) entry.1 = start entry.1 := by
    intro entry member
    apply update_of_ne
    intro same
    exact notFollowed (mem_map.mpr ⟨entry, member, same⟩)
  have new : update start key
      (P.hkdf (some state.rootKey) shared .whisperRatchet 1) key =
        P.hkdf (some state.rootKey) shared .whisperRatchet 1 := update_self _ _ _
  refine ⟨chains, Inbox.nodup_streams_follow tidy.nodup notFollowed, Inbox.length_follow tidy.few,
    ?_, ?_, ?_, root, ?_, ?_, ?_, tidy.handed_small, ?_, tidy.handed_nodup⟩
  · intro entry member
    rcases Inbox.mem_windows_follow member with older | rfl
    · exact tidy.sound entry older
    · exact Window.sound_new _
  · intro entry member
    rcases Inbox.mem_windows_follow member with older | rfl
    · exact tidy.descending entry older
    · exact Pairwise.nil
  · intro entry member
    rcases Inbox.mem_windows_follow member with older | rfl
    · exact tidy.small entry older
    · exact (by decide : 0 < UInt32.size)
  · intro entry member
    rcases Inbox.mem_windows_follow member with older | rfl
    · rw [old entry older]
      exact (tidy.before entry older).mono lower.le
    · rw [new]
      exact .turn tidy.root lower shared
  · intro one oneMember other otherMember same
    rcases Inbox.mem_windows_follow oneMember with oneOlder | rfl
    · rcases Inbox.mem_windows_follow otherMember with otherOlder | rfl
      · rw [old one oneOlder, old other otherOlder] at same
        exact tidy.starts one oneOlder other otherOlder same
      · rw [old one oneOlder, new] at same
        exact absurd same (isNew _ (tidy.before one oneOlder))
    · rcases Inbox.mem_windows_follow otherMember with otherOlder | rfl
      · rw [old other otherOlder, new] at same
        exact absurd same.symm (isNew _ (tidy.before other otherOlder))
      · rfl
  · intro place member
    exact (tidy.handed_before place member).mono lower.le
  · intro entry member place isHanded same
    rcases Inbox.mem_windows_follow member with older | rfl
    · rw [old entry older] at same
      exact tidy.handed_taken entry older place isHanded same
    · rw [new] at same
      exact absurd same (isNew _ (tidy.handed_before place isHanded))

theorem chain (ideal : P.Ideal) (tidy : Tidy state handed start inbox depth) {chainKey : ChainKey P}
    (looked : state.getOrCreateChainKey key ourNewEphemeral = .ok (chainKey, chained)) :
    ∃ start inbox depth window, Tidy chained handed start inbox depth ∧
      inbox.find key = some window ∧ chainKey = keyAt (start key) window.next := by
  cases found : inbox.find key with
  | some window =>
    have followed := @SessionState.getOrCreateChainKey_following_some P state start inbox key
      window tidy.nodup found ourNewEphemeral
    rw [← tidy.eq_following] at followed
    cases looked.symm.trans followed
    exact ⟨start, inbox, depth, window, tidy, found, rfl⟩
  | none =>
    have notFollowed := Inbox.find_eq_none.mp found
    have absent : state.getReceiverChainKey key = none := by
      rw [tidy.eq_following, SessionState.getReceiverChainKey,
        SessionState.getReceiverChain_following_none found]
      rfl
    cases sender : state.senderChain with
    | none =>
      simp only [SessionState.getOrCreateChainKey, absent, SessionState.requireSenderChain,
        sender] at looked
      cases looked
    | some senderChain =>
      let shared := [P.calculateAgreement senderChain.ratchetKey.privateKey key]
      let derived := P.hkdf (some state.rootKey) shared .whisperRatchet 1
      let starts := update start key derived
      have startsEq : starts key = derived := update_self _ _ _
      have sameChains : state.following start inbox = state.following starts inbox :=
        (SessionState.following_update state start notFollowed derived).symm
      have derivedEq : (createChain state.rootKey key senderChain.ratchetKey.privateKey).2 =
          ⟨starts key, 0⟩ := by
        rw [startsEq]
        rfl
      have followed := SessionState.getOrCreateChainKey_following_none found sender derivedEq
        false ourNewEphemeral
      rw [← sameChains, ← tidy.eq_following] at followed
      cases looked.symm.trans followed
      refine ⟨starts, inbox.follow (receivingLimits false) key, depth + 1 + 1, Window.new, ?_,
        Inbox.find_follow (by decide) notFollowed, rfl⟩
      refine tidy.follow ideal found false rfl ?_ (by omega)
      exact RootDepth.next (RootDepth.next tidy.root _) _

theorem take (tidy : Tidy state handed start inbox depth) {window received : Window} {number : ℕ}
    {maxJump : Option ℕ} {keyed : SessionState P} (found : inbox.find key = some window)
    (taken : window.receive consts.MAX_MESSAGE_KEYS maxJump number = some received)
    (numberSmall : number + 1 < UInt32.size)
    (keyedEq : keyed = state.following start (inbox.replace key received)) :
    Tidy keyed ((start key, number) :: handed) start (inbox.replace key received) depth := by
  have member := Inbox.mem_of_find found
  have windowSound := tidy.sound _ member
  have entryOf : ∀ entry ∈ (inbox.replace key received).windows,
      entry = (key, received) ∨ entry ∈ inbox.windows ∧ entry.1 ≠ key := by
    intro entry replaced
    rcases mem_map.mp replaced with ⟨before, present, rfl⟩
    by_cases same : before.1 = key
    · exact Or.inl (if_pos same)
    · rw [if_neg same]
      exact Or.inr ⟨present, same⟩
  have unspent : (start key, number) ∉ handed := by
    intro spent
    have before := tidy.handed_taken _ member _ spent rfl
    rw [windowSound.receive_of_taken before] at taken
    cases taken
  have receivedTaken := Window.taken_receive taken
  subst keyedEq
  refine ⟨rfl, ?_, ?_, ?_, ?_, ?_, tidy.root, ?_, ?_, ?_, ?_, ?_, ?_⟩
  · rw [Inbox.streams_replace]
    exact tidy.nodup
  · rw [Inbox.replace, length_map]
    exact tidy.few
  · intro entry replaced
    rcases entryOf entry replaced with rfl | ⟨present, _⟩
    · exact windowSound.receive taken
    · exact tidy.sound entry present
  · intro entry replaced
    rcases entryOf entry replaced with rfl | ⟨present, _⟩
    · exact (tidy.descending _ member).receive windowSound taken
    · exact tidy.descending entry present
  · intro entry replaced
    rcases entryOf entry replaced with rfl | ⟨present, _⟩
    · exact Endpoint.next_lt_size taken (tidy.small _ member) numberSmall
    · exact tidy.small entry present
  · intro entry replaced
    rcases entryOf entry replaced with rfl | ⟨present, _⟩
    · exact tidy.before (key, window) member
    · exact tidy.before entry present
  · intro one oneReplaced other otherReplaced same
    rcases entryOf one oneReplaced with rfl | ⟨onePresent, _⟩
    · rcases entryOf other otherReplaced with rfl | ⟨otherPresent, _⟩
      · rfl
      · exact tidy.starts (key, window) member other otherPresent same
    · rcases entryOf other otherReplaced with rfl | ⟨otherPresent, _⟩
      · exact tidy.starts one onePresent (key, window) member same
      · exact tidy.starts one onePresent other otherPresent same
  · intro place isHanded
    rcases mem_cons.mp isHanded with rfl | earlier
    · exact tidy.before _ member
    · exact tidy.handed_before place earlier
  · intro place isHanded
    rcases mem_cons.mp isHanded with rfl | earlier
    · exact Nat.lt_of_succ_lt numberSmall
    · exact tidy.handed_small place earlier
  · intro entry replaced place isHanded same
    rcases entryOf entry replaced with rfl | ⟨present, different⟩
    · rw [receivedTaken]
      rcases mem_cons.mp isHanded with rfl | earlier
      · exact mem_cons_self
      · exact mem_cons_of_mem _ (tidy.handed_taken _ member place earlier same)
    · rcases mem_cons.mp isHanded with rfl | earlier
      · exact absurd (tidy.starts entry present _ member same.symm) different
      · exact tidy.handed_taken entry present place earlier same
  · exact nodup_cons.mpr ⟨unspent, tidy.handed_nodup⟩

theorem decrypt (ideal : P.Ideal) (tidy : Tidy state handed start inbox depth)
    {updated : SessionState P} {ciphertext : SignalMessage P} {messageType : CiphertextMessageType}
    {ptext : P.Bytes} (steps : state.Decrypts ciphertext messageType ourNewEphemeral ptext updated)
    (notLast : ciphertext.content.counter ≠ 0xFFFFFFFF) :
    ∃ place start inbox depth, steps.generator = keyOf place ∧
      Tidy updated (place :: handed) start inbox depth := by
  let number := ciphertext.content.counter.toNat
  have small : number + 1 < UInt32.size := by
    have bound := ciphertext.content.counter.toNat_lt
    have different : number ≠ 2 ^ 32 - 1 := by
      intro same
      apply notLast
      apply UInt32.toNat_inj.mp
      exact same
    have size : UInt32.size = 2 ^ 32 := rfl
    omega
  rcases tidy.chain ideal steps.chainKey_eq with
    ⟨starts, box, later, window, chained, found, chainKeyEq⟩
  have member := Inbox.mem_of_find found
  have looked := steps.chainKey_eq
  rw [chainKeyEq, chained.eq_following] at looked
  rcases @SessionState.Decrypts.generator_of_chain P state starts box
    ciphertext.content.senderRatchetKey window messageType number steps.chained updated ciphertext
    ourNewEphemeral ptext steps rfl (UInt32.ofNat_toNat).symm _ rfl looked chained.nodup found
    (chained.sound _ member) (chained.small _ member) (Nat.lt_of_succ_lt small) with
    ⟨received, taken, generator, keyed⟩
  have next := chained.take found taken small keyed
  have chains := congrArg SessionState.receiverChains steps.updated_eq
  have root := congrArg SessionState.rootKey steps.updated_eq
  exact ⟨(starts ciphertext.content.senderRatchetKey, number), starts, _, later, generator,
    next.congr chains root⟩

end Tidy

/-- A session state with the message keys that decryptions have used so far, the newest first. -/
structure World (P : Primitives) where
  state : SessionState P
  handed : List (MessageKeyGenerator P)

inductive Event (P : Primitives) where
  | encrypt (address : SignalProtocolAddress) (ptext : P.Bytes) (now : ℕ) (random : P.Random)
  | decrypt (ciphertext : SignalMessage P) (messageType : CiphertextMessageType)
      (ourNewEphemeral : P.PrivateKey)

/-- Only successful encryptions and decryptions change a session. -/
def step (world : World P) : Event P → Option (World P)
  | .encrypt address ptext now random =>
    match world.state.encryptMessage address ptext now random with
    | .ok (_, sent, _) => some { world with state := sent }
    | .error _ => none
  | .decrypt ciphertext messageType ourNewEphemeral =>
    match world.state.decryptMessage ciphertext messageType ourNewEphemeral,
        world.state.messageKeyOf ciphertext messageType ourNewEphemeral with
    | .ok (_, updated), .ok generator => some ⟨updated, generator :: world.handed⟩
    | _, _ => none

/-- The state of a session that was just set up, on either side. -/
inductive Started : SessionState P → Prop where
  | alice {parameters : AliceSignalProtocolParameters P} {random : P.Random}
      {ratchetKey : P.PrivateKey} {session : SessionState P}
      (makes : initializeAliceSession parameters random ratchetKey = .ok session)
      (bundle : PreKeyBundle P) (baseKey : P.PublicKey) (now : ℕ) (localRegistrationId : UInt32) :
      Started (session.setUnacknowledged bundle baseKey now localRegistrationId)
  | bob {parameters : BobSignalProtocolParameters P} {session : SessionState P}
      (makes : initializeBobSession parameters = .ok session)
      (localRegistrationId remoteRegistrationId : UInt32) :
      Started { session with
        localRegistrationId := localRegistrationId
        remoteRegistrationId := remoteRegistrationId }

def BelowLast (_ : World P) : Event P → Prop
  | .encrypt _ _ _ _ => True
  | .decrypt ciphertext _ _ => ciphertext.content.counter ≠ 0xFFFFFFFF

/-- The keys handed out are those of different places, and the chains are tidy. -/
def Sound (world : World P) : Prop :=
  ∃ handed start inbox depth, world.handed = handed.map keyOf ∧
    Tidy world.state handed start inbox depth

theorem sound_started {state : SessionState P} (started : Started state) :
    Sound (⟨state, []⟩ : World P) := by
  cases started with
  | alice makes bundle baseKey now localRegistrationId =>
    rename_i parameters random ratchetKey session
    rcases initializeAliceSession_eq_ok.mp makes with ⟨sharedSecret, _, _, _, _, rfl⟩
    let secret := P.hkdf none (parameters.secrets sharedSecret) .whisperText 1
    have room : 1 ≤ consts.MAX_RECEIVER_CHAINS := by decide
    refine ⟨[], fun _ => secret, ⟨[(parameters.theirRatchetKey, Window.new)], []⟩, 1, rfl, rfl,
      nodup_singleton _, room, ?_, ?_, ?_, ?_, ?_, ?_, ?_, ?_, ?_, nodup_nil⟩
    · intro entry member
      rw [mem_singleton.mp member]
      exact Window.sound_new _
    · intro entry member
      rw [mem_singleton.mp member]
      exact Pairwise.nil
    · intro entry member
      rw [mem_singleton.mp member]
      exact (by decide : 0 < UInt32.size)
    · exact RootDepth.next (RootDepth.setup _) _
    · intro entry member
      exact .setup _ _
    · intro one oneMember other otherMember _
      rw [mem_singleton.mp oneMember, mem_singleton.mp otherMember]
    · intro place member
      cases member
    · intro place member
      cases member
    · intro entry _ place member
      cases member
  | bob makes localRegistrationId remoteRegistrationId =>
    rename_i parameters session
    rcases initializeBobSession_eq_ok.mp makes with ⟨_, sharedSecret, _, _, _, rfl⟩
    refine ⟨[], fun _ => P.discontinuity, ⟨[], []⟩, 0, rfl, rfl, nodup_nil, Nat.zero_le _,
      ?_, ?_, ?_, RootDepth.setup _, ?_, ?_, ?_, ?_, ?_, nodup_nil⟩ <;>
    intro entry member <;> cases member

theorem sound_step (ideal : P.Ideal) (world : World P) (event : Event P) (next : World P)
    (sound : Sound world) (belowLast : BelowLast world event)
    (stepped : step world event = some next) : Sound next := by
  rcases sound with ⟨handed, start, inbox, depth, handedEq, tidy⟩
  cases event with
  | encrypt address ptext now random =>
    simp only [step] at stepped
    split at stepped
    · rename_i message sent identity encrypts
      cases stepped
      rcases SessionState.encryptMessage_frame encrypts with ⟨pqState, chain, rfl⟩
      exact ⟨handed, start, inbox, depth, handedEq, tidy.congr rfl rfl⟩
    · cases stepped
  | decrypt ciphertext messageType ourNewEphemeral =>
    simp only [step] at stepped
    split at stepped
    · rename_i ptext updated generator decrypts uses
      cases stepped
      rcases SessionState.decrypts_of_eq_ok decrypts with ⟨steps⟩
      cases uses.symm.trans steps.messageKeyOf_eq
      rcases tidy.decrypt ideal steps belowLast with
        ⟨place, starts, box, later, generatorEq, nextTidy⟩
      refine ⟨place :: handed, starts, box, later, ?_, nextTidy⟩
      rw [map_cons, generatorEq, handedEq]
    · cases stepped

theorem Sound.nodup (ideal : P.Ideal) {world : World P} (sound : Sound world) :
    world.handed.Nodup := by
  rcases sound with ⟨handed, start, inbox, depth, handedEq, tidy⟩
  rw [handedEq]
  apply Nodup.map_on _ tidy.handed_nodup
  intro one oneMember other otherMember same
  exact keyOf_injective ideal (tidy.handed_small one oneMember)
    (tidy.handed_small other otherMember) same

/-- The chains and the skipped keys of a session stay within their bounds, and no message key is
handed out twice, as long as no message with the last counter is decrypted. -/
theorem bounded_and_single_use (ideal : P.Ideal) {state : SessionState P}
    (started : Started state) {events : List (Event P)} {final : World P}
    (belowLast : Meets step BelowLast ⟨state, []⟩ events)
    (reached : run step ⟨state, []⟩ events = some final) :
    final.state.Bounded ∧ final.handed.Nodup := by
  have sound : Sound final :=
    run_invariant_of_meets (sound_step ideal) (sound_started started) belowLast reached
  refine ⟨?_, sound.nodup ideal⟩
  rcases sound with ⟨handed, start, inbox, depth, _, tidy⟩
  exact tidy.bounded

open Symbolic Delivery

theorem step_decrypt {state updated : SessionState P} {ciphertext : SignalMessage P}
    {messageType : CiphertextMessageType} {ourNewEphemeral : P.PrivateKey} {ptext : P.Bytes}
    (decrypts : state.decryptMessage ciphertext messageType ourNewEphemeral = .ok (ptext, updated))
    (handed : List (MessageKeyGenerator P)) :
    ∃ generator, step ⟨state, handed⟩ (.decrypt ciphertext messageType ourNewEphemeral) =
      some ⟨updated, generator :: handed⟩ := by
  rcases SessionState.decrypts_of_eq_ok decrypts with ⟨steps⟩
  refine ⟨steps.generator, ?_⟩
  simp only [step, decrypts, steps.messageKeyOf_eq]

/-- Bob's decryption of the letter with the given number. -/
def openLetter (number : ℕ) : Event symbolic :=
  .decrypt (innerAt number (.plain 0)) .preKey (20 : ℕ)

theorem started_bobSession : Started bobSession := .bob initializeBobSession_eq 0 0

/-- Bob decrypts the second letter and then the first. -/
theorem bounded_and_single_use_reordered :
    ∃ final : World symbolic,
      run step ⟨bobSession, []⟩ [openLetter 1, openLetter 0] = some final ∧
      final.state.Bounded ∧ final.handed.Nodup := by
  rcases step_decrypt (@decryptMessage_bobSession (20 : ℕ) 1 ⟨2, [0], [], [1]⟩ (.plain 0)
    (by decide) rfl .preKey) [] with ⟨second, stepOne⟩
  have sound : (⟨2, [0], [], [1]⟩ : Window).Sound consts.MAX_MESSAGE_KEYS :=
    (Window.sound_new consts.MAX_MESSAGE_KEYS).skip.takeNext
  rcases step_decrypt (@decryptMessage_bobAt (20 : ℕ) ⟨2, [0], [], [1]⟩ ⟨2, [], [], [0, 1]⟩ 0
    (.plain 0) sound (by decide) (by decide) rfl .preKey (20 : ℕ)) [second] with ⟨first, stepTwo⟩
  have reached := run_cons stepOne
    (run_cons stepTwo (run_nil _))
  refine ⟨_, reached, bounded_and_single_use ideal started_bobSession ?_ reached⟩
  exact meets_cons (by decide : (1 : UInt32) ≠ 0xFFFFFFFF) stepOne
    (meets_cons (by decide : (0 : UInt32) ≠ 0xFFFFFFFF) stepTwo True.intro)

theorem inOrder_letters {count : ℕ} (started : 1 ≤ count) (small : count < UInt32.size) :
    ∃ events window handed,
      run step ⟨bobSession, []⟩ events = some ⟨bobAt 20 window, handed⟩ ∧
      window.Sound consts.MAX_MESSAGE_KEYS ∧ window.next = count ∧ window.skipped = [] := by
  induction count, started using Nat.le_induction with
  | base =>
    rcases step_decrypt (@decryptMessage_bobSession (20 : ℕ) 0 Window.new.takeNext (.plain 0)
      (by decide) rfl .preKey) [] with ⟨first, stepped⟩
    exact ⟨[openLetter 0], _, _, run_cons stepped (run_nil _),
      (Window.sound_new _).takeNext, rfl, rfl⟩
  | succ count started ih =>
    rcases ih (Nat.lt_of_succ_lt small) with ⟨events, window, handed, reached, sound, rfl, empty⟩
    have here := Nat.lt_of_succ_lt small
    have taken := Window.receive_at_next consts.MAX_MESSAGE_KEYS
      (some consts.MAX_FORWARD_JUMPS) window
    rcases step_decrypt (@decryptMessage_bobAt (20 : ℕ) window window.takeNext window.next
      (.plain 0) sound here here taken .preKey (20 : ℕ)) handed with ⟨generator, stepped⟩
    exact ⟨events ++ [openLetter window.next], _, _, run_append reached
      (run_cons stepped (run_nil _)), sound.takeNext, rfl, empty⟩

/-- The last letter of a chain arrives before the last but one: the index of the chain is zero
then, and the key that was skipped is not below it. -/
theorem skipped_key_above_wrapped_index :
    Started bobSession ∧ ∃ events, ∃ final : World symbolic,
      run step ⟨bobSession, []⟩ events = some final ∧ ¬final.state.Bounded := by
  refine ⟨started_bobSession, ?_⟩
  have ⟨count, wraps⟩ : ∃ count, count + 2 = UInt32.size := ⟨4294967294, rfl⟩
  have started : 1 ≤ count := by
    change count + 2 = 4294967296 at wraps
    omega
  rcases inOrder_letters started (by omega) with
    ⟨events, window, handed, reached, sound, rfl, empty⟩
  let received := (window.skip consts.MAX_MESSAGE_KEYS).takeNext
  have taken : window.receive consts.MAX_MESSAGE_KEYS (some consts.MAX_FORWARD_JUMPS)
      (window.next + 1) = some received := by
    simp [Window.receive, Window.skipMany, received, consts.MAX_FORWARD_JUMPS]
  rcases step_decrypt (@decryptMessage_bobAt (20 : ℕ) window received (window.next + 1)
    (.plain 0) sound (by omega) (by omega) taken .preKey (20 : ℕ)) handed with
    ⟨generator, stepped⟩
  refine ⟨events ++ [openLetter (window.next + 1)], _, run_append reached
    (run_cons stepped (run_nil _)), ?_⟩
  intro bounded
  have kept : received.skipped = [window.next] := by
    simp [received, Window.skip, Window.takeNext, empty, consts.MAX_MESSAGE_KEYS]
  have stored : (keyAt chainSecret window.next : ChainKey symbolic).messageKeys ∈
      (chainOf (fun _ => chainSecret) (((11 : ℕ) : symbolic.PublicKey), received)).messageKeys := by
    simp [chainOf, kept]
  have below := bounded.below _ (mem_singleton.mpr rfl) _ stored
  have index : (keyAt chainSecret received.next : ChainKey symbolic).index = 0 := by
    change UInt32.ofNat (window.next + 1 + 1) = 0
    rw [Nat.add_assoc, wraps]
    rfl
  change _ < (keyAt chainSecret received.next : ChainKey symbolic).index at below
  rw [index] at below
  exact UInt32.not_lt_zero below

end SkippedKeys

end LegacySignal
