import LegacySignal.Library.ReceiveWindow
import LegacySignal.Protocol.CipherSpec

/-!
# A session receives as an inbox does

The receiver chains of a session state are an inbox: a chain is the stream of
its ratchet key, its index is the next number, and its stored message keys are
those of the skipped numbers. The functions of the cipher that look up and
change chains compute what the inbox computes, as long as no index wraps.
-/

namespace LegacySignal

open ReceiveWindow List

variable {P : Primitives}

namespace ChainKey

/-- The chain key at a position of the chain that starts with a secret. -/
def keyAt (start : P.Secret) (position : ℕ) : ChainKey P :=
  ⟨(fun key => P.hmacSha256 key CHAIN_KEY_SEED)^[position] start, UInt32.ofNat position⟩

@[simp]
theorem nextChainKey_keyAt (start : P.Secret) (position : ℕ) :
    (keyAt start position).nextChainKey = keyAt start (position + 1) := by
  simp only [keyAt, nextChainKey, Function.iterate_succ_apply', UInt32.ofNat_add]
  rfl

end ChainKey

open ChainKey

/-- What a session keeps; with oneself there is no bound on how far ahead a message is. -/
def receivingLimits (withSelf : Bool) : Limits where
  streams := consts.MAX_RECEIVER_CHAINS
  capacity := consts.MAX_MESSAGE_KEYS
  maxJump := if withSelf then none else some consts.MAX_FORWARD_JUMPS

/-- The receiver chain of a followed ratchet key. -/
def chainOf (start : P.PublicKey → P.Secret) (entry : P.PublicKey × Window) : ReceiverChain P where
  senderRatchetKey := entry.1
  chainKey := keyAt (start entry.1) entry.2.next
  messageKeys := entry.2.skipped.map fun number => (keyAt (start entry.1) number).messageKeys

namespace SessionState

/-- The state with the chains that an inbox describes. -/
def following (state : SessionState P) (start : P.PublicKey → P.Secret)
    (inbox : Inbox P.PublicKey) : SessionState P :=
  { state with receiverChains := inbox.windows.map (chainOf start) }

variable {state : SessionState P} {start : P.PublicKey → P.Secret} {inbox : Inbox P.PublicKey}
  {key : P.PublicKey} {window : Window} {messageType : CiphertextMessageType} {number : ℕ}

/-- The chain of a ratchet key is found at the position of its window. -/
theorem find_zipIdx_chains {windows : List (P.PublicKey × Window)}
    (nodup : (windows.map Prod.fst).Nodup) (member : (key, window) ∈ windows) (offset : ℕ) :
    ∃ position,
      ((windows.map (chainOf start)).zipIdx offset).find?
          (fun entry => entry.1.senderRatchetKey = key) =
        some (chainOf start (key, window), offset + position) ∧
      ∀ chain, (windows.map (chainOf start)).set position chain =
        windows.map fun entry => if entry.1 = key then chain else chainOf start entry := by
  induction windows generalizing offset with
  | nil => cases member
  | cons entry rest ih =>
    rw [map_cons, nodup_cons] at nodup
    rcases mem_cons.mp member with rfl | later
    · refine ⟨0, by simp [chainOf], ?_⟩
      intro chain
      simp only [map_cons, set_cons_zero, if_true, cons.injEq, true_and]
      apply map_congr_left
      intro other present
      rw [if_neg]
      intro same
      exact nodup.1 (mem_map.mpr ⟨other, present, same⟩)
    · have different : entry.1 ≠ key := by
        intro same
        exact nodup.1 (mem_map.mpr ⟨_, later, same.symm⟩)
      rcases ih nodup.2 later (offset + 1) with ⟨position, found, updated⟩
      refine ⟨position + 1, ?_, ?_⟩
      · rw [map_cons, zipIdx_cons, find?_cons_of_neg (by simp [chainOf, different])]
        rw [found, Nat.add_assoc, Nat.add_comm 1]
      · intro chain
        simp only [map_cons, set_cons_succ, if_neg different, updated chain]

theorem getReceiverChain_following_none (missing : inbox.find key = none) :
    (state.following start inbox).getReceiverChain key = none := by
  have absent := Inbox.find_eq_none.mp missing
  simp only [getReceiverChain, following, find?_eq_none, decide_eq_true_eq]
  intro entry member same
  rcases mem_map.mp (fst_mem_of_mem_zipIdx member) with
    ⟨followed, present, chain⟩
  rw [← chain] at same
  exact absent (mem_map.mpr ⟨followed, present, same⟩)

/-- A followed ratchet key has its chain, and a new chain there is a new window. -/
theorem getReceiverChain_following (nodup : inbox.streams.Nodup)
    (found : inbox.find key = some window) :
    ∃ position,
      (state.following start inbox).getReceiverChain key =
        some (chainOf start (key, window), position) ∧
      ∀ next, (inbox.windows.map (chainOf start)).set position (chainOf start (key, next)) =
        (inbox.replace key next).windows.map (chainOf start) := by
  rcases @find_zipIdx_chains P start key window inbox.windows nodup (Inbox.mem_of_find found) 0 with
    ⟨position, located, updated⟩
  refine ⟨position, ?_, ?_⟩
  · simpa only [getReceiverChain, following, Nat.zero_add] using located
  · intro next
    rw [updated, Inbox.replace, map_map]
    apply map_congr_left
    intro entry _
    by_cases same : entry.1 = key <;> simp [same]

/-- A chain is updated as its window is replaced. -/
theorem updateReceiverChain_following (nodup : inbox.streams.Nodup)
    (found : inbox.find key = some window) {caller : String} {next : Window}
    {update : ReceiverChain P → ReceiverChain P}
    (updates : update (chainOf start (key, window)) = chainOf start (key, next)) :
    (state.following start inbox).updateReceiverChain caller key update =
      .ok (state.following start (inbox.replace key next)) := by
  rcases @getReceiverChain_following P state start inbox key window nodup found with
    ⟨position, located, updated⟩
  simp only [updateReceiverChain, located, updates]
  exact congrArg (fun chains => Except.ok { state with receiverChains := chains }) (updated next)

/-- A new chain drops the oldest one, as a new stream does. -/
theorem addReceiverChain_following (withSelf : Bool) :
    (state.following start inbox).addReceiverChain key ⟨start key, 0⟩ =
      state.following start (inbox.follow (receivingLimits withSelf) key) := by
  have added : inbox.windows.map (chainOf start) ++ [⟨key, ⟨start key, 0⟩, []⟩] =
      (inbox.windows ++ [(key, Window.new)]).map (chainOf start) := by
    rw [map_append]
    rfl
  have followed : (inbox.follow (receivingLimits withSelf) key).windows =
      if consts.MAX_RECEIVER_CHAINS < (inbox.windows ++ [(key, Window.new)]).length then
        (inbox.windows ++ [(key, Window.new)]).tail
      else inbox.windows ++ [(key, Window.new)] := Inbox.windows_follow _ _ _
  simp only [addReceiverChain, following, added, followed, length_map]
  split
  · rw [map_tail]
  · rfl

theorem take_of_length_le_succ {Entry : Type} {entries : List Entry} {capacity : ℕ}
    (bound : entries.length ≤ capacity + 1) :
    (if capacity < entries.length then entries.dropLast else entries) = entries.take capacity := by
  split
  · rename_i full
    have exactly : entries.length - 1 = capacity := by omega
    rw [dropLast_eq_take, exactly]
  · rename_i fits
    rw [take_of_length_le (Nat.le_of_not_lt fits)]

/-- A message key is stored as a number is skipped, and the oldest makes room for it. -/
theorem setMessageKeys_following (nodup : inbox.streams.Nodup)
    (found : inbox.find key = some window)
    (room : window.skipped.length ≤ consts.MAX_MESSAGE_KEYS) {number : ℕ} {next : Window}
    (sameNext : next.next = window.next)
    (kept : next.skipped = (number :: window.skipped).take consts.MAX_MESSAGE_KEYS) :
    (state.following start inbox).setMessageKeys key (keyAt (start key) number).messageKeys =
      .ok (state.following start (inbox.replace key next)) := by
  apply updateReceiverChain_following nodup found
  let keyOf := fun number => (keyAt (start key) number).messageKeys
  have bound : ((number :: window.skipped).map keyOf).length ≤ consts.MAX_MESSAGE_KEYS + 1 := by
    rw [length_map, length_cons]
    omega
  have bounded := take_of_length_le_succ bound
  rw [← map_take, ← kept] at bounded
  rw [chainOf, chainOf, sameNext]
  exact congrArg (ReceiverChain.mk key (keyAt (start key) window.next)) bounded

theorem setReceiverChainKey_following (nodup : inbox.streams.Nodup)
    (found : inbox.find key = some window) {next : Window}
    (sameSkipped : next.skipped = window.skipped) :
    (state.following start inbox).setReceiverChainKey key (keyAt (start key) next.next) =
      .ok (state.following start (inbox.replace key next)) := by
  apply updateReceiverChain_following nodup found
  simp only [chainOf, sameSkipped]

/-- The keys up to a later message are stored as its window skips their numbers. -/
theorem skipMessageKeys_following {passing : Window} {waiting count : ℕ}
    (nodup : inbox.streams.Nodup) (found : inbox.find key = some { passing with next := waiting })
    (room : passing.skipped.length ≤ consts.MAX_MESSAGE_KEYS) :
    skipMessageKeys key count (state.following start inbox) (keyAt (start key) passing.next) =
      .ok (state.following start (inbox.replace key
          { passing.skipMany consts.MAX_MESSAGE_KEYS count with next := waiting }),
        keyAt (start key) (passing.next + count)) := by
  induction count generalizing inbox passing with
  | zero =>
    simp only [skipMessageKeys, Window.skipMany, Inbox.replace_find nodup found, Nat.add_zero]
  | succ count ih =>
    let skipped := passing.skip consts.MAX_MESSAGE_KEYS
    have stored : (state.following start inbox).setMessageKeys key
        (keyAt (start key) passing.next).messageKeys =
          .ok (state.following start (inbox.replace key { skipped with next := waiting })) :=
      setMessageKeys_following nodup found room rfl rfl
    have rest := @ih (inbox.replace key { skipped with next := waiting }) skipped
      (by rw [Inbox.streams_replace]; exact nodup) (Inbox.find_replace found _)
      (length_take_le _ _)
    rw [Inbox.replace_replace] at rest
    simp only [skipMessageKeys, stored, nextChainKey_keyAt]
    have reached : passing.next + (count + 1) = skipped.next + count := by
      change _ = passing.next + 1 + count
      omega
    rw [reached]
    exact rest

theorem ofNat_inj {left right : ℕ} (leftSmall : left < UInt32.size)
    (rightSmall : right < UInt32.size) (same : UInt32.ofNat left = UInt32.ofNat right) :
    left = right := by
  have values := congrArg UInt32.toNat same
  simpa [UInt32.toNat_ofNat_of_lt' leftSmall, UInt32.toNat_ofNat_of_lt' rightSmall] using values

/-- A stored message key is taken out, once, as a skipped number is. -/
theorem getMessageKeys_following {number : ℕ} (nodup : inbox.streams.Nodup)
    (found : inbox.find key = some window)
    (small : ∀ passed ∈ window.skipped, passed < UInt32.size) (numberSmall : number < UInt32.size) :
    (state.following start inbox).getMessageKeys key (UInt32.ofNat number) =
      if number ∈ window.skipped then
        some ((keyAt (start key) number).messageKeys,
          state.following start (inbox.replace key (window.takeSkipped number)))
      else none := by
  rcases @getReceiverChain_following P state start inbox key window nodup found with
    ⟨position, located, updated⟩
  have isIndex : ∀ passed ∈ window.skipped,
      (keyAt (start key) passed).messageKeys.index = UInt32.ofNat number ↔ passed = number :=
    fun passed member => ⟨ofNat_inj (small passed member) numberSmall, congrArg UInt32.ofNat⟩
  simp only [getMessageKeys, located]
  simp only [chainOf, find_map_key isIndex, eraseP_map_key isIndex]
  by_cases stored : number ∈ window.skipped
  · simp only [stored, if_true]
    exact congrArg (fun chains => some ((keyAt (start key) number).messageKeys,
      { state with receiverChains := chains })) (updated (window.takeSkipped number))
  · simp only [stored, if_false]

section Numbers

variable {next : ℕ}

theorem ofNat_lt_ofNat (numberSmall : number < UInt32.size) (nextSmall : next < UInt32.size) :
    UInt32.ofNat number < UInt32.ofNat next ↔ number < next := by
  rw [UInt32.lt_iff_toNat_lt, UInt32.toNat_ofNat_of_lt' numberSmall,
    UInt32.toNat_ofNat_of_lt' nextSmall]

theorem toNat_ofNat_sub_ofNat (numberSmall : number < UInt32.size)
    (nextSmall : next < UInt32.size) (reached : next ≤ number) :
    (UInt32.ofNat number - UInt32.ofNat next).toNat = number - next := by
  rw [UInt32.toNat_sub_of_le, UInt32.toNat_ofNat_of_lt' numberSmall,
    UInt32.toNat_ofNat_of_lt' nextSmall]
  rw [UInt32.le_iff_toNat_le, UInt32.toNat_ofNat_of_lt' numberSmall,
    UInt32.toNat_ofNat_of_lt' nextSmall]
  exact reached

end Numbers

/-- The bound on forward jumps is that of the window. -/
theorem tooFar_iff (withSelf : Bool) (jump : ℕ) :
    (decide (consts.MAX_FORWARD_JUMPS < jump) && !withSelf) = true ↔
      ¬∀ bound ∈ (receivingLimits withSelf).maxJump, jump ≤ bound := by
  cases withSelf <;> simp [receivingLimits]

/-- A message key is found exactly if the window receives the number, and it is the key of
the number in the chain. -/
theorem getOrCreateMessageKey_following (nodup : inbox.streams.Nodup)
    (found : inbox.find key = some window) (sound : window.Sound consts.MAX_MESSAGE_KEYS)
    (nextSmall : window.next < UInt32.size) (numberSmall : number < UInt32.size)
    {withSelf : Bool} (self : state.sessionWithSelf = withSelf) :
    match window.receive consts.MAX_MESSAGE_KEYS (receivingLimits withSelf).maxJump number with
    | some received =>
      (state.following start inbox).getOrCreateMessageKey key messageType
          (keyAt (start key) window.next) (UInt32.ofNat number) =
        .ok ((keyAt (start key) number).messageKeys,
          state.following start (inbox.replace key received))
    | none =>
      ∃ error, (state.following start inbox).getOrCreateMessageKey key messageType
        (keyAt (start key) window.next) (UInt32.ofNat number) = .error error := by
  have withSelfEq : (state.following start inbox).sessionWithSelf = withSelf := self
  have index : (keyAt (start key) window.next).index = UInt32.ofNat window.next := rfl
  unfold Window.receive getOrCreateMessageKey
  simp only [index, ofNat_lt_ofNat numberSmall nextSmall, withSelfEq]
  by_cases passed : number < window.next
  · have small : ∀ skipped ∈ window.skipped, skipped < UInt32.size := fun skipped member =>
      Nat.lt_trans (sound.skipped_lt skipped member) nextSmall
    simp only [passed, if_true, getMessageKeys_following nodup found small numberSmall]
    by_cases stored : number ∈ window.skipped
    · simp only [stored, if_true]
    · simp only [stored, if_false]
      exact ⟨_, rfl⟩
  · have reached : window.next ≤ number := Nat.le_of_not_lt passed
    simp only [passed, if_false, toNat_ofNat_sub_ofNat numberSmall nextSmall reached, tooFar_iff]
    by_cases near : ∀ bound ∈ (receivingLimits withSelf).maxJump, number - window.next ≤ bound
    · have position : window.next + (number - window.next) = number := by omega
      let passing := window.skipMany consts.MAX_MESSAGE_KEYS (number - window.next)
      have skips := @skipMessageKeys_following P state start inbox key window window.next
        (number - window.next) nodup found sound.room
      rw [position] at skips
      have nodupAfter : (inbox.replace key { passing with next := window.next }).streams.Nodup := by
        rw [Inbox.streams_replace]
        exact nodup
      have advances := @setReceiverChainKey_following P state start _ key _ nodupAfter
        (Inbox.find_replace found { passing with next := window.next }) passing.takeNext rfl
      have next : passing.takeNext.next = number + 1 := by
        change passing.next + 1 = _
        rw [Window.next_skipMany, position]
      rw [next, Inbox.replace_replace] at advances
      rw [if_pos near, if_neg (not_not_intro near)]
      apply Result.bind_eq_ok.mpr
      refine ⟨_, skips, ?_⟩
      apply Result.bind_eq_ok.mpr
      refine ⟨_, (congrArg _ (nextChainKey_keyAt _ _)).trans advances, rfl⟩
    · rw [if_neg near, if_pos near]
      exact ⟨_, rfl⟩

theorem following_congr {other : P.PublicKey → P.Secret}
    (same : ∀ entry ∈ inbox.windows, start entry.1 = other entry.1) :
    state.following start inbox = state.following other inbox := by
  have chains : inbox.windows.map (chainOf start) = inbox.windows.map (chainOf other) := by
    apply map_congr_left
    intro entry member
    simp only [chainOf, same entry member]
  simp only [following, chains]

/-- A secret for a ratchet key that is not followed changes nothing. -/
theorem following_update (state : SessionState P) (start : P.PublicKey → P.Secret)
    (notFollowed : key ∉ inbox.streams) (secret : P.Secret) :
    state.following (Function.update start key secret) inbox = state.following start inbox :=
  following_congr fun entry member =>
    Function.update_of_ne (fun same => notFollowed (mem_map.mpr ⟨entry, member, same⟩)) _ _

theorem getOrCreateChainKey_following_some (nodup : inbox.streams.Nodup)
    (found : inbox.find key = some window) (ourNewEphemeral : P.PrivateKey) :
    (state.following start inbox).getOrCreateChainKey key ourNewEphemeral =
      .ok (keyAt (start key) window.next, state.following start inbox) := by
  rcases @getReceiverChain_following P state start inbox key window nodup found with
    ⟨position, located, _⟩
  simp only [getOrCreateChainKey, getReceiverChainKey, located, Option.map_some, chainOf]

/-- The state after the turn that a new ratchet key of the other side brings. -/
def turned (state : SessionState P) (theirEphemeral : P.PublicKey) (chain : SenderChain P)
    (ourNewEphemeral : P.PrivateKey) : SessionState P :=
  let receiverRoot :=
    (createChain state.rootKey theirEphemeral chain.ratchetKey.privateKey).1
  let sending := createChain receiverRoot theirEphemeral ourNewEphemeral
  let currentIndex := chain.chainKey.index
  { state with
    rootKey := sending.1
    previousCounter := if 0 < currentIndex then currentIndex - 1 else 0
    senderChain := some ⟨⟨ourNewEphemeral⟩, sending.2⟩ }

/-- A new ratchet key turns the ratchet and opens a stream for its chain. -/
theorem getOrCreateChainKey_following_none (missing : inbox.find key = none)
    {chain : SenderChain P} (sender : state.senderChain = some chain)
    (derived : (createChain state.rootKey key chain.ratchetKey.privateKey).2 = ⟨start key, 0⟩)
    (withSelf : Bool) (ourNewEphemeral : P.PrivateKey) :
    (state.following start inbox).getOrCreateChainKey key ourNewEphemeral =
      .ok (keyAt (start key) 0, (state.turned key chain ourNewEphemeral).following start
        (inbox.follow (receivingLimits withSelf) key)) := by
  have required : (state.following start inbox).requireSenderChain = .ok chain :=
    requireSenderChain_eq_ok.mpr sender
  have added := @addReceiverChain_following P
    (state.turned key chain ourNewEphemeral) start inbox key withSelf
  simp only [getOrCreateChainKey, getReceiverChainKey, getReceiverChain_following_none missing,
    Option.map_none, required]
  rw [← added]
  simp only [following, turned, addReceiverChain, setSenderChain, ← derived, createChain]
  rw [show (keyAt (start key) 0 : ChainKey P) = ⟨start key, 0⟩ from rfl, ← derived]
  rfl

/-- A message that decrypts was received by its window, with the key of its number. -/
theorem Decrypts.generator_of_chain {chained updated : SessionState P}
    {ciphertext : SignalMessage P} {ourNewEphemeral : P.PrivateKey} {ptext : P.Bytes}
    (steps : state.Decrypts ciphertext messageType ourNewEphemeral ptext updated)
    (isKey : ciphertext.content.senderRatchetKey = key)
    (isNumber : ciphertext.content.counter = UInt32.ofNat number) {withSelf : Bool}
    (self : chained.sessionWithSelf = withSelf)
    (chain : state.getOrCreateChainKey key ourNewEphemeral =
      .ok (keyAt (start key) window.next, chained.following start inbox))
    (nodup : inbox.streams.Nodup) (found : inbox.find key = some window)
    (sound : window.Sound consts.MAX_MESSAGE_KEYS) (nextSmall : window.next < UInt32.size)
    (numberSmall : number < UInt32.size) :
    ∃ received,
      window.receive consts.MAX_MESSAGE_KEYS (receivingLimits withSelf).maxJump number =
        some received ∧
      steps.generator = (keyAt (start key) number).messageKeys ∧
      steps.keyed = chained.following start (inbox.replace key received) := by
  subst isKey
  have looked := Except.ok.inj (steps.chainKey_eq.symm.trans chain)
  have chainKeyEq : steps.chainKey =
      keyAt (start ciphertext.content.senderRatchetKey) window.next := congrArg Prod.fst looked
  have chainedEq : steps.chained = chained.following start inbox := congrArg Prod.snd looked
  have generated := steps.generator_eq
  rw [chainKeyEq, chainedEq, isNumber] at generated
  have keyed := @getOrCreateMessageKey_following P chained start inbox
    ciphertext.content.senderRatchetKey window messageType number nodup found sound nextSmall
    numberSmall withSelf self
  cases taken : window.receive consts.MAX_MESSAGE_KEYS (receivingLimits withSelf).maxJump
    number with
  | none =>
    simp only [taken] at keyed
    rcases keyed with ⟨error, failed⟩
    cases generated.symm.trans failed
  | some received =>
    simp only [taken] at keyed
    have same := Except.ok.inj (generated.symm.trans keyed)
    exact ⟨received, rfl, congrArg Prod.fst same, congrArg Prod.snd same⟩

end SessionState

end LegacySignal
