import LegacySignal.Group.Cipher
import LegacySignal.Library.ReceiveWindow

/-!
# A sender key state receives as a window does

A chain that was learned at some iteration is a window whose numbers count
from there: its chain key stands at the next number and its stored message keys
are those of the skipped ones. `getSenderKey` computes what the window
computes, up to the end of the chain.
-/

namespace LegacySignal

open ReceiveWindow List

variable {P : GroupPrimitives}

/-- A chain as its sender has made it. -/
structure GroupChain (P : GroupPrimitives) where
  chainId : UInt32
  seed : P.Secret
  signingKey : P.PrivateKey

namespace GroupChain

def publicKey (chain : GroupChain P) : P.PublicKey := P.publicKey chain.signingKey

def keyAt (chain : GroupChain P) (position : ℕ) : SenderChainKey P :=
  ⟨UInt32.ofNat position,
    (fun key => P.hmacSha256 key SenderChainKey.CHAIN_KEY_SEED)^[position] chain.seed⟩

theorem next_keyAt (chain : GroupChain P) {position : ℕ} (small : position + 1 < UInt32.size) :
    (chain.keyAt position).next = .ok (chain.keyAt (position + 1)) := by
  have below : position < UInt32.size := by omega
  have same : (UInt32.ofNat position).toNat = position := UInt32.toNat_ofNat_of_lt' below
  rw [SenderChainKey.next, if_pos (by rw [keyAt, same]; exact small)]
  simp only [keyAt, Function.iterate_succ_apply', UInt32.ofNat_add]
  rfl

def messageKeyAt (chain : GroupChain P) (position : ℕ) : SenderMessageKey P :=
  (chain.keyAt position).senderMessageKey

@[simp]
theorem iteration_messageKeyAt (chain : GroupChain P) (position : ℕ) :
    (chain.messageKeyAt position).iteration = UInt32.ofNat position := rfl

end GroupChain

/-- A chain that a receiver holds, with the iteration at which it was learned and the window of
the messages since then. -/
structure HeldChain (P : GroupPrimitives) where
  chain : GroupChain P
  base : ℕ
  window : Window

namespace HeldChain

def position (held : HeldChain P) : ℕ := held.base + held.window.next

def storedKeys (held : HeldChain P) (skipped : List ℕ) : List (SenderMessageKey P) :=
  skipped.reverse.map fun number => held.chain.messageKeyAt (held.base + number)

def state (held : HeldChain P) : SenderKeyState P where
  storedVersion := SENDERKEY_MESSAGE_CURRENT_VERSION
  chainId := held.chain.chainId
  senderChainKey := held.chain.keyAt held.position
  signingKeyPublic := held.chain.publicKey
  signingKeyPrivate := none
  senderMessageKeys := held.storedKeys held.window.skipped

def withWindow (held : HeldChain P) (window : Window) : HeldChain P :=
  { held with window := window }

def receive (held : HeldChain P) (number : ℕ) : Option Window :=
  held.window.receive consts.MAX_MESSAGE_KEYS (some consts.MAX_FORWARD_JUMPS) number

structure Sound (held : HeldChain P) : Prop where
  window : held.window.Sound consts.MAX_MESSAGE_KEYS
  position_lt : held.position < UInt32.size

variable {held : HeldChain P} {number : ℕ} {numbers : List ℕ}

theorem addSenderMessageKey_storedKeys (state : SenderKeyState P) (window : Window)
    (stored : state.senderMessageKeys = held.storedKeys window.skipped) :
    (state.addSenderMessageKey (held.chain.messageKeyAt (held.base + window.next))) =
      { state with
        senderMessageKeys := held.storedKeys (window.skip consts.MAX_MESSAGE_KEYS).skipped } := by
  simp only [SenderKeyState.addSenderMessageKey, stored, storedKeys, Window.skip,
    reverse_take, map_drop, reverse_cons, map_append, map_cons,
    map_nil, length_append, length_map, length_reverse, length_cons,
    length_nil]

theorem skipSenderKeys_storedKeys (count : ℕ) (state : SenderKeyState P) (window : Window)
    (stored : state.senderMessageKeys = held.storedKeys window.skipped)
    (small : held.base + window.next + count < UInt32.size) :
    skipSenderKeys count state (held.chain.keyAt (held.base + window.next)) =
      .ok ({ state with
          senderMessageKeys :=
            held.storedKeys (window.skipMany consts.MAX_MESSAGE_KEYS count).skipped },
        held.chain.keyAt (held.base + window.next + count)) := by
  induction count generalizing state window with
  | zero =>
    rw [skipSenderKeys, Window.skipMany, ← stored]
    rfl
  | succ count ih =>
    have below : held.base + window.next + 1 < UInt32.size := by omega
    have further : held.base + (window.skip consts.MAX_MESSAGE_KEYS).next + count <
        UInt32.size := by
      change held.base + (window.next + 1) + count < _
      omega
    have passed : held.base + (window.skip consts.MAX_MESSAGE_KEYS).next + count =
        held.base + window.next + (count + 1) := by
      change held.base + (window.next + 1) + count = _
      omega
    have added := addSenderMessageKey_storedKeys state window stored
    rw [skipSenderKeys, held.chain.next_keyAt below]
    change skipSenderKeys count (state.addSenderMessageKey (held.chain.messageKeyAt _)) _ = _
    rw [added, ← passed]
    exact ih _ _ rfl further

theorem iteration_eq_iff {other : ℕ} (small : held.base + number < UInt32.size)
    (otherSmall : held.base + other < UInt32.size) :
    (held.chain.messageKeyAt (held.base + other)).iteration =
      UInt32.ofNat (held.base + number) ↔ other = number := by
  constructor
  · intro same
    have values := congrArg UInt32.toNat same
    rw [GroupChain.iteration_messageKeyAt, UInt32.toNat_ofNat_of_lt' otherSmall,
      UInt32.toNat_ofNat_of_lt' small] at values
    omega
  · rintro rfl
    rfl

theorem erase_reverse_of_nodup (nodup : numbers.Nodup) :
    numbers.reverse.erase number = (numbers.erase number).reverse := by
  rw [(nodup_reverse.mpr nodup).erase_eq_filter, nodup.erase_eq_filter, filter_reverse]

section

variable (sound : held.Sound) (small : held.base + number < UInt32.size)

include sound small

/-- A number that the window has skipped is taken out, and one that it has not is not there. -/
theorem removeSenderMessageKey_state :
    held.state.removeSenderMessageKey (UInt32.ofNat (held.base + number)) =
      if number ∈ held.window.skipped then
        some (held.chain.messageKeyAt (held.base + number),
          (held.withWindow (held.window.takeSkipped number)).state)
      else none := by
  have isIndex : ∀ other ∈ held.window.skipped.reverse,
      (held.chain.messageKeyAt (held.base + other)).iteration =
        UInt32.ofNat (held.base + number) ↔ other = number := by
    intro other member
    apply iteration_eq_iff small
    have earlier := sound.window.skipped_lt other (mem_reverse.mp member)
    have last := sound.position_lt
    rw [position] at last
    omega
  have found := find_map_key isIndex
  have erased := eraseP_map_key isIndex
  rw [erase_reverse_of_nodup sound.window.skipped_nodup] at erased
  rw [SenderKeyState.removeSenderMessageKey]
  simp only [state, storedKeys, found, erased, mem_reverse]
  split
  · rfl
  · rfl

theorem lt_position_iff :
    UInt32.ofNat (held.base + number) < held.state.senderChainKey.iteration ↔
      number < held.window.next := by
  change UInt32.ofNat (held.base + number) < UInt32.ofNat held.position ↔ _
  rw [UInt32.lt_iff_toNat_lt, UInt32.toNat_ofNat_of_lt' small,
    UInt32.toNat_ofNat_of_lt' sound.position_lt, position]
  omega

theorem jump_eq :
    (UInt32.ofNat (held.base + number)).toNat - held.state.senderChainKey.iteration.toNat =
      number - held.window.next := by
  change _ - (UInt32.ofNat held.position).toNat = _
  rw [UInt32.toNat_ofNat_of_lt' small, UInt32.toNat_ofNat_of_lt' sound.position_lt, position]
  omega

end

theorem getSenderKey_of_receive (sound : held.Sound)
    (small : held.base + number + 1 < UInt32.size) {next : Window}
    (received : held.receive number = some next) :
    getSenderKey held.state (UInt32.ofNat (held.base + number)) =
      .ok (held.chain.messageKeyAt (held.base + number), (held.withWindow next).state) := by
  have below : held.base + number < UInt32.size := by omega
  rw [receive, Window.receive] at received
  rw [getSenderKey]
  by_cases passed : number < held.window.next
  · rw [if_pos passed] at received
    rw [if_pos ((lt_position_iff sound below).mpr passed), removeSenderMessageKey_state sound below]
    split at received
    · rename_i stored
      cases received
      rw [if_pos stored]
      rfl
    · cases received
  · rw [if_neg passed] at received
    rw [if_neg (mt (lt_position_iff sound below).mp passed), jump_eq sound below]
    split at received
    · rename_i near
      cases received
      have close := near consts.MAX_FORWARD_JUMPS rfl
      have reached : held.base + held.window.next + (number - held.window.next) =
          held.base + number := by omega
      have skipped := skipSenderKeys_storedKeys (number - held.window.next) held.state held.window
        rfl (by omega)
      have position : (held.withWindow
          ((held.window.skipMany consts.MAX_MESSAGE_KEYS
            (number - held.window.next)).takeNext)).position = held.base + number + 1 := by
        change held.base + ((held.window.skipMany _ _).next + 1) = _
        rw [Window.next_skipMany]
        omega
      rw [reached] at skipped
      rw [if_neg (by omega)]
      change (skipSenderKeys _ _ (held.chain.keyAt (held.base + held.window.next)) >>= _) = _
      rw [skipped]
      change ((held.chain.keyAt (held.base + number)).next >>= _) = _
      rw [held.chain.next_keyAt small, ← position]
      rfl
    · cases received

theorem getSenderKey_of_not_receive (sound : held.Sound)
    (small : held.base + number < UInt32.size) (refused : held.receive number = none) :
    ∃ error, getSenderKey held.state (UInt32.ofNat (held.base + number)) = .error error := by
  rw [receive, Window.receive] at refused
  rw [getSenderKey]
  by_cases passed : number < held.window.next
  · rw [if_pos passed] at refused
    rw [if_pos ((lt_position_iff sound small).mpr passed), removeSenderMessageKey_state sound small]
    split at refused
    · cases refused
    · rename_i missing
      rw [if_neg missing]
      exact ⟨_, rfl⟩
  · rw [if_neg passed] at refused
    rw [if_neg (mt (lt_position_iff sound small).mp passed), jump_eq sound small]
    split at refused
    · cases refused
    · rename_i far
      have beyond : ¬number - held.window.next ≤ consts.MAX_FORWARD_JUMPS := by
        intro close
        apply far
        intro bound isBound
        cases isBound
        exact close
      rw [if_pos (Nat.lt_of_not_le beyond)]
      exact ⟨_, rfl⟩

theorem getSenderKey_of_lt_base (sound : held.Sound) {iteration : UInt32}
    (before : iteration.toNat < held.base) :
    ∃ error, getSenderKey held.state iteration = .error error := by
  have passed : iteration < held.state.senderChainKey.iteration := by
    change iteration < UInt32.ofNat held.position
    rw [UInt32.lt_iff_toNat_lt, UInt32.toNat_ofNat_of_lt' sound.position_lt, position]
    omega
  have missing : held.state.senderMessageKeys.find? (fun key => key.iteration = iteration) =
      none := by
    rw [find?_eq_none]
    intro key member
    rcases mem_map.mp member with ⟨number, stored, rfl⟩
    have earlier := sound.window.skipped_lt number (mem_reverse.mp stored)
    have last := sound.position_lt
    rw [position] at last
    have small : held.base + number < UInt32.size := by omega
    rw [GroupChain.iteration_messageKeyAt, decide_eq_true_eq]
    rintro rfl
    rw [UInt32.toNat_ofNat_of_lt' small] at before
    omega
  rw [getSenderKey, if_pos passed, SenderKeyState.removeSenderMessageKey, missing]
  exact ⟨_, rfl⟩

end HeldChain

end LegacySignal
