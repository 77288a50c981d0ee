import LegacySignal.Protocol.Receiving

/-!
# The ladder of ratchet keys

The two sides of a session take turns in drawing ratchet keys. Each new key
is a rung: its root key and its sending chain are derived from the rung below
and the two private keys. Both sides compute the same rungs, and no chain that
is derived from the newest known root is the chain of a rung that was there
before, so a message of a forgotten chain is never accepted.
-/

namespace LegacySignal

open ChainKey

inductive Side where
  | alice
  | bob
deriving DecidableEq, Repr

namespace Side

def other : Side → Side
  | alice => bob
  | bob => alice

@[simp]
theorem other_other (side : Side) : side.other.other = side := by
  cases side <;> rfl

@[simp]
theorem other_ne (side : Side) : side.other ≠ side := by
  cases side <;> decide

@[simp]
theorem ne_other (side : Side) : side ≠ side.other := by
  cases side <;> decide

theorem eq_or_eq_other (side one : Side) : one = side ∨ one = side.other := by
  cases side <;> cases one <;> decide

end Side

variable {P : Primitives} {start other : P.Secret} {position : ℕ}

theorem keyAt_injective (ideal : P.Ideal)
    (same : (keyAt start position).key = (keyAt other position).key) : start = other := by
  have injective : Function.Injective fun key => P.hmacSha256 key CHAIN_KEY_SEED :=
    fun _ _ equal => (ideal.hmac_injective equal).1
  exact injective.iterate position same

def messageKeysAt (start : P.Secret) (position : ℕ) (pqrKey : Option P.Secret) : MessageKeys P :=
  MessageKeys.deriveKeys (P.hmacSha256 (keyAt start position).key MESSAGE_KEY_SEED) pqrKey
    (UInt32.ofNat position)

theorem generateKeys_keyAt (start : P.Secret) (position : ℕ) (pqrKey : Option P.Secret) :
    (keyAt start position).messageKeys.generateKeys pqrKey =
      .ok (messageKeysAt start position pqrKey) := rfl

theorem messageKeysAt_injective (ideal : P.Ideal) {pqrKey otherPqrKey : Option P.Secret}
    (same : (messageKeysAt start position pqrKey).macKey =
      (messageKeysAt other position otherPqrKey).macKey) : start = other := by
  have material := (ideal.hkdf_injective same).2.1
  rw [List.cons.injEq] at material
  exact keyAt_injective ideal (ideal.hmac_injective material.1).1

/-- What a message says besides the keys that it is protected with. -/
structure Letter (P : Primitives) where
  ratchetKey : P.PublicKey
  number : ℕ
  previousCounter : UInt32
  ptext : P.Bytes
  pqRatchet : P.PqMessage
  pqrKey : Option P.Secret

def Letter.message (letter : Letter P) (start : P.Secret) (sender receiver : P.PublicKey) :
    SignalMessage P :=
  let keys := messageKeysAt start letter.number letter.pqrKey
  SignalMessage.new keys.macKey sender receiver
    { messageVersion := CIPHERTEXT_MESSAGE_CURRENT_VERSION
      senderRatchetKey := letter.ratchetKey
      counter := UInt32.ofNat letter.number
      previousCounter := letter.previousCounter
      ciphertext := P.aesCbcEncrypt letter.ptext keys.cipherKey keys.iv
      pqRatchet := letter.pqRatchet }

theorem Letter.verifyMac_message (letter : Letter P) (start : P.Secret)
    (sender receiver : P.PublicKey) :
    (letter.message start sender receiver).verifyMac sender receiver
      (messageKeysAt start letter.number letter.pqrKey).macKey = true := by
  simp only [message, SignalMessage.new, SignalMessage.verifyMac, decide_true]

theorem Letter.start_of_verifyMac (ideal : P.Ideal) {letter : Letter P}
    {sender receiver : P.PublicKey} {pqrKey : Option P.Secret}
    (verified : (letter.message start sender receiver).verifyMac sender receiver
      (messageKeysAt other letter.number pqrKey).macKey = true) : other = start := by
  exact messageKeysAt_injective ideal (ideal.computeMac_injective (of_decide_eq_true verified))

structure Rung (P : Primitives) where
  owner : Side
  key : P.PrivateKey
  root : P.Secret
  /-- The secret that the sending chain of the key starts with. -/
  chain : P.Secret

namespace Rung

def publicKey (rung : Rung P) : P.PublicKey := P.publicKey rung.key

/-- The rung on top of another one: the other side draws a key. -/
def next (lower : Rung P) (key : P.PrivateKey) : Rung P where
  owner := lower.owner.other
  key := key
  root := (createChain lower.root lower.publicKey key).1
  chain := (createChain lower.root lower.publicKey key).2.key

theorem createChain_next (ideal : P.Ideal) (lower : Rung P) (key : P.PrivateKey) :
    createChain lower.root (lower.next key).publicKey lower.key =
      ((lower.next key).root, ⟨(lower.next key).chain, 0⟩) := by
  have agreed := ideal.agreement_comm lower.key key
  simp only [createChain, next, publicKey, agreed]

end Rung

/-- The rungs of a session, the newest first. The lowest one comes from the setup. -/
inductive Ladder : List (Rung P) → Prop
  | base (owner : Side) (key : P.PrivateKey) (material : List P.Secret) :
      Ladder
        [⟨owner, key, P.hkdf none material .whisperText 0, P.hkdf none material .whisperText 1⟩]
  | climb {lower : Rung P} {rest : List (Rung P)} (ladder : Ladder (lower :: rest))
      (key : P.PrivateKey) (fresh : ∀ rung ∈ lower :: rest, rung.publicKey ≠ P.publicKey key) :
      Ladder (lower.next key :: lower :: rest)

namespace Ladder

variable {top : Rung P} {rest : List (Rung P)} {second : Rung P}

theorem origin (ladder : Ladder (top :: rest)) :
    ∀ rung ∈ top :: rest,
      (∃ material, rung.root = P.hkdf none material .whisperText 0 ∧
        rung.chain = P.hkdf none material .whisperText 1) ∨
      ∃ lower ∈ rest, ∃ material,
        rung.root = P.hkdf (some lower.root) material .whisperRatchet 0 ∧
        rung.chain = P.hkdf (some lower.root) material .whisperRatchet 1 := by
  generalize whole : top :: rest = rungs at ladder
  induction ladder generalizing top rest with
  | base owner key material =>
    cases whole
    intro rung member
    rw [List.mem_singleton.mp member]
    exact Or.inl ⟨material, rfl, rfl⟩
  | @climb lower below ladder key fresh ih =>
    cases whole
    intro rung member
    rcases List.mem_cons.mp member with rfl | older
    · exact Or.inr ⟨lower, List.mem_cons_self, _, rfl, rfl⟩
    · rcases ih rfl rung older with setup | ⟨parent, present, derived⟩
      · exact Or.inl setup
      · exact Or.inr ⟨parent, List.mem_cons_of_mem _ present, derived⟩

theorem root_ne (ideal : P.Ideal) (ladder : Ladder (top :: rest)) :
    ∀ rung ∈ rest, rung.root ≠ top.root := by
  generalize whole : top :: rest = rungs at ladder
  induction ladder generalizing top rest with
  | base owner key material =>
    cases whole
    intro rung member
    cases member
  | @climb lower below ladder key fresh ih =>
    cases whole
    intro rung member same
    rcases ladder.origin rung member with ⟨material, root, _⟩ | ⟨parent, present, _, root, _⟩
    · rw [root] at same
      cases (ideal.hkdf_injective same).1
    · rw [root] at same
      have roots := Option.some.inj (ideal.hkdf_injective same).1
      exact ih rfl parent present roots

theorem chain_ne (ideal : P.Ideal) (ladder : Ladder (top :: rest)) {rung : Rung P}
    (member : rung ∈ top :: rest) (theirs : P.PublicKey) (ours : P.PrivateKey) :
    (createChain top.root theirs ours).2.key ≠ rung.chain := by
  intro same
  rcases ladder.origin rung member with ⟨material, _, chain⟩ | ⟨parent, present, _, _, chain⟩
  · rw [chain] at same
    cases (ideal.hkdf_injective same).1
  · rw [chain] at same
    have roots := Option.some.inj (ideal.hkdf_injective same).1
    exact ladder.root_ne ideal parent present roots.symm

theorem nodup_publicKeys {rungs : List (Rung P)} (ladder : Ladder rungs) :
    (rungs.map Rung.publicKey).Nodup := by
  induction ladder with
  | base owner key material => exact List.nodup_singleton _
  | climb ladder key fresh ih =>
    rw [List.map_cons, List.nodup_cons]
    refine ⟨?_, ih⟩
    intro member
    rcases List.mem_map.mp member with ⟨rung, present, same⟩
    exact fresh rung present same

theorem owner_second (ladder : Ladder (top :: second :: rest)) :
    top.owner = second.owner.other := by
  cases ladder
  rfl

theorem top_eq (ladder : Ladder (top :: second :: rest)) : top = second.next top.key := by
  cases ladder
  rfl

theorem tail (ladder : Ladder (top :: second :: rest)) : Ladder (second :: rest) := by
  cases ladder
  assumption

end Ladder

end LegacySignal
