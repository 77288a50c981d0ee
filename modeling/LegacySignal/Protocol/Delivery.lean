import LegacySignal.Library.Transition
import LegacySignal.Protocol.Exchange
import LegacySignal.Protocol.Symbolic

/-!
# Delivery in any order

Every step of the two parties leads from a represented world to a represented
one, as long as drawn keys are new and no chain sends at its last counter. So
a message that was not accepted before is decrypted when it arrives, unless
its chain or its skipped key had to make room, or it is too far ahead.

A chain that does send at its last counter starts to count from zero again.
A skipped message from before that is then taken for one that is far ahead,
although its key is still there.
-/

namespace LegacySignal

open ProtocolStore ReceiveWindow Transition Function List

namespace Delivery

variable {P : Primitives} {Store : Type} [ProtocolStore P Store]

section Steps

variable {parties : Parties P} {link : P.PqLink} {world : World P Store} {ghost : Ghost P}

section

variable (represents : Represents parties link world ghost)

include represents

theorem room_of_belowLast {side : Side} {ptext : P.Bytes} {now : ℕ} {random : P.Random}
    (below : BelowLast parties world (.encrypt side ptext now random)) :
    ghost.counts side + 1 < UInt32.size := by
  have notLast := below _ _ _ (represents.loaded side) rfl (represents.synced.endpoint side).sender
  have small := represents.synced.count_lt side
  by_contra full
  have last : ghost.counts side = 4294967295 := by
    change ghost.counts side < 4294967296 at small
    change ¬ghost.counts side + 1 < 4294967296 at full
    omega
  apply notLast
  change UInt32.ofNat (ghost.counts side) = 0xFFFFFFFF
  rw [last]
  rfl

theorem addressed_of_mem {entry : Entry P} (member : entry ∈ ghost.entries) :
    Addressed (ghost.states entry.sent.sender.other) entry.sent.message := by
  have wrapped := (represents.synced.mail.genuine entry member).wrapped
  have endpoint := represents.synced.endpoint entry.sent.sender.other
  cases message : entry.sent.message with
  | signalMessage inner => trivial
  | preKeySignalMessage outer =>
    rw [message] at wrapped
    rcases wrapped with ⟨_, version, base⟩
    simp only [Addressed, SessionRecord.Matches, endpoint.sessionVersion, endpoint.baseKey,
      version, base, decide_true, Bool.and_self]

theorem entry_of_sent {position : ℕ} {sent : Sent P} (found : world.sent[position]? = some sent) :
    ∃ entry before after, entry.sent = sent ∧ ghost.entries = before ++ entry :: after ∧
      world.sent.set position sent.accept =
        (before ++ entry.accept :: after).map Entry.sent := by
  rw [represents.sent, getElem?_map, Option.map_eq_some_iff] at found
  rcases found with ⟨entry, located, rfl⟩
  rcases List.getElem?_eq_some_iff.mp located with ⟨bound, atPosition⟩
  refine ⟨entry, ghost.entries.take position, ghost.entries.drop (position + 1), rfl, ?_, ?_⟩
  · rw [← atPosition, cons_getElem_drop_succ, take_append_drop]
  · rw [represents.sent, set_eq_take_append_cons_drop, length_map, if_pos bound,
      map_append, map_cons, map_take, map_drop]
    rfl

end

variable [LawfulProtocolStore P Store]

theorem represents_encrypt (represents : Represents parties link world ghost) {side : Side}
    {ptext : P.Bytes} {now : ℕ} {random : P.Random}
    (below : BelowLast parties world (.encrypt side ptext now random)) :
    ∃ reached, Represents parties link (world.encrypt parties side ptext now random) reached := by
  have room := room_of_belowLast represents below
  rcases messageEncrypt_cases ptext now random (represents.loaded side) with
    ⟨error, failed⟩ | ⟨message, sent, theirIdentityKey, stored, encrypts, succeeded, loaded⟩
  · refine ⟨ghost, represents.synced, ?_, represents.inbox, ?_⟩
    · simp only [World.encrypt, failed]
      exact represents.sent
    · simp only [World.encrypt, failed, update_eq_self]
      exact represents.loaded
  · rcases represents.synced.encrypted encrypts room with ⟨letter, synced⟩
    refine ⟨_, synced, ?_, represents.inbox, ?_⟩
    · simp only [World.encrypt, succeeded, Ghost.encrypted, map_append, map_singleton,
        represents.sent]
    · intro other
      simp only [World.encrypt, succeeded, Ghost.encrypted]
      by_cases same : other = side
      · subst same
        rw [update_self, update_self]
        exact loaded
      · rw [update_of_ne same, update_of_ne same]
        exact represents.loaded other

variable [TrustingProtocolStore P Store]

theorem decrypt_of_receive (ideal : P.Ideal) (represents : Represents parties link world ghost)
    {entry : Entry P} {before after : List (Entry P)}
    (split : ghost.entries = before ++ entry :: after) (unaccepted : entry.sent.accepted = false)
    {next : Inbox P.PublicKey}
    (receives : (ghost.inbox entry.sent.sender.other).receive parties.setting.limits
      entry.letter.ratchetKey entry.letter.number = some next) (ourNewEphemeral : P.PrivateKey) :
    ∃ updated stored,
      world.decrypt parties entry.sent ourNewEphemeral = (.ok entry.sent.ptext, stored) ∧
      loadSession stored (parties.address entry.sent.sender) = .ok (some ⟨some updated, []⟩) ∧
      (P.publicKey ourNewEphemeral ∉ world.ratchetKeys → ∃ reached : Ghost P,
        reached.Synced parties.setting link (P.publicKey ourNewEphemeral :: world.ratchetKeys) ∧
        reached.states = update ghost.states entry.sent.sender.other updated ∧
        reached.inbox = update ghost.inbox entry.sent.sender.other next ∧
        reached.entries = before ++ entry.accept :: after) := by
  have member : entry ∈ ghost.entries := split ▸ mem_append_right _ mem_cons_self
  have loaded := represents.loaded entry.sent.sender.other
  rw [Side.other_other] at loaded
  rcases represents.synced.deliver ideal split unaccepted receives
    (messageTypeOf entry.sent.message) ourNewEphemeral with ⟨updated, decrypts, synced⟩
  rcases messageDecrypt_ok loaded (addressed_of_mem represents member) decrypts with
    ⟨stored, succeeded, storedLoaded⟩
  exact ⟨updated, stored, succeeded, storedLoaded, synced⟩

theorem represents_deliver (ideal : P.Ideal) (represents : Represents parties link world ghost)
    {position : ℕ} {sent : Sent P} (found : world.sent[position]? = some sent)
    {ourNewEphemeral : P.PrivateKey}
    (fresh : P.publicKey ourNewEphemeral ∉ world.ratchetKeys) :
    ∃ reached, Represents parties link
      (world.deliver parties position sent ourNewEphemeral) reached := by
  rcases entry_of_sent represents found with ⟨entry, before, after, rfl, split, accepted⟩
  have member : entry ∈ ghost.entries := split ▸ mem_append_right _ mem_cons_self
  have genuine := represents.synced.mail.genuine entry member
  cases receives : (ghost.inbox entry.sent.sender.other).receive parties.setting.limits
      entry.letter.ratchetKey entry.letter.number with
  | none =>
    have loaded := represents.loaded entry.sent.sender.other
    rw [Side.other_other] at loaded
    rcases messageDecrypt_error loaded (addressed_of_mem represents member)
      (represents.synced.refuse ideal member receives _ ourNewEphemeral) with ⟨error, failed⟩
    have refused : world.decrypt parties entry.sent ourNewEphemeral =
        (.error error, world.store entry.sent.sender.other) := failed
    refine ⟨ghost, ?_, ?_, ?_, ?_⟩
    all_goals simp only [World.deliver, refused, update_eq_self]
    · exact represents.synced.more_keys _
    · exact represents.sent
    · exact represents.inbox
    · exact represents.loaded
  | some next =>
    have unaccepted : entry.sent.accepted = false := by
      apply Bool.eq_false_of_not_eq_true
      intro wasAccepted
      have refused := represents.synced.mail.refused member wasAccepted
        (represents.synced.endpoint _).sound
      rw [refused] at receives
      cases receives
    rcases decrypt_of_receive ideal represents split unaccepted receives ourNewEphemeral with
      ⟨updated, stored, succeeded, loaded, synced⟩
    rcases synced fresh with ⟨reached, reachedSynced, states, inbox, entries⟩
    refine ⟨reached, ?_, ?_, ?_, ?_⟩
    all_goals simp only [World.deliver, succeeded]
    · exact reachedSynced
    · rw [entries]
      exact accepted
    · rw [inbox, represents.inbox, genuine.ratchetKey, genuine.number, receives]
      rfl
    · intro side
      rw [states]
      by_cases same : side = entry.sent.sender.other
      · subst same
        rw [update_self, update_self, Side.other_other]
        exact loaded
      · rw [update_of_ne same, update_of_ne same]
        exact represents.loaded side

theorem represents_step (ideal : P.Ideal) (world : World P Store) (event : Event P)
    (next : World P Store) (represented : ∃ ghost, Represents parties link world ghost)
    (allowed : Fresh world event ∧ BelowLast parties world event)
    (stepped : step parties world event = some next) :
    ∃ reached, Represents parties link next reached := by
  rcases represented with ⟨ghost, represents⟩
  cases event with
  | encrypt side ptext now random =>
    cases stepped
    exact represents_encrypt represents allowed.2
  | deliver position ourNewEphemeral =>
    rcases Option.map_eq_some_iff.mp stepped with ⟨sent, found, rfl⟩
    exact represents_deliver ideal represents found allowed.1

section Runs

variable (ideal : P.Ideal) (linkage : P.PqLink) {store : Side → Store}
  (established : Established parties store) {events : List (Event P)} {final : World P Store}
  (meets : Meets (step parties)
    (fun world event => Fresh world event ∧ BelowLast parties world event)
    (parties.initial store) events)
  (reached : run (step parties) (parties.initial store) events = some final)
  {position : ℕ} {sent : Sent P} (found : final.sent[position]? = some sent)

include ideal linkage established meets reached found

theorem exists_entry :
    ∃ ghost entry before after, Represents parties linkage final ghost ∧ sent = entry.sent ∧
      entry ∈ ghost.entries ∧ ghost.entries = before ++ entry :: after := by
  rcases run_invariant_of_meets (represents_step ideal)
    (represents_initial ideal linkage established) meets reached with ⟨ghost, represents⟩
  rcases entry_of_sent represents found with ⟨entry, before, after, same, split, _⟩
  exact ⟨ghost, entry, before, after, represents, same.symm,
    split ▸ mem_append_right _ mem_cons_self, split⟩

/-- The first delivery of a message whose chain and whose skipped key are still there, and which
is not too far ahead, returns the plaintext that was encrypted. -/
theorem decrypt_of_retained (first : sent.accepted = false)
    (chainRetained : sent.ratchetKey ∉ (final.inbox sent.sender.other).dropped)
    (keyRetained : sent.number ∉
      ((final.inbox sent.sender.other).window sent.ratchetKey).forgotten)
    (near : sent.number ≤
      ((final.inbox sent.sender.other).window sent.ratchetKey).next + consts.MAX_FORWARD_JUMPS)
    (ourNewEphemeral : P.PrivateKey) :
    (final.decrypt parties sent ourNewEphemeral).1 = .ok sent.ptext := by
  rcases exists_entry ideal linkage established meets reached found with
    ⟨ghost, entry, before, after, represents, rfl, member, split⟩
  have genuine := represents.synced.mail.genuine entry member
  rw [represents.inbox, genuine.ratchetKey] at chainRetained keyRetained near
  rw [genuine.number] at keyRetained near
  have bounded : ∀ bound ∈ parties.setting.limits.maxJump, entry.letter.number ≤
      ((ghost.inbox entry.sent.sender.other).window entry.letter.ratchetKey).next + bound := by
    intro bound given
    have isBound : bound = consts.MAX_FORWARD_JUMPS := by
      unfold Setting.limits receivingLimits at given
      cases self : parties.setting.withSelf <;> simp [self] at given
      exact given.symm
    rw [isBound]
    exact near
  have sound := (represents.synced.endpoint entry.sent.sender.other).sound
  have receives := sound.receive_isSome chainRetained
    (represents.synced.mail.not_taken member first _) keyRetained bounded
  rcases Option.isSome_iff_exists.mp receives with ⟨next, receives⟩
  rcases decrypt_of_receive ideal represents split first receives ourNewEphemeral with
    ⟨_, _, succeeded, _⟩
  rw [succeeded]

/-- In every run a delivery returns the plaintext that was encrypted, and this for the first time,
or it fails and leaves the store of the receiver as it is. -/
theorem decrypt_at_most_once (ourNewEphemeral : P.PrivateKey) :
    (sent.accepted = false ∧ (final.decrypt parties sent ourNewEphemeral).1 = .ok sent.ptext) ∨
      ∃ error, final.decrypt parties sent ourNewEphemeral =
        (.error error, final.store sent.sender.other) := by
  rcases exists_entry ideal linkage established meets reached found with
    ⟨ghost, entry, before, after, represents, rfl, member, split⟩
  have loaded := represents.loaded entry.sent.sender.other
  rw [Side.other_other] at loaded
  cases receives : (ghost.inbox entry.sent.sender.other).receive parties.setting.limits
      entry.letter.ratchetKey entry.letter.number with
  | none =>
    exact Or.inr (messageDecrypt_error loaded (addressed_of_mem represents member)
      (represents.synced.refuse ideal member receives _ ourNewEphemeral))
  | some next =>
    cases accepted : entry.sent.accepted with
    | true =>
      cases receives.symm.trans (represents.synced.mail.refused member accepted
        (represents.synced.endpoint _).sound)
    | false =>
      rcases decrypt_of_receive ideal represents split accepted receives ourNewEphemeral with
        ⟨_, _, succeeded, _⟩
      exact Or.inl ⟨rfl, by rw [succeeded]⟩

end Runs

theorem encrypt_eq {side : Side} {state sent : SessionState P} {ptext : P.Bytes} {now : ℕ}
    {random : P.Random} {message : CiphertextMessage P} {theirIdentityKey : P.PublicKey}
    (loaded : loadSession (world.store side) (parties.address side.other) =
      .ok (some ⟨some state, []⟩))
    (encrypts : state.encryptMessage (parties.address side.other) ptext now random =
      .ok (message, sent, theirIdentityKey)) :
    ∃ stored, loadSession stored (parties.address side.other) = .ok (some ⟨some sent, []⟩) ∧
      step parties world (.encrypt side ptext now random) =
        some { world with
          store := update world.store side stored
          sent := world.sent ++ [⟨side, message, ptext, false⟩] } := by
  have updates : encryptUpdate (world.store side) (parties.address side.other) ptext now random
      ⟨some state, []⟩ = .ok ⟨message, ⟨some sent, []⟩, theirIdentityKey, none⟩ := by
    apply Result.bind_eq_ok.mpr
    refine ⟨state, rfl, ?_⟩
    apply Result.bind_eq_ok.mpr
    refine ⟨_, encrypts, ?_⟩
    apply Result.bind_eq_ok.mpr
    exact ⟨(), Result.ensure_eq_ok.mpr (TrustingProtocolStore.isTrustedIdentity_eq _ _ _ _), rfl⟩
  refine ⟨storeSession (saveIdentity (world.store side) (parties.address side.other)
    theirIdentityKey) (parties.address side.other) ⟨some sent, []⟩,
    LawfulProtocolStore.loadSession_storeSession _ _ _, ?_⟩
  simp only [step, World.encrypt, messageEncrypt, loadExisting_of_some loaded, Except.bind,
    updates]
  rfl

theorem deliver_eq {position : ℕ} {sent : Sent P} {state updated : SessionState P}
    {ourNewEphemeral : P.PrivateKey} {ptext : P.Bytes}
    (found : world.sent[position]? = some sent)
    (loaded : loadSession (world.store sent.sender.other) (parties.address sent.sender) =
      .ok (some ⟨some state, []⟩))
    (addressed : Addressed state sent.message)
    (decrypts : state.decryptMessage sent.message.inner (messageTypeOf sent.message)
      ourNewEphemeral = .ok (ptext, updated)) :
    ∃ stored, loadSession stored (parties.address sent.sender) =
        .ok (some ⟨some updated, []⟩) ∧
      step parties world (.deliver position ourNewEphemeral) =
        some { world with
          store := update world.store sent.sender.other stored
          sent := world.sent.set position sent.accept
          inbox := update world.inbox sent.sender.other
            (((world.inbox sent.sender.other).receive parties.setting.limits sent.ratchetKey
              sent.number).getD (world.inbox sent.sender.other))
          ratchetKeys := P.publicKey ourNewEphemeral :: world.ratchetKeys } := by
  rcases messageDecrypt_ok loaded addressed decrypts with ⟨stored, succeeded, storedLoaded⟩
  refine ⟨stored, storedLoaded, ?_⟩
  simp only [step, found, Option.map_some, World.deliver, World.decrypt, succeeded]

end Steps

section Symbolic

open Symbolic ChainKey

def symbolicParties : Parties symbolic where
  address
    | .alice => ⟨"alice", 1⟩
    | .bob => ⟨"bob", 1⟩
  alice := aliceParameters
  bob := Symbolic.bobParameters
  kyber := (0 : ℕ)
  ratchetKey := (11 : ℕ)

noncomputable def symbolicStore : Side → AppStore SignalFormats.symbolic
  | .alice => storeSession aliceStore (symbolicParties.address .bob) aliceRecord
  | .bob => storeSession aliceStore (symbolicParties.address .alice) ⟨some bobSession, []⟩

theorem loadedAlice : loadSession (symbolicStore .alice) (symbolicParties.address .bob) =
    .ok (some aliceRecord) :=
  LawfulProtocolStore.loadSession_storeSession _ _ _

theorem loadedBob : loadSession (symbolicStore .bob) (symbolicParties.address .alice) =
    .ok (some ⟨some bobSession, []⟩) :=
  LawfulProtocolStore.loadSession_storeSession _ _ _

theorem symbolic_established : Established symbolicParties symbolicStore where
  matching := by
    refine ⟨rfl, rfl, rfl, rfl, rfl, rfl, ?_⟩
    intro secret ciphertext encapsulated
    cases encapsulated
    exact ⟨rfl, rfl⟩
  ratchetKey_ne := (by decide : (11 : ℕ) ≠ 3)
  alice := by
    refine ⟨aliceSession, some ⟨none, 1, (10 : ℕ), 0⟩, some ⟨1, ((4, 0) : ℕ × ℕ)⟩, 0, 7, rfl, ?_,
      loadedAlice⟩
    intro pending isPending
    cases isPending
    rfl
  bob := ⟨bobSession, 0, 0, rfl, loadedBob⟩

def chainSecret : Term :=
  (createChain (deriveKeys (aliceParameters.secrets (Term.kem 4 0))).1 (3 : ℕ) (11 : ℕ)).2.key

def pqSecret : Term := (deriveKeys (aliceParameters.secrets (Term.kem 4 0))).2.2

def aliceWith (chainKey : ChainKey symbolic) (count : ℕ) : SessionState symbolic :=
  { aliceSession.setUnacknowledged bobBundle (10 : ℕ) 0 0 with
    senderChain := some ⟨⟨(11 : ℕ)⟩, chainKey⟩
    pqRatchetState := ⟨pqSecret, .a2b, count⟩ }

/-- Alice's session after the given number of messages, none of them answered. -/
def aliceAt (count : ℕ) : SessionState symbolic :=
  aliceWith (keyAt chainSecret count) count

def letterAt (count : ℕ) (ptext : Text) : Letter symbolic where
  ratchetKey := (11 : ℕ)
  number := count
  previousCounter := 0
  ptext := ptext
  pqRatchet := count
  pqrKey := some (.pq pqSecret .a2b count)

abbrev innerAt (count : ℕ) (ptext : Text) : SignalMessage symbolic :=
  (letterAt count ptext).message chainSecret (1 : ℕ) (2 : ℕ)

def announced (count : ℕ) (ptext : Text) : PreKeySignalMessage symbolic where
  messageVersion := CIPHERTEXT_MESSAGE_CURRENT_VERSION
  registrationId := 0
  preKeyId := none
  signedPreKeyId := 1
  kyberPayload := some ⟨1, ((4, 0) : ℕ × ℕ)⟩
  baseKey := (10 : ℕ)
  identityKey := (1 : ℕ)
  message := innerAt count ptext

def outerAt (count : ℕ) (ptext : Text) : CiphertextMessage symbolic :=
  .preKeySignalMessage (announced count ptext)

def sentAt (count : ℕ) (ptext : Text) (accepted : Bool) : Sent symbolic :=
  ⟨.alice, outerAt count ptext, ptext, accepted⟩

theorem encryptMessage_aliceAt (address : SignalProtocolAddress) (count : ℕ) (ptext : Text) :
    (aliceAt count).encryptMessage address ptext 0 (0 : ℕ) =
      .ok (outerAt count ptext, aliceAt (count + 1), (2 : ℕ)) := by
  have encrypts : (aliceAt count).encryptMessage address ptext 0 (0 : ℕ) =
      .ok (outerAt count ptext, aliceWith (keyAt chainSecret count).nextChainKey (count + 1),
        (2 : ℕ)) := rfl
  rw [encrypts]
  exact congrArg (fun chainKey =>
    Except.ok (outerAt count ptext, aliceWith chainKey (count + 1), ((2 : ℕ) : symbolic.PublicKey)))
    (@nextChainKey_keyAt symbolic chainSecret count)

def bobSenderChain : SenderChain symbolic :=
  ⟨⟨(3 : ℕ)⟩, (deriveKeys (Symbolic.bobParameters.secrets (Term.kem 4 0))).2.1⟩

def bobTurned (draw : ℕ) : SessionState symbolic :=
  bobSession.turned (11 : ℕ) bobSenderChain draw

def bobInbox (window : Window) : Inbox symbolic.PublicKey := ⟨[((11 : ℕ), window)], []⟩

def bobAt (draw : ℕ) (window : Window) : SessionState symbolic :=
  (bobTurned draw).following (fun _ => chainSecret) (bobInbox window)

theorem find_bobInbox (window : Window) : (bobInbox window).find (11 : ℕ) = some window := rfl

theorem replace_bobInbox (window next : Window) :
    (bobInbox window).replace (11 : ℕ) next = bobInbox next := rfl

theorem nodup_bobInbox (window : Window) : (bobInbox window).streams.Nodup :=
  nodup_singleton _

theorem decryptMessage_bobAt {draw : ℕ} {window received : Window} {count : ℕ} {ptext : Text}
    (sound : window.Sound consts.MAX_MESSAGE_KEYS) (nextSmall : window.next < UInt32.size)
    (countSmall : count < UInt32.size)
    (taken : window.receive consts.MAX_MESSAGE_KEYS (some consts.MAX_FORWARD_JUMPS) count =
      some received) (messageType : CiphertextMessageType) (ourNewEphemeral : ℕ) :
    (bobAt draw window).decryptMessage (innerAt count ptext) messageType ourNewEphemeral =
      .ok (ptext, bobAt draw received) := by
  have chain := @SessionState.getOrCreateChainKey_following_some symbolic (bobTurned draw)
    (fun _ => chainSecret) (bobInbox window) (11 : ℕ) window (nodup_bobInbox window)
    (find_bobInbox window) ourNewEphemeral
  exact @Endpoint.decryptMessage_of_chain symbolic symbolicParties.setting
    (fun _ => chainSecret) .bob (bobAt draw window) (bobInbox window) window received ideal
    (letterAt count ptext) (bobTurned draw) messageType ourNewEphemeral
    (bobTurned draw).pqRatchetState rfl rfl rfl chain (nodup_bobInbox window)
    (find_bobInbox window) sound nextSmall countSmall taken rfl

theorem decryptMessage_bobSession {draw count : ℕ} {received : Window} {ptext : Text}
    (countSmall : count < UInt32.size)
    (taken : Window.new.receive consts.MAX_MESSAGE_KEYS (some consts.MAX_FORWARD_JUMPS) count =
      some received) (messageType : CiphertextMessageType) :
    bobSession.decryptMessage (innerAt count ptext) messageType draw =
      .ok (ptext, bobAt draw received) := by
  have chain := @SessionState.getOrCreateChainKey_following_none symbolic bobSession
    (fun _ => chainSecret) ⟨[], []⟩ (11 : ℕ) rfl bobSenderChain rfl rfl false draw
  exact @Endpoint.decryptMessage_of_chain symbolic symbolicParties.setting
    (fun _ => chainSecret) .bob bobSession (bobInbox Window.new) Window.new received ideal
    (letterAt count ptext) (bobTurned draw) messageType draw
    (bobTurned draw).pqRatchetState rfl rfl rfl chain (nodup_bobInbox _)
    (find_bobInbox _) (Window.sound_new _) (by decide) countSmall taken rfl

variable {world : World symbolic (AppStore SignalFormats.symbolic)}

theorem encrypt_aliceAt {count : ℕ} (ptext : Text)
    (loaded : loadSession (world.store .alice) (symbolicParties.address .bob) =
      .ok (some ⟨some (aliceAt count), []⟩)) :
    ∃ stored, loadSession stored (symbolicParties.address .bob) =
        .ok (some ⟨some (aliceAt (count + 1)), []⟩) ∧
      step symbolicParties world (.encrypt .alice ptext 0 (0 : ℕ)) =
        some { world with
          store := update world.store .alice stored
          sent := world.sent ++ [sentAt count ptext false] } :=
  @encrypt_eq _ _ _ _ world _ _ .alice _ _ _ _ _ _ _ loaded (encryptMessage_aliceAt _ count ptext)

theorem belowLast_aliceAt {count : ℕ} {ptext : Text}
    (loaded : loadSession (world.store .alice) (symbolicParties.address .bob) =
      .ok (some ⟨some (aliceAt count), []⟩)) (below : UInt32.ofNat count ≠ 0xFFFFFFFF) :
    BelowLast symbolicParties world (.encrypt .alice ptext 0 (0 : ℕ)) := by
  intro record state chain loads current sender
  cases loaded.symm.trans loads
  cases current
  cases sender
  exact below

/-- Two messages of which the second arrives first. -/
def reordered : List (Event symbolic) :=
  [.encrypt .alice (Text.plain 5) 0 (0 : ℕ), .encrypt .alice (Text.plain 6) 0 (0 : ℕ),
    .deliver 1 (20 : ℕ)]

theorem decrypt_of_retained_reordered :
    ∃ final sent,
      run (step symbolicParties) (symbolicParties.initial symbolicStore) reordered =
        some final ∧
      final.sent[0]? = some sent ∧ sent.ptext = Text.plain 5 ∧
      (final.decrypt symbolicParties sent (21 : ℕ)).1 = .ok (Text.plain 5) := by
  rcases @encrypt_aliceAt (symbolicParties.initial symbolicStore) 0 (Text.plain 5) loadedAlice with
    ⟨one, loadedOne, stepOne⟩
  rcases @encrypt_aliceAt { symbolicParties.initial symbolicStore with
      store := update symbolicStore .alice one
      sent := [sentAt 0 (.plain 5) false] } 1 (Text.plain 6)
    loadedOne with ⟨two, loadedTwo, stepTwo⟩
  let sent : List (Sent symbolic) :=
    [sentAt 0 (.plain 5) false,
      sentAt 1 (.plain 6) false]
  let middle : World symbolic (AppStore SignalFormats.symbolic) :=
    { symbolicParties.initial symbolicStore with
      store := update (update symbolicStore .alice one) .alice two
      sent := sent }
  rcases @deliver_eq _ _ _ symbolicParties middle _ _ 1 _ bobSession (bobAt 20 ⟨2, [0], [], [1]⟩)
    (20 : ℕ) (Text.plain 6) rfl loadedBob rfl
    (decryptMessage_bobSession (by decide) rfl .preKey) with ⟨three, loadedThree, stepThree⟩
  have fresh : Fresh middle (.deliver 1 (20 : ℕ)) := (by decide : (20 : ℕ) ∉ [11, 3])
  have meets : Meets (step symbolicParties)
      (fun world event => Fresh world event ∧ BelowLast symbolicParties world event)
      (symbolicParties.initial symbolicStore) reordered := by
    refine meets_cons ⟨trivial, ?_⟩ stepOne
      (meets_cons ⟨trivial, ?_⟩ stepTwo
        (meets_cons ⟨fresh, trivial⟩ stepThree True.intro))
    · exact @belowLast_aliceAt _ 0 _ loadedAlice (by decide)
    · exact @belowLast_aliceAt _ 1 _ loadedOne (by decide)
  have reached := run_cons stepOne (run_cons stepTwo
    (run_cons stepThree (run_nil _)))
  refine ⟨_, sentAt 0 (.plain 5) false, reached, rfl, rfl, ?_⟩
  exact @decrypt_of_retained symbolic _ _ symbolicParties _ _ ideal pqLink symbolicStore
    symbolic_established reordered _ meets reached 0
    (sentAt 0 (.plain 5) false) rfl rfl not_mem_nil
    not_mem_nil (Nat.zero_le _) (21 : ℕ)

/-- A message that is delivered, and then decrypted once more. -/
def replayed : List (Event symbolic) :=
  [.encrypt .alice (Text.plain 5) 0 (0 : ℕ), .deliver 0 (20 : ℕ)]

theorem decrypt_at_most_once_replayed :
    ∃ final sent,
      run (step symbolicParties) (symbolicParties.initial symbolicStore) replayed =
        some final ∧ final.sent[0]? = some sent ∧
      ∃ error, final.decrypt symbolicParties sent (21 : ℕ) = (.error error, final.store .bob) := by
  rcases @encrypt_aliceAt (symbolicParties.initial symbolicStore) 0 (Text.plain 5) loadedAlice with
    ⟨one, loadedOne, stepOne⟩
  rcases @deliver_eq _ _ _ symbolicParties { symbolicParties.initial symbolicStore with
      store := update symbolicStore .alice one
      sent := [sentAt 0 (.plain 5) false] } _ _ 0 _ bobSession
    (bobAt 20 ⟨1, [], [], [0]⟩) (20 : ℕ) (Text.plain 5) rfl loadedBob rfl
    (decryptMessage_bobSession (by decide) rfl .preKey) with ⟨two, _, stepTwo⟩
  have fresh : (20 : ℕ) ∉ [11, 3] := by decide
  have below := @belowLast_aliceAt (symbolicParties.initial symbolicStore) 0 (Text.plain 5)
    loadedAlice (by decide)
  have reached := run_cons stepOne (run_cons stepTwo (run_nil _))
  refine ⟨_, sentAt 0 (.plain 5) true, reached, rfl, ?_⟩
  rcases @decrypt_at_most_once symbolic _ _ symbolicParties _ _ ideal pqLink symbolicStore
    symbolic_established replayed _ (meets_cons ⟨trivial, below⟩ stepOne
      (meets_cons ⟨fresh, trivial⟩ stepTwo True.intro)) reached 0
    (sentAt 0 (.plain 5) true) rfl (21 : ℕ) with ⟨⟨⟩, _⟩ | refused
  exact refused

/-- A chain of which every message so far was sent and received in order. -/
structure InOrder (count : ℕ) (world : World symbolic (AppStore SignalFormats.symbolic)) :
    Prop where
  alice : loadSession (world.store .alice) (symbolicParties.address .bob) =
    .ok (some ⟨some (aliceAt count), []⟩)
  bob : ∃ draw window, window.Sound consts.MAX_MESSAGE_KEYS ∧ window.next = count ∧
    window.skipped = [] ∧ window.forgotten = [] ∧ world.inbox .bob = bobInbox window ∧
    loadSession (world.store .bob) (symbolicParties.address .alice) =
      .ok (some ⟨some (bobAt draw window), []⟩)
  keys : ∀ key : ℕ, (key : symbolic.PublicKey) ∈ world.ratchetKeys → key < 20 + count

theorem number_outerAt {count : ℕ} (small : count < UInt32.size) (ptext : Text) :
    (sentAt count ptext false).number = count :=
  UInt32.toNat_ofNat_of_lt' small

theorem receive_bobInbox {window received : Window} {count : ℕ}
    (taken : window.receive consts.MAX_MESSAGE_KEYS (some consts.MAX_FORWARD_JUMPS) count =
      some received) :
    (bobInbox window).receive symbolicParties.setting.limits (11 : ℕ) count =
      some (bobInbox received) := by
  have takes : window.receive symbolicParties.setting.limits.capacity
    symbolicParties.setting.limits.maxJump count = some received := taken
  simp only [Inbox.receive, find_bobInbox, takes, Option.map_some, replace_bobInbox]

theorem deliver_bobAt {draw count fresh : ℕ} {window received : Window} {ptext : Text}
    {before : List (Sent symbolic)}
    (sent : world.sent = before ++ [sentAt count ptext false])
    (loaded : loadSession (world.store .bob) (symbolicParties.address .alice) =
      .ok (some ⟨some (bobAt draw window), []⟩))
    (inbox : world.inbox .bob = bobInbox window)
    (sound : window.Sound consts.MAX_MESSAGE_KEYS) (nextSmall : window.next < UInt32.size)
    (countSmall : count < UInt32.size)
    (taken : window.receive consts.MAX_MESSAGE_KEYS (some consts.MAX_FORWARD_JUMPS) count =
      some received) :
    ∃ stored, loadSession stored (symbolicParties.address .alice) =
        .ok (some ⟨some (bobAt draw received), []⟩) ∧
      step symbolicParties world (.deliver before.length fresh) =
        some { world with
          store := update world.store .bob stored
          sent := before ++ [sentAt count ptext true]
          inbox := update world.inbox .bob (bobInbox received)
          ratchetKeys := fresh :: world.ratchetKeys } := by
  have found : world.sent[before.length]? = some (sentAt count ptext false) := by
    rw [sent, getElem?_append_right (Nat.le_refl _), Nat.sub_self]
    rfl
  rcases @deliver_eq _ _ _ symbolicParties world _ _ before.length _ (bobAt draw window) _ fresh
    ptext found loaded rfl
    (decryptMessage_bobAt sound nextSmall countSmall taken .preKey fresh) with
    ⟨stored, storedLoaded, stepped⟩
  refine ⟨stored, storedLoaded, ?_⟩
  have receives := receive_bobInbox taken
  have number := number_outerAt countSmall ptext
  have isBob : (sentAt count ptext false).sender.other = .bob := rfl
  rw [stepped, number]
  simp only [isBob, inbox, sent, set_append_right _ _ (Nat.le_refl _), Nat.sub_self,
    set_cons_zero]
  change some { world with
    store := update world.store .bob stored
    sent := _
    inbox := update world.inbox .bob (((bobInbox window).receive
      symbolicParties.setting.limits (11 : ℕ) count).getD (bobInbox window))
    ratchetKeys := _ } = _
  rw [receives]
  rfl

theorem inOrder_round {count : ℕ} (inOrder : InOrder count world)
    (small : count < UInt32.size) :
    ∃ events next, Meets (step symbolicParties) Fresh world events ∧
      run (step symbolicParties) world events = some next ∧
      InOrder (count + 1) next := by
  rcases inOrder.bob with ⟨draw, window, sound, rfl, skipped, forgotten, inbox, loaded⟩
  rcases encrypt_aliceAt (Text.plain 0) inOrder.alice with ⟨one, loadedOne, stepOne⟩
  have taken := Window.receive_at_next consts.MAX_MESSAGE_KEYS (some consts.MAX_FORWARD_JUMPS)
    window
  rcases @deliver_bobAt { world with
      store := update world.store .alice one
      sent := world.sent ++ [sentAt window.next (.plain 0) false] }
    draw window.next (20 + window.next) window window.takeNext (Text.plain 0) world.sent rfl loaded
    inbox sound small small taken with ⟨two, loadedTwo, stepTwo⟩
  have fresh : ((20 + window.next : ℕ) : symbolic.PublicKey) ∉ world.ratchetKeys := by
    intro member
    exact Nat.lt_irrefl _ (inOrder.keys _ member)
  refine ⟨[.encrypt .alice (Text.plain 0) 0 (0 : ℕ),
      .deliver world.sent.length (20 + window.next : ℕ)], _,
    meets_cons True.intro stepOne
      (meets_cons fresh stepTwo True.intro),
    run_cons stepOne (run_cons stepTwo (run_nil _)),
    loadedOne, ⟨draw, window.takeNext, sound.takeNext, rfl, skipped, forgotten, rfl, loadedTwo⟩, ?_⟩
  intro key member
  rcases mem_cons.mp member with rfl | earlier
  · omega
  · have bound := inOrder.keys key earlier
    omega

theorem inOrder_first :
    ∃ events next,
      Meets (step symbolicParties) Fresh (symbolicParties.initial symbolicStore)
        events ∧
      run (step symbolicParties) (symbolicParties.initial symbolicStore) events =
        some next ∧ InOrder 1 next := by
  rcases @encrypt_aliceAt (symbolicParties.initial symbolicStore) 0 (Text.plain 0) loadedAlice with
    ⟨one, loadedOne, stepOne⟩
  rcases @deliver_eq _ _ _ symbolicParties { symbolicParties.initial symbolicStore with
      store := update symbolicStore .alice one
      sent := [sentAt 0 (.plain 0) false] } _ _ 0 _ bobSession
    (bobAt 20 ⟨1, [], [], [0]⟩) (20 : ℕ) (Text.plain 0) rfl loadedBob rfl
    (decryptMessage_bobSession (by decide) rfl .preKey) with ⟨two, loadedTwo, stepTwo⟩
  have fresh : (20 : ℕ) ∉ [11, 3] := by decide
  refine ⟨[.encrypt .alice (Text.plain 0) 0 (0 : ℕ), .deliver 0 (20 : ℕ)], _,
    meets_cons True.intro stepOne
      (meets_cons fresh stepTwo True.intro),
    run_cons stepOne (run_cons stepTwo (run_nil _)),
    loadedOne, ⟨20, ⟨1, [], [], [0]⟩, ?_, rfl, rfl, rfl, rfl, loadedTwo⟩, ?_⟩
  · exact (Window.sound_new consts.MAX_MESSAGE_KEYS).takeNext
  · intro key member
    rcases mem_cons.mp member with rfl | earlier
    · exact (by decide : 20 < 21)
    · have bound : ∀ key ∈ [11, 3], key < 21 := by decide
      exact bound key earlier

theorem inOrder_run {count : ℕ} (started : 1 ≤ count) (small : count < UInt32.size) :
    ∃ events next,
      Meets (step symbolicParties) Fresh (symbolicParties.initial symbolicStore)
        events ∧
      run (step symbolicParties) (symbolicParties.initial symbolicStore) events =
        some next ∧ InOrder count next := by
  induction count, started using Nat.le_induction with
  | base => exact inOrder_first
  | succ count started ih =>
    rcases ih (Nat.lt_of_succ_lt small) with ⟨events, middle, meets, reached, inOrder⟩
    rcases inOrder_round inOrder (Nat.lt_of_succ_lt small) with
      ⟨round, next, roundMeets, roundReached, after⟩
    exact ⟨events ++ round, next, meets_append meets reached roundMeets,
      run_append reached roundReached, after⟩

/-- Once the index has wrapped, a skipped message counts as one that is far ahead. -/
theorem decryptMessage_bobAt_wrapped {draw count : ℕ} {window : Window}
    (wraps : count + 2 = UInt32.size) (next : window.next = count + 2) (ptext : Text)
    (messageType : CiphertextMessageType) (ourNewEphemeral : ℕ) (result : Text)
    (updated : SessionState symbolic) :
    (bobAt draw window).decryptMessage (innerAt count ptext) messageType ourNewEphemeral ≠
      .ok (result, updated) := by
  intro succeeded
  rcases SessionState.decrypts_of_eq_ok succeeded with ⟨steps⟩
  have chain := @SessionState.getOrCreateChainKey_following_some symbolic (bobTurned draw)
    (fun _ => chainSecret) (bobInbox window) (11 : ℕ) window (nodup_bobInbox window)
    (find_bobInbox window) ourNewEphemeral
  have looked := Except.ok.inj (steps.chainKey_eq.symm.trans chain)
  have chainKeyEq : steps.chainKey = keyAt chainSecret window.next := congrArg Prod.fst looked
  have chainedEq : steps.chained = bobAt draw window := congrArg Prod.snd looked
  have generated := steps.generator_eq
  rw [chainKeyEq, chainedEq] at generated
  have index : (keyAt chainSecret window.next : ChainKey symbolic).index = 0 := by
    change UInt32.ofNat window.next = 0
    rw [next, wraps]
    rfl
  have countEq : count = 4294967294 := by
    change count + 2 = 4294967296 at wraps
    omega
  have counter : UInt32.ofNat count = 4294967294 := by
    rw [countEq]
    rfl
  have failed : (bobAt draw window).getOrCreateMessageKey (11 : ℕ) messageType
      (keyAt chainSecret window.next) (UInt32.ofNat count) =
        .error (.invalidMessage messageType "message from too far into the future") := by
    unfold SessionState.getOrCreateMessageKey
    rw [index, counter]
    rfl
  cases generated.symm.trans failed

/-- The last but one message of a chain is skipped and its key is kept, but it is refused. -/
theorem skipped_before_wrap_refused :
    Established symbolicParties symbolicStore ∧
      ∃ events final, ∃ position : ℕ, ∃ sent,
        Meets (step symbolicParties) Fresh (symbolicParties.initial symbolicStore)
          events ∧
        run (step symbolicParties) (symbolicParties.initial symbolicStore) events =
          some final ∧
        final.sent[position]? = some sent ∧ sent.accepted = false ∧
        sent.ratchetKey ∉ (final.inbox sent.sender.other).dropped ∧
        sent.number ∉ ((final.inbox sent.sender.other).window sent.ratchetKey).forgotten ∧
        sent.number ≤ ((final.inbox sent.sender.other).window sent.ratchetKey).next +
          consts.MAX_FORWARD_JUMPS ∧
        ∀ ourNewEphemeral,
          (final.decrypt symbolicParties sent ourNewEphemeral).1 ≠ .ok sent.ptext := by
  refine ⟨symbolic_established, ?_⟩
  have ⟨count, wraps⟩ : ∃ count, count + 2 = UInt32.size := ⟨4294967294, rfl⟩
  have countEq : count = 4294967294 := by
    change count + 2 = 4294967296 at wraps
    omega
  rcases @inOrder_run count (by omega) (by omega) with ⟨events, world, meets, reached, inOrder⟩
  rcases inOrder.bob with ⟨draw, window, sound, rfl, skipped, forgotten, inbox, loaded⟩
  rcases encrypt_aliceAt (Text.plain 5) inOrder.alice with ⟨one, loadedOne, stepOne⟩
  let lost : Sent symbolic := sentAt window.next (.plain 5) false
  rcases @encrypt_aliceAt { world with
      store := update world.store .alice one
      sent := world.sent ++ [lost] } (window.next + 1) (Text.plain 6) loadedOne with
    ⟨two, loadedTwo, stepTwo⟩
  let received := (window.skip consts.MAX_MESSAGE_KEYS).takeNext
  have taken : window.receive consts.MAX_MESSAGE_KEYS (some consts.MAX_FORWARD_JUMPS)
      (window.next + 1) = some received := by
    simp [Window.receive, Window.skipMany, received, consts.MAX_FORWARD_JUMPS]
  rcases @deliver_bobAt { world with
      store := update (update world.store .alice one) .alice two
      sent := world.sent ++ [lost] ++
        [sentAt (window.next + 1) (.plain 6) false] }
    draw (window.next + 1) (20 + window.next) window received (Text.plain 6)
    (world.sent ++ [lost]) rfl loaded inbox sound (by omega) (by omega) taken with
    ⟨three, loadedThree, stepThree⟩
  have fresh : ((20 + window.next : ℕ) : symbolic.PublicKey) ∉ world.ratchetKeys := by
    intro member
    exact Nat.lt_irrefl _ (inOrder.keys _ member)
  have number : lost.number = window.next := number_outerAt (by omega) _
  let last : List (Event symbolic) :=
    [.encrypt .alice (Text.plain 5) 0 (0 : ℕ), .encrypt .alice (Text.plain 6) 0 (0 : ℕ),
      .deliver (world.sent ++ [lost]).length (20 + window.next : ℕ)]
  refine ⟨events ++ last, _, world.sent.length, lost,
    meets_append meets reached (meets_cons True.intro stepOne
      (meets_cons True.intro stepTwo
        (meets_cons fresh stepThree True.intro))),
    run_append reached (run_cons stepOne
      (run_cons stepTwo (run_cons stepThree (run_nil _)))),
    ?_, rfl, not_mem_nil, ?_, ?_, ?_⟩
  · simp [lost]
  · have none : received.forgotten = [] := by
      simp [received, Window.takeNext, Window.skip, skipped, forgotten, consts.MAX_MESSAGE_KEYS]
    change lost.number ∉ received.forgotten
    rw [none]
    exact not_mem_nil
  · change lost.number ≤ window.next + 1 + 1 + consts.MAX_FORWARD_JUMPS
    rw [number]
    omega
  · intro ourNewEphemeral succeeded
    rcases @messageDecrypt_error _ _ _ _ _ _ _ (outerAt window.next (.plain 5)) loadedThree rfl
      (decryptMessage_bobAt_wrapped wraps rfl (Text.plain 5) .preKey ourNewEphemeral) with
      ⟨error, failed⟩
    have refused := congrArg Prod.fst failed
    cases refused.symm.trans succeeded

end Symbolic

end Delivery

end LegacySignal
