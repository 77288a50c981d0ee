import LegacySignal.Protocol.Endpoint

/-!
# Two ends and the letters between them

Both ends of a session stand on the two newest rungs of one ladder, every
message that was sent is a letter of one of the rungs, and each end has taken
exactly the letters that were accepted. Encrypting adds a letter. Delivering a
letter that the inbox takes returns its plaintext; the receiver may move to a
new rung by that. All of this is kept.
-/

namespace LegacySignal

open ReceiveWindow Function List

variable {P : Primitives}

structure Sent (P : Primitives) where
  sender : Side
  message : CiphertextMessage P
  ptext : P.Bytes
  /-- A delivery has returned a plaintext. -/
  accepted : Bool

namespace Sent

def ratchetKey (sent : Sent P) : P.PublicKey := sent.message.inner.content.senderRatchetKey

def number (sent : Sent P) : ℕ := sent.message.inner.content.counter.toNat

def accept (sent : Sent P) : Sent P := { sent with accepted := true }

end Sent

/-- A sent message with the letter that it protects. -/
structure Entry (P : Primitives) where
  sent : Sent P
  letter : Letter P

namespace Entry

def accept (entry : Entry P) : Entry P := { entry with sent := entry.sent.accept }

def point (entry : Entry P) : P.PublicKey × ℕ := (entry.letter.ratchetKey, entry.letter.number)

def isPending (side : Side) (entry : Entry P) : Bool :=
  entry.sent.sender = side && !entry.sent.accepted

end Entry

/-- What the post-quantum ratchet of the side has sent and the other side has not received. -/
def pending (entries : List (Entry P)) (side : Side) : List (P.PqMessage × Option P.Secret) :=
  (entries.filter (Entry.isPending side)).map fun entry =>
    (entry.letter.pqRatchet, entry.letter.pqrKey)

theorem pending_append (before after : List (Entry P)) (side : Side) :
    pending (before ++ after) side = pending before side ++ pending after side := by
  simp only [pending, filter_append, map_append]

variable {entry : Entry P} {side : Side}

theorem pending_cons_of_isPending (isPending : entry.isPending side = true)
    (rest : List (Entry P)) :
    pending (entry :: rest) side =
      (entry.letter.pqRatchet, entry.letter.pqrKey) :: pending rest side := by
  simp only [pending, filter_cons_of_pos isPending, map_cons]

theorem pending_cons_of_not_isPending (notPending : entry.isPending side = false)
    (rest : List (Entry P)) :
    pending (entry :: rest) side = pending rest side := by
  simp only [pending, filter_cons, notPending, Bool.false_eq_true, if_false]

/-- The message is a letter of one of the rungs, from its owner to the other side. -/
structure Genuine (setting : Setting P) (rungs : List (Rung P)) (entry : Entry P) : Prop where
  letterOf : ∃ rung ∈ rungs, rung.owner = entry.sent.sender ∧
    entry.letter.ratchetKey = rung.publicKey ∧
    entry.sent.message.inner = entry.letter.message rung.chain
      (setting.identity entry.sent.sender) (setting.identity entry.sent.sender.other)
  ptext : entry.letter.ptext = entry.sent.ptext
  small : entry.letter.number + 1 < UInt32.size
  wrapped : Endpoint.WrappedFor setting entry.sent.sender entry.sent.message

namespace Genuine

variable {setting : Setting P} {rungs : List (Rung P)} (genuine : Genuine setting rungs entry)

include genuine

theorem mono {more : List (Rung P)} (subset : ∀ rung ∈ rungs, rung ∈ more) :
    Genuine setting more entry := by
  rcases genuine.letterOf with ⟨rung, member, letterOf⟩
  exact ⟨⟨rung, subset rung member, letterOf⟩, genuine.ptext, genuine.small, genuine.wrapped⟩

theorem accept : Genuine setting rungs entry.accept :=
  ⟨genuine.letterOf, genuine.ptext, genuine.small, genuine.wrapped⟩

theorem ratchetKey : entry.sent.ratchetKey = entry.letter.ratchetKey := by
  rcases genuine.letterOf with ⟨rung, _, _, _, message⟩
  rw [Sent.ratchetKey, message]
  rfl

theorem number : entry.sent.number = entry.letter.number := by
  rcases genuine.letterOf with ⟨rung, _, _, _, message⟩
  rw [Sent.number, message]
  exact UInt32.toNat_ofNat_of_lt' (Nat.lt_of_succ_lt genuine.small)

end Genuine

/-- The messages so far, and what each side has taken of them. -/
structure Mail (setting : Setting P) (rungs : List (Rung P)) (inbox : Side → Inbox P.PublicKey)
    (entries : List (Entry P)) : Prop where
  genuine : ∀ entry ∈ entries, Genuine setting rungs entry
  distinct : (entries.map Entry.point).Nodup
  spent : ∀ entry ∈ entries, entry.sent.accepted = true →
    (inbox entry.sent.sender.other).Known entry.letter.ratchetKey
  taken : ∀ entry ∈ entries, entry.sent.accepted = true → ∀ window,
    (inbox entry.sent.sender.other).find entry.letter.ratchetKey = some window →
      entry.letter.number ∈ window.taken
  received : ∀ side key window, (inbox side).find key = some window →
    ∀ number ∈ window.taken, ∃ entry ∈ entries, entry.point = (key, number) ∧
      entry.sent.accepted = true

namespace Mail

variable {setting : Setting P} {rungs : List (Rung P)} {inbox : Side → Inbox P.PublicKey}
  {entries : List (Entry P)}

section

variable (mail : Mail setting rungs inbox entries)

include mail

theorem mono {more : List (Rung P)} (subset : ∀ rung ∈ rungs, rung ∈ more) :
    Mail setting more inbox entries :=
  ⟨fun entry member => (mail.genuine entry member).mono subset, mail.distinct, mail.spent,
    mail.taken, mail.received⟩

theorem send (genuine : Genuine setting rungs entry) (unaccepted : entry.sent.accepted = false)
    (unsent : entry.point ∉ entries.map Entry.point) :
    Mail setting rungs inbox (entries ++ [entry]) := by
  have earlier : ∀ one ∈ entries ++ [entry], one.sent.accepted = true → one ∈ entries := by
    intro one member accepted
    rcases mem_append.mp member with before | last
    · exact before
    · rw [mem_singleton.mp last, unaccepted] at accepted
      cases accepted
  refine ⟨?_, ?_, ?_, ?_, ?_⟩
  · intro one member
    rcases mem_append.mp member with before | last
    · exact mail.genuine one before
    · rw [mem_singleton.mp last]
      exact genuine
  · rw [map_append, map_singleton, nodup_append]
    refine ⟨mail.distinct, nodup_singleton _, ?_⟩
    rintro point before last isLast rfl
    rw [mem_singleton.mp isLast] at before
    exact unsent before
  · intro one member accepted
    exact mail.spent one (earlier one member accepted) accepted
  · intro one member accepted
    exact mail.taken one (earlier one member accepted) accepted
  · intro side key window found number isTaken
    rcases mail.received side key window found number isTaken with ⟨one, present, same⟩
    exact ⟨one, mem_append_left _ present, same⟩

theorem not_taken (member : entry ∈ entries) (unaccepted : entry.sent.accepted = false)
    (side : Side) :
    entry.letter.number ∉ ((inbox side).window entry.letter.ratchetKey).taken := by
  intro isTaken
  unfold Inbox.window at isTaken
  cases found : (inbox side).find entry.letter.ratchetKey with
  | none =>
    rw [found] at isTaken
    cases isTaken
  | some window =>
    rw [found] at isTaken
    rcases mail.received side _ window found _ isTaken with ⟨one, present, point, accepted⟩
    have same := inj_on_of_nodup_map mail.distinct present member point
    rw [same, unaccepted] at accepted
    cases accepted

theorem refused {limits : Limits} (member : entry ∈ entries) (accepted : entry.sent.accepted = true)
    (sound : (inbox entry.sent.sender.other).Sound limits) :
    (inbox entry.sent.sender.other).receive limits entry.letter.ratchetKey entry.letter.number =
      none :=
  sound.receive_of_spent (mail.spent entry member accepted) (mail.taken entry member accepted)

end

section Accept

variable {before after : List (Entry P)} {one : Entry P}

theorem mem_accept (member : one ∈ before ++ entry.accept :: after) :
    one = entry.accept ∨ one ∈ before ++ entry :: after := by
  rcases mem_append.mp member with earlier | rest
  · exact Or.inr (mem_append_left _ earlier)
  · rcases mem_cons.mp rest with same | later
    · exact Or.inl same
    · exact Or.inr (mem_append_right _ (mem_cons_of_mem _ later))

theorem accepted_kept (member : one ∈ before ++ entry :: after)
    (accepted : one.sent.accepted = true) :
    ∃ kept ∈ before ++ entry.accept :: after, kept.point = one.point ∧
      kept.sent.accepted = true := by
  rcases mem_append.mp member with earlier | rest
  · exact ⟨one, mem_append_left _ earlier, rfl, accepted⟩
  · rcases mem_cons.mp rest with rfl | later
    · exact ⟨one.accept, mem_append_right _ mem_cons_self, rfl, rfl⟩
    · exact ⟨one, mem_append_right _ (mem_cons_of_mem _ later), rfl, accepted⟩

theorem accept (mail : Mail setting rungs inbox (before ++ entry :: after)) {limits : Limits}
    (room : 0 < limits.streams) (sound : (inbox entry.sent.sender.other).Sound limits)
    {next : Inbox P.PublicKey}
    (receives : (inbox entry.sent.sender.other).receive limits entry.letter.ratchetKey
      entry.letter.number = some next) :
    Mail setting rungs (update inbox entry.sent.sender.other next)
      (before ++ entry.accept :: after) := by
  have present : entry ∈ before ++ entry :: after :=
    mem_append_right _ mem_cons_self
  refine ⟨?_, ?_, ?_, ?_, ?_⟩
  · intro one member
    rcases mem_accept member with rfl | old
    · exact (mail.genuine entry present).accept
    · exact mail.genuine one old
  · have points := mail.distinct
    rw [map_append, map_cons] at points ⊢
    exact points
  · intro one member accepted
    rcases mem_accept member with rfl | old
    · rw [show entry.accept.sent.sender = entry.sent.sender from rfl, update_self]
      exact (Inbox.known_receive receives).mpr (Or.inl rfl)
    · have known := mail.spent one old accepted
      by_cases same : one.sent.sender.other = entry.sent.sender.other
      · rw [same] at known ⊢
        rw [update_self]
        exact (Inbox.known_receive receives).mpr (Or.inr known)
      · rw [update_of_ne same]
        exact known
  · intro one member accepted window found
    rcases mem_accept member with rfl | old
    · rw [show entry.accept.sent.sender = entry.sent.sender from rfl, update_self] at found
      rcases Inbox.find_receive room sound.streams_nodup receives found with
        ⟨_, taken⟩ | ⟨different, _⟩
      · rw [taken]
        exact mem_cons_self
      · exact absurd rfl different
    · have known := mail.spent one old accepted
      have isTaken := mail.taken one old accepted
      by_cases same : one.sent.sender.other = entry.sent.sender.other
      · rw [same] at known isTaken found
        rw [update_self] at found
        rcases Inbox.find_receive room sound.streams_nodup receives found with
          ⟨stream, taken⟩ | ⟨_, unchanged⟩
        · rw [stream] at known isTaken
          rw [taken]
          apply mem_cons_of_mem
          rcases Inbox.receive_eq_some receives with ⟨old, _, wasFound, _⟩ | ⟨unknown, _⟩
          · rw [Inbox.window, wasFound]
            exact isTaken old wasFound
          · exact absurd known unknown
        · exact isTaken window unchanged
      · rw [update_of_ne same] at found
        exact isTaken window found
  · intro side key window found number isTaken
    have earlier : ∀ old, (inbox side).find key = some old → number ∈ old.taken →
        ∃ one ∈ before ++ entry.accept :: after, one.point = (key, number) ∧
          one.sent.accepted = true := by
      intro old wasFound wasTaken
      rcases mail.received side key old wasFound number wasTaken with
        ⟨one, member, point, accepted⟩
      rcases accepted_kept member accepted with ⟨kept, keptMember, same, keptAccepted⟩
      exact ⟨kept, keptMember, same.trans point, keptAccepted⟩
    by_cases same : side = entry.sent.sender.other
    · subst same
      rw [update_self] at found
      rcases Inbox.find_receive room sound.streams_nodup receives found with
        ⟨rfl, taken⟩ | ⟨_, unchanged⟩
      · rw [taken] at isTaken
        rcases mem_cons.mp isTaken with rfl | wasTaken
        · exact ⟨entry.accept, mem_append_right _ mem_cons_self, rfl, rfl⟩
        · unfold Inbox.window at wasTaken
          cases wasFound : (inbox entry.sent.sender.other).find entry.letter.ratchetKey with
          | none =>
            rw [wasFound] at wasTaken
            cases wasTaken
          | some old =>
            rw [wasFound] at wasTaken
            exact earlier old wasFound wasTaken
      · exact earlier window unchanged isTaken
    · rw [update_of_ne same] at found
      exact earlier window found isTaken

end Accept

end Mail

/-- A state of the whole session, with what only the proof knows of it. -/
structure Ghost (P : Primitives) where
  states : Side → SessionState P
  inbox : Side → Inbox P.PublicKey
  counts : Side → ℕ
  start : P.PublicKey → P.Secret
  /-- The side that stands on the top rung; the other one stands on the second. -/
  ahead : Side
  top : Rung P
  second : Rung P
  older : List (Rung P)
  entries : List (Entry P)

namespace Ghost

def rungs (ghost : Ghost P) : List (Rung P) := ghost.top :: ghost.second :: ghost.older

def rung (ghost : Ghost P) (side : Side) : Rung P :=
  if side = ghost.ahead then ghost.top else ghost.second

/-- The post-quantum states of the two sides agree on the letters that were not yet taken. -/
def Linked (link : P.PqLink) (states : Side → SessionState P) (entries : List (Entry P)) : Prop :=
  ∀ side, link.Linked (states side).pqRatchetState (states side.other).pqRatchetState
    (pending entries side) (pending entries side.other)

structure Synced (setting : Setting P) (link : P.PqLink) (ratchetKeys : List P.PublicKey)
    (ghost : Ghost P) : Prop where
  ladder : Ladder ghost.rungs
  owner : ghost.top.owner = ghost.ahead
  endpoint : ∀ side, Endpoint setting ghost.start side (ghost.rung side) (ghost.counts side)
    (ghost.inbox side) (ghost.states side)
  count_lt : ∀ side, ghost.counts side < UInt32.size
  starts : ∀ rung ∈ ghost.rungs, ghost.start rung.publicKey = rung.chain
  known : ∀ side key, (ghost.inbox side).Known key ↔
    ∃ rung ∈ ghost.second :: ghost.older, rung.owner = side.other ∧ rung.publicKey = key
  generated : ∀ rung ∈ ghost.rungs, rung.publicKey ∈ ratchetKeys
  mail : Mail setting ghost.rungs ghost.inbox ghost.entries
  numbers : ∀ entry ∈ ghost.entries,
    entry.letter.ratchetKey = (ghost.rung entry.sent.sender).publicKey →
      entry.letter.number < ghost.counts entry.sent.sender
  linked : Linked link ghost.states ghost.entries

variable {setting : Setting P} {link : P.PqLink} {ratchetKeys : List P.PublicKey} {ghost : Ghost P}
  {sent : SessionState P} {random : P.Random}

theorem linked_of_side {states : Side → SessionState P} {entries : List (Entry P)} (side : Side)
    (linked : link.Linked (states side).pqRatchetState (states side.other).pqRatchetState
      (pending entries side) (pending entries side.other)) : Linked link states entries := by
  intro one
  rcases side.eq_or_eq_other one with rfl | rfl
  · exact linked
  · rw [Side.other_other]
    exact link.symm linked

/-- The state after the side has sent a message. -/
def encrypted (ghost : Ghost P) (side : Side) (state : SessionState P) (entry : Entry P) :
    Ghost P :=
  { ghost with
    states := update ghost.states side state
    counts := update ghost.counts side (ghost.counts side + 1)
    entries := ghost.entries ++ [entry] }

theorem Synced.owner_second (synced : ghost.Synced setting link ratchetKeys) :
    ghost.second.owner = ghost.ahead.other := by
  have alternate := synced.ladder.owner_second
  rw [synced.owner] at alternate
  rw [alternate, Side.other_other]

theorem rung_mem (side : Side) : ghost.rung side ∈ ghost.rungs := by
  unfold Ghost.rung Ghost.rungs
  split <;> simp

section

variable (synced : ghost.Synced setting link ratchetKeys)

include synced

theorem Synced.owner_rung (side : Side) : (ghost.rung side).owner = side := by
  unfold Ghost.rung
  split
  · rename_i isAhead
    exact synced.owner.trans isAhead.symm
  · rename_i notAhead
    rcases ghost.ahead.eq_or_eq_other side with same | other
    · exact absurd same notAhead
    · exact synced.owner_second.trans other.symm

theorem Synced.rung_of_key (member : entry ∈ ghost.entries) {rung : Rung P}
    (present : rung ∈ ghost.rungs) (key : entry.letter.ratchetKey = rung.publicKey) :
    rung.owner = entry.sent.sender ∧ entry.sent.message.inner = entry.letter.message rung.chain
      (setting.identity entry.sent.sender) (setting.identity entry.sent.sender.other) := by
  rcases (synced.mail.genuine entry member).letterOf with ⟨own, ownPresent, owner, ownKey, message⟩
  have same := inj_on_of_nodup_map synced.ladder.nodup_publicKeys ownPresent present
    (ownKey.symm.trans key)
  subst same
  exact ⟨owner, message⟩

theorem Synced.next_unsent (side : Side) :
    ((ghost.rung side).publicKey, ghost.counts side) ∉ ghost.entries.map Entry.point := by
  intro member
  rcases mem_map.mp member with ⟨earlier, present, same⟩
  have key : earlier.letter.ratchetKey = (ghost.rung side).publicKey := congrArg Prod.fst same
  have sender := (synced.rung_of_key present (rung_mem side) key).1
  rw [synced.owner_rung side] at sender
  subst sender
  have number : earlier.letter.number = ghost.counts earlier.sent.sender := congrArg Prod.snd same
  have before := synced.numbers earlier present key
  omega

theorem Synced.linked_encrypted (sender : entry.sent.sender = side)
    (unaccepted : entry.sent.accepted = false)
    (sends : P.pqSend (ghost.states side).pqRatchetState random =
      some (sent.pqRatchetState, entry.letter.pqRatchet, entry.letter.pqrKey))
    : Linked link (ghost.encrypted side sent entry).states (ghost.entries ++ [entry]) := by
  apply linked_of_side side
  have outgoing : pending (ghost.entries ++ [entry]) side =
      pending ghost.entries side ++ [(entry.letter.pqRatchet, entry.letter.pqrKey)] := by
    rw [pending_append, pending_cons_of_isPending (by simp [Entry.isPending, sender, unaccepted])]
    rfl
  have incoming : pending (ghost.entries ++ [entry]) side.other =
      pending ghost.entries side.other := by
    rw [pending_append, pending_cons_of_not_isPending (by simp [Entry.isPending, sender])]
    simp [pending]
  simp only [Ghost.encrypted, update_self, update_of_ne side.other_ne]
  rw [outgoing, incoming]
  exact link.send (synced.linked side) sends

theorem Synced.encrypted {address : SignalProtocolAddress} {ptext : P.Bytes} {now : ℕ}
    {message : CiphertextMessage P} {theirIdentityKey : P.PublicKey}
    (encrypts : (ghost.states side).encryptMessage address ptext now random =
      .ok (message, sent, theirIdentityKey))
    (room : ghost.counts side + 1 < UInt32.size) :
    ∃ letter, (ghost.encrypted side sent ⟨⟨side, message, ptext, false⟩, letter⟩).Synced setting
      link ratchetKeys := by
  rcases (synced.endpoint side).encryptMessage encrypts with
    ⟨letter, ratchetKey, number, letterText, wrapped, inner, sends, endpoint⟩
  let entry : Entry P := ⟨⟨side, message, ptext, false⟩, letter⟩
  have genuine : Genuine setting ghost.rungs entry :=
    ⟨⟨ghost.rung side, rung_mem side, synced.owner_rung side, ratchetKey, inner⟩, letterText,
      number ▸ room, wrapped⟩
  have unsent : entry.point ∉ ghost.entries.map Entry.point := by
    have point : entry.point = ((ghost.rung side).publicKey, ghost.counts side) :=
      Prod.ext ratchetKey number
    rw [point]
    exact synced.next_unsent side
  have counted : ∀ other, ghost.counts other ≤
      update ghost.counts side (ghost.counts side + 1) other := by
    intro other
    by_cases same : other = side
    · subst same
      rw [update_self]
      omega
    · rw [update_of_ne same]
  refine ⟨letter, synced.ladder, synced.owner, ?_, ?_, synced.starts, synced.known,
    synced.generated, synced.mail.send genuine rfl unsent, ?_,
    synced.linked_encrypted rfl rfl sends⟩
  · intro other
    simp only [Ghost.encrypted]
    by_cases same : other = side
    · subst same
      rw [update_self, update_self]
      exact endpoint
    · rw [update_of_ne same, update_of_ne same]
      exact synced.endpoint other
  · intro other
    simp only [Ghost.encrypted]
    by_cases same : other = side
    · subst same
      rw [update_self]
      exact room
    · rw [update_of_ne same]
      exact synced.count_lt other
  · intro one member key
    rcases mem_append.mp member with earlier | last
    · exact Nat.lt_of_lt_of_le (synced.numbers one earlier key) (counted _)
    · rw [mem_singleton.mp last]
      simp only [Ghost.encrypted, update_self, number]
      omega

end

section Deliver

variable {before after : List (Entry P)} {updated : SessionState P} {next : Inbox P.PublicKey}

theorem pending_accept (side : Side) :
    pending (before ++ entry.accept :: after) side = pending before side ++ pending after side := by
  rw [pending_append, pending_cons_of_not_isPending (by simp [Entry.isPending, Entry.accept,
    Sent.accept])]

theorem Synced.pqRecv (synced : ghost.Synced setting link ratchetKeys)
    (split : ghost.entries = before ++ entry :: after)
    (unaccepted : entry.sent.accepted = false) :
    ∃ pqState, P.pqRecv (ghost.states entry.sent.sender.other).pqRatchetState
        entry.letter.pqRatchet = .ok (pqState, entry.letter.pqrKey) ∧
      ∀ updated : SessionState P, updated.pqRatchetState = pqState →
        Linked link (update ghost.states entry.sent.sender.other updated)
          (before ++ entry.accept :: after) := by
  have linked := synced.linked entry.sent.sender
  rw [split, pending_append, pending_append,
    pending_cons_of_isPending (by simp [Entry.isPending, unaccepted]),
    pending_cons_of_not_isPending (by simp [Entry.isPending])] at linked
  rcases link.receive linked with ⟨pqState, recv, received⟩
  refine ⟨pqState, recv, ?_⟩
  intro updated updatedEq
  apply linked_of_side entry.sent.sender
  rw [update_self, update_of_ne (Side.ne_other _), pending_accept,
    pending_accept, updatedEq]
  exact received

/-- The state after the receiver has taken a letter of a chain that it follows. -/
def followed (ghost : Ghost P) (side : Side) (state : SessionState P) (next : Inbox P.PublicKey)
    (entries : List (Entry P)) : Ghost P :=
  { ghost with
    states := update ghost.states side state
    inbox := update ghost.inbox side next
    entries := entries }

theorem Synced.followed (synced : ghost.Synced setting link ratchetKeys)
    (split : ghost.entries = before ++ entry :: after)
    (receives : (ghost.inbox entry.sent.sender.other).receive setting.limits
      entry.letter.ratchetKey entry.letter.number = some next)
    (isKnown : (ghost.inbox entry.sent.sender.other).Known entry.letter.ratchetKey)
    (endpoint : Endpoint setting ghost.start entry.sent.sender.other
      (ghost.rung entry.sent.sender.other) (ghost.counts entry.sent.sender.other) next updated)
    (linked : Linked link (update ghost.states entry.sent.sender.other updated)
      (before ++ entry.accept :: after)) :
    (ghost.followed entry.sent.sender.other updated next
      (before ++ entry.accept :: after)).Synced setting link ratchetKeys := by
  have mail := synced.mail
  rw [split] at mail
  refine ⟨synced.ladder, synced.owner, ?_, synced.count_lt, synced.starts, ?_, synced.generated,
    mail.accept setting.streams_pos (synced.endpoint _).sound receives, ?_, linked⟩
  · intro side
    simp only [Ghost.followed]
    by_cases same : side = entry.sent.sender.other
    · subst same
      rw [update_self, update_self]
      exact endpoint
    · rw [update_of_ne same, update_of_ne same]
      exact synced.endpoint side
  · intro side key
    simp only [Ghost.followed]
    rw [← synced.known side key]
    by_cases same : side = entry.sent.sender.other
    · subst same
      rw [update_self, Inbox.known_receive receives]
      constructor
      · rintro (rfl | known)
        · exact isKnown
        · exact known
      · exact Or.inr
    · rw [update_of_ne same]
  · intro one member key
    rcases Mail.mem_accept member with rfl | old
    · exact synced.numbers entry (split ▸ mem_append_right _ mem_cons_self) key
    · exact synced.numbers one (split ▸ old) key

theorem Synced.known_ne (synced : ghost.Synced setting link ratchetKeys) {side : Side}
    {key fresh : P.PublicKey} (notGenerated : fresh ∉ ratchetKeys)
    (known : (ghost.inbox side).Known key) : key ≠ fresh := by
  rcases (synced.known side key).mp known with ⟨rung, present, _, rfl⟩
  rintro rfl
  exact notGenerated (synced.generated rung (mem_cons_of_mem _ present))

/-- The state after the receiver has taken the first letter of the top rung. -/
def turned (ghost : Ghost P) (side : Side) (state : SessionState P) (next : Inbox P.PublicKey)
    (ourNewEphemeral : P.PrivateKey) (entries : List (Entry P)) : Ghost P where
  states := update ghost.states side state
  inbox := update ghost.inbox side next
  counts := update ghost.counts side 0
  start := update ghost.start (P.publicKey ourNewEphemeral)
    (ghost.top.next ourNewEphemeral).chain
  ahead := side
  top := ghost.top.next ourNewEphemeral
  second := ghost.top
  older := ghost.second :: ghost.older
  entries := entries

theorem rung_turned_self (side : Side) (state : SessionState P) (next : Inbox P.PublicKey)
    (ourNewEphemeral : P.PrivateKey) (entries : List (Entry P)) :
    (ghost.turned side state next ourNewEphemeral entries).rung side =
      ghost.top.next ourNewEphemeral :=
  if_pos rfl

theorem rung_turned_of_ne {side one : Side} (different : one ≠ side) (state : SessionState P)
    (next : Inbox P.PublicKey) (ourNewEphemeral : P.PrivateKey) (entries : List (Entry P)) :
    (ghost.turned side state next ourNewEphemeral entries).rung one = ghost.top :=
  if_neg different

section

variable (synced : ghost.Synced setting link ratchetKeys)

include synced

theorem Synced.turned (split : ghost.entries = before ++ entry :: after)
    {ourNewEphemeral : P.PrivateKey} (fresh : P.publicKey ourNewEphemeral ∉ ratchetKeys)
    (isAhead : entry.sent.sender = ghost.ahead)
    (isTop : entry.letter.ratchetKey = ghost.top.publicKey)
    (receives : (ghost.inbox entry.sent.sender.other).receive setting.limits entry.letter.ratchetKey
      entry.letter.number = some next)
    (endpoint : Endpoint setting ghost.start entry.sent.sender.other
      (ghost.top.next ourNewEphemeral) 0 next updated)
    (linked : Linked link (update ghost.states entry.sent.sender.other updated)
      (before ++ entry.accept :: after)) :
    (ghost.turned entry.sent.sender.other updated next ourNewEphemeral
      (before ++ entry.accept :: after)).Synced setting link
        (P.publicKey ourNewEphemeral :: ratchetKeys) := by
  have mail := synced.mail
  rw [split] at mail
  have notRung : ∀ rung ∈ ghost.rungs, rung.publicKey ≠ P.publicKey ourNewEphemeral := by
    intro rung present same
    exact fresh (same ▸ synced.generated rung present)
  have rungSender : ghost.rung entry.sent.sender = ghost.top := if_pos isAhead
  have topOwner : ghost.top.owner = entry.sent.sender := synced.owner.trans isAhead.symm
  refine ⟨synced.ladder.climb ourNewEphemeral notRung, congrArg Side.other topOwner, ?_, ?_, ?_,
    ?_, ?_, ?_, ?_, linked⟩
  · intro side
    by_cases same : side = entry.sent.sender.other
    · subst same
      rw [rung_turned_self]
      simp only [Ghost.turned, update_self]
      apply endpoint.congr_start
      intro window member
      symm
      apply update_of_ne
      rcases (Inbox.known_receive receives).mp
        (Or.inl (mem_map_of_mem member) : next.Known window.1) with stream | known
      · rw [stream, isTop]
        exact notRung ghost.top mem_cons_self
      · exact synced.known_ne fresh known
    · have isSender : side = entry.sent.sender := by
        rcases entry.sent.sender.eq_or_eq_other side with sender | receiver
        · exact sender
        · exact absurd receiver same
      have old := synced.endpoint side
      rw [isSender, rungSender, ← isSender] at old
      rw [rung_turned_of_ne same]
      simp only [Ghost.turned, update_of_ne same]
      apply old.congr_start
      intro window member
      symm
      apply update_of_ne
      exact synced.known_ne fresh (Or.inl (mem_map_of_mem member))
  · intro side
    simp only [Ghost.turned]
    by_cases same : side = entry.sent.sender.other
    · subst same
      rw [update_self]
      decide
    · rw [update_of_ne same]
      exact synced.count_lt side
  · intro rung present
    simp only [Ghost.turned]
    rcases mem_cons.mp present with rfl | old
    · exact update_self _ _ _
    · rw [update_of_ne (notRung rung old)]
      exact synced.starts rung old
  · intro side key
    simp only [Ghost.turned]
    rw [exists_mem_cons_iff, ← synced.known side key, topOwner]
    by_cases same : side = entry.sent.sender.other
    · subst same
      rw [update_self, Inbox.known_receive receives, Side.other_other, isTop]
      simp only [true_and, eq_comm]
    · have isSender := entry.sent.sender.eq_or_eq_other side
      rw [update_of_ne same, isSender.resolve_right same]
      simp only [Side.ne_other, false_and, false_or]
  · intro rung present
    rcases mem_cons.mp present with rfl | old
    · exact mem_cons_self
    · exact mem_cons_of_mem _ (synced.generated rung old)
  · exact (mail.accept setting.streams_pos (synced.endpoint _).sound receives).mono
      fun rung present => mem_cons_of_mem _ present
  · have numbers : ∀ one ∈ ghost.entries,
        one.letter.ratchetKey = ((ghost.turned entry.sent.sender.other updated next
          ourNewEphemeral (before ++ entry.accept :: after)).rung one.sent.sender).publicKey →
        one.letter.number <
          update ghost.counts entry.sent.sender.other 0 one.sent.sender := by
      intro one present key
      by_cases same : one.sent.sender = entry.sent.sender.other
      · rcases (synced.mail.genuine one present).letterOf with ⟨rung, rungPresent, _, ownKey, _⟩
        rw [same, rung_turned_self, ownKey] at key
        exact absurd key (notRung rung rungPresent)
      · have isSender := (entry.sent.sender.eq_or_eq_other one.sent.sender).resolve_right same
        rw [rung_turned_of_ne same] at key
        rw [update_of_ne same]
        apply synced.numbers one present
        rw [isSender, rungSender]
        exact key
    intro one member key
    rcases Mail.mem_accept member with rfl | old
    · exact numbers entry (split ▸ mem_append_right _ mem_cons_self) key
    · exact numbers one (split ▸ old) key

theorem Synced.more_keys (key : P.PublicKey) : ghost.Synced setting link (key :: ratchetKeys) :=
  { synced with
    generated := fun rung present => mem_cons_of_mem _ (synced.generated rung present) }

theorem Synced.inner_eq (member : entry ∈ ghost.entries) :
    entry.sent.message.inner = entry.letter.message (ghost.start entry.letter.ratchetKey)
      (setting.identity entry.sent.sender.other.other)
      (setting.identity entry.sent.sender.other) := by
  rcases (synced.mail.genuine entry member).letterOf with ⟨rung, present, _, key, message⟩
  rw [message, key, synced.starts rung present, Side.other_other]

end

theorem Synced.deliver (ideal : P.Ideal) (synced : ghost.Synced setting link ratchetKeys)
    (split : ghost.entries = before ++ entry :: after) (unaccepted : entry.sent.accepted = false)
    (receives : (ghost.inbox entry.sent.sender.other).receive setting.limits
      entry.letter.ratchetKey entry.letter.number = some next) (messageType : CiphertextMessageType)
    (ourNewEphemeral : P.PrivateKey) :
    ∃ updated, (ghost.states entry.sent.sender.other).decryptMessage entry.sent.message.inner
        messageType ourNewEphemeral = .ok (entry.sent.ptext, updated) ∧
      (P.publicKey ourNewEphemeral ∉ ratchetKeys → ∃ reached : Ghost P,
        reached.Synced setting link (P.publicKey ourNewEphemeral :: ratchetKeys) ∧
        reached.states = update ghost.states entry.sent.sender.other updated ∧
        reached.inbox = update ghost.inbox entry.sent.sender.other next ∧
        reached.entries = before ++ entry.accept :: after) := by
  have member : entry ∈ ghost.entries := split ▸ mem_append_right _ mem_cons_self
  have genuine := synced.mail.genuine entry member
  have endpoint := synced.endpoint entry.sent.sender.other
  rcases synced.pqRecv split unaccepted with ⟨pqState, recv, linked⟩
  rw [synced.inner_eq member, ← genuine.ptext]
  rcases Inbox.receive_eq_some receives with ⟨window, taken, found, takes, nextEq⟩ |
    ⟨unknown, taken, takes, nextEq⟩
  · rcases endpoint.decryptMessage_followed ideal found genuine.small takes recv with
      ⟨updated, decrypts, pqEq, endpointAfter⟩
    refine ⟨updated, decrypts, ?_⟩
    intro _
    rw [← nextEq] at endpointAfter
    have isKnown : (ghost.inbox entry.sent.sender.other).Known entry.letter.ratchetKey :=
      Or.inl (mem_map_of_mem (Inbox.mem_of_find found))
    exact ⟨_, (synced.followed split receives isKnown endpointAfter
      (linked updated pqEq)).more_keys _, rfl, rfl, rfl⟩
  · rcases genuine.letterOf with ⟨rung, present, owner, key, _⟩
    have isTop : rung = ghost.top := by
      rcases mem_cons.mp present with same | older
      · exact same
      · exact absurd ((synced.known _ _).mpr
          ⟨rung, older, owner.trans (Side.other_other _).symm, key.symm⟩) unknown
    subst isTop
    have isAhead : entry.sent.sender = ghost.ahead := owner.symm.trans synced.owner
    have rungReceiver : ghost.rung entry.sent.sender.other = ghost.second := by
      apply if_neg
      rw [isAhead]
      exact Side.other_ne _
    have climbed := synced.ladder.top_eq
    have startEq := synced.starts ghost.top mem_cons_self
    rw [rungReceiver] at endpoint
    rcases endpoint.decryptMessage_new ideal (key.trans (congrArg Rung.publicKey climbed))
      ((congrArg ghost.start key).trans (startEq.trans (congrArg Rung.chain climbed)))
      unknown genuine.small takes recv with ⟨updated, decrypts, pqEq, endpointAfter⟩
    refine ⟨updated, decrypts, ?_⟩
    intro fresh
    rw [← climbed, ← nextEq] at endpointAfter
    exact ⟨_, synced.turned split fresh isAhead key receives endpointAfter
      (linked updated pqEq), rfl, rfl, rfl⟩

theorem Synced.refuse (ideal : P.Ideal) (synced : ghost.Synced setting link ratchetKeys)
    (member : entry ∈ ghost.entries)
    (refused : (ghost.inbox entry.sent.sender.other).receive setting.limits
      entry.letter.ratchetKey entry.letter.number = none)
    (messageType : CiphertextMessageType) (ourNewEphemeral : P.PrivateKey) (ptext : P.Bytes)
    (updated : SessionState P) :
    (ghost.states entry.sent.sender.other).decryptMessage entry.sent.message.inner messageType
      ourNewEphemeral ≠ .ok (ptext, updated) := by
  have small := Nat.lt_of_succ_lt (synced.mail.genuine entry member).small
  rw [synced.inner_eq member]
  apply (synced.endpoint entry.sent.sender.other).decryptMessage_refused ideal _ small refused
  intro dropped
  rcases (synced.known _ _).mp (Or.inr dropped) with ⟨rung, present, _, key⟩
  rw [← key, synced.starts rung (mem_cons_of_mem _ present)]
  unfold Ghost.rung
  split
  · exact synced.ladder.chain_ne ideal (mem_cons_of_mem _ present) _ _
  · exact synced.ladder.tail.chain_ne ideal present _ _

end Deliver

end Ghost

end LegacySignal
