import LegacySignal.Library.Transition
import LegacySignal.Protocol.SendingPoints
import LegacySignal.Protocol.Symbolic

/-!
# Operations on one address at the same time

`MessageSender` and `MessageReceiver` work on the session of an address from
several coroutines. Each operation loads the record, and some time later
commits what it computed from the loaded copy; no lock is held in between.
What it reads of the other keys of the store in the meantime is left open.

A message is sent at a point, which is its ratchet key with its counter. No
point is used twice as long as no other operation has changed the record
between the load and the commit, and no chain sends after its last counter.
-/

namespace LegacySignal

open Transition List

variable {P : Primitives} {Store : Type} [ProtocolStore P Store]

open ProtocolStore

namespace Interleaving

inductive Operation (P : Primitives) where
  | encrypt (ptext : P.Bytes) (now : ℕ)
  | decryptSignal (ciphertext : SignalMessage P)
  | decryptPreKey (ciphertext : PreKeySignalMessage P)
  | processBundle (bundle : PreKeyBundle P) (now : ℕ)

namespace Operation

def load (store : Store) (address : SignalProtocolAddress) :
    Operation P → Except SignalProtocolError (SessionRecord P)
  | .encrypt _ _ => loadExisting store address
  | .decryptSignal _ => loadExisting store address
  | .decryptPreKey _ => loadOrFresh store address
  | .processBundle _ _ => loadOrFresh store address

/-- What the operation makes of the loaded record, with the message that it sends. -/
def update (reads : Store) (address : SignalProtocolAddress) (draw : BundleRandomness P)
    (record : SessionRecord P) :
    Operation P → Except SignalProtocolError (SessionUpdate P (Option (SignalMessage P)))
  | .encrypt ptext now =>
    (encryptUpdate reads address ptext now draw.kyber record).map
      (SessionUpdate.mapOutput fun message => some message.inner)
  | .decryptSignal ciphertext =>
    (decryptSignalUpdate reads address ciphertext draw.ratchetKey record).map
      (SessionUpdate.mapOutput fun _ => none)
  | .decryptPreKey ciphertext =>
    (decryptPreKeyUpdate reads address ciphertext draw.ratchetKey record).map
      (SessionUpdate.mapOutput fun _ => none)
  | .processBundle bundle now =>
    (preKeyBundleUpdate reads address bundle now draw record).map
      (SessionUpdate.mapOutput fun _ => none)

/-- Everything but sending on an existing session may draw a ratchet key. -/
def drawsKey : Operation P → Bool
  | .encrypt _ _ => false
  | _ => true

end Operation

def pointOf (message : SignalMessage P) : P.PublicKey × UInt32 :=
  (message.content.senderRatchetKey, message.content.counter)

structure World (P : Primitives) (Store : Type) where
  store : Store
  /-- The operations that have loaded the record, none once they are over. -/
  tasks : List (Option (Operation P × SessionRecord P))
  /-- The points of all messages that were returned. -/
  produced : List (P.PublicKey × UInt32)
  /-- The ratchet keys drawn so far. -/
  drawn : List P.PublicKey

inductive Event (P : Primitives) (Store : Type) where
  | load (operation : Operation P)
  | finish (task : ℕ) (reads : Store) (draw : BundleRandomness P)
  | deleteSession

def initial (store : Store) : World P Store := ⟨store, [], [], []⟩

/-- The points used once the operation has returned. -/
def record (produced : List (P.PublicKey × UInt32)) :
    Except SignalProtocolError (Option (SignalMessage P)) → List (P.PublicKey × UInt32)
  | .ok (some message) => pointOf message :: produced
  | _ => produced

def finish (address : SignalProtocolAddress) (world : World P Store) (task : ℕ) (reads : Store)
    (draw : BundleRandomness P) (operation : Operation P) (loaded : SessionRecord P) :
    World P Store :=
  let result := commitResult world.store address (operation.update reads address draw loaded)
  { store := result.2
    tasks := world.tasks.set task none
    produced := record world.produced result.1
    drawn := if operation.drawsKey then P.publicKey draw.ratchetKey :: world.drawn
      else world.drawn }

/-- An operation that cannot load the record is over at once. -/
def step (address : SignalProtocolAddress) (world : World P Store) :
    Event P Store → Option (World P Store)
  | .load operation =>
    match operation.load world.store address with
    | .error _ => some world
    | .ok loaded => some { world with tasks := world.tasks ++ [some (operation, loaded)] }
  | .finish task reads draw =>
    match world.tasks[task]? with
    | some (some (operation, loaded)) =>
      some (finish address world task reads draw operation loaded)
    | _ => none
  | .deleteSession => some { world with store := deleteSession world.store address }

def Fresh (world : World P Store) : Event P Store → Prop
  | .finish task _ draw =>
    ∀ operation loaded, world.tasks[task]? = some (some (operation, loaded)) →
      operation.drawsKey → P.publicKey draw.ratchetKey ∉ world.drawn
  | _ => True

/-- The commit meets the record that was loaded, and does not send at the last counter. -/
def Exclusive (address : SignalProtocolAddress) (world : World P Store) : Event P Store → Prop
  | .finish task _ _ =>
    ∀ operation loaded, world.tasks[task]? = some (some (operation, loaded)) →
      operation.load world.store address = .ok loaded ∧
        (operation.drawsKey = false → ∀ point ∈ loaded.sendingPoints, point.2 ≠ 0xFFFFFFFF)
  | _ => True

/-- The points of a record against those already used. -/
structure Ahead (points produced : List (P.PublicKey × UInt32)) (drawn : List P.PublicKey) :
    Prop where
  keys_nodup : (points.map Prod.fst).Nodup
  points_drawn : ∀ point ∈ points, point.1 ∈ drawn
  produced_drawn : ∀ sent ∈ produced, sent.1 ∈ drawn
  produced_before : ∀ point ∈ points, ∀ sent ∈ produced, sent.1 = point.1 → sent.2 < point.2
  produced_nodup : produced.Nodup

namespace Ahead

variable {points others produced : List (P.PublicKey × UInt32)} {drawn : List P.PublicKey}
  {key : P.PublicKey}

theorem initial : Ahead ([] : List (P.PublicKey × UInt32)) [] [] := by
  constructor <;> simp

theorem empty (ahead : Ahead points produced drawn) : Ahead [] produced drawn :=
  ⟨nodup_nil, by simp, ahead.produced_drawn, by simp, ahead.produced_nodup⟩

theorem mono (ahead : Ahead points produced drawn) (fewer : Subperm others points)
    {more : List P.PublicKey} (grown : drawn ⊆ more) : Ahead others produced more := by
  refine ⟨?_, ?_, ?_, ?_, ahead.produced_nodup⟩
  · rcases fewer with ⟨kept, same, sublist⟩
    exact (same.map Prod.fst).nodup_iff.mp (ahead.keys_nodup.sublist (sublist.map Prod.fst))
  · intro point member
    exact grown (ahead.points_drawn point (fewer.subset member))
  · intro sent member
    exact grown (ahead.produced_drawn sent member)
  · intro point member
    exact ahead.produced_before point (fewer.subset member)

theorem receive (ahead : Ahead points produced drawn) (fresh : key ∉ drawn) :
    Ahead ((key, 0) :: points) produced (key :: drawn) := by
  refine ⟨?_, ?_, ?_, ?_, ahead.produced_nodup⟩
  · rw [map_cons, nodup_cons]
    refine ⟨?_, ahead.keys_nodup⟩
    intro member
    rcases mem_map.mp member with ⟨point, present, same⟩
    have known := ahead.points_drawn point present
    rw [same] at known
    exact fresh known
  · intro point member
    rcases mem_cons.mp member with rfl | older
    · exact mem_cons_self
    · exact mem_cons_of_mem _ (ahead.points_drawn point older)
  · intro sent member
    exact mem_cons_of_mem _ (ahead.produced_drawn sent member)
  · intro point member sent used same
    rcases mem_cons.mp member with rfl | older
    · have known := ahead.produced_drawn sent used
      rw [same] at known
      exact absurd known fresh
    · exact ahead.produced_before point older sent used same

theorem send {index : UInt32} {rest : List (P.PublicKey × UInt32)}
    (ahead : Ahead ((key, index) :: rest) produced drawn) (notLast : index ≠ 0xFFFFFFFF) :
    Ahead ((key, index + 1) :: rest) ((key, index) :: produced) drawn := by
  have next : index < index + 1 := by grind
  have distinct : key ∉ rest.map Prod.fst := (nodup_cons.mp ahead.keys_nodup).1
  refine ⟨ahead.keys_nodup, ?_, ?_, ?_, ?_⟩
  · intro point member
    rcases mem_cons.mp member with rfl | older
    · exact ahead.points_drawn (key, index) mem_cons_self
    · exact ahead.points_drawn point (mem_cons_of_mem _ older)
  · intro sent member
    rcases mem_cons.mp member with rfl | older
    · exact ahead.points_drawn _ mem_cons_self
    · exact ahead.produced_drawn sent older
  · intro point member sent used same
    rcases mem_cons.mp member with rfl | older
    · rcases mem_cons.mp used with rfl | before
      · exact next
      · have earlier := ahead.produced_before _ mem_cons_self sent before same
        exact UInt32.lt_trans earlier next
    · rcases mem_cons.mp used with rfl | before
      · exact absurd (mem_map.mpr ⟨point, older, same.symm⟩) distinct
      · exact ahead.produced_before point (mem_cons_of_mem _ older) sent before same
  · rw [nodup_cons]
    refine ⟨?_, ahead.produced_nodup⟩
    intro used
    have earlier := ahead.produced_before _ mem_cons_self _ used rfl
    exact absurd earlier (UInt32.lt_irrefl index)

end Ahead

def Sound (address : SignalProtocolAddress) (world : World P Store) : Prop :=
  ∃ current : SessionRecord P, loadOrFresh world.store address = .ok current ∧
    Ahead current.sendingPoints world.produced world.drawn

variable {operation : Operation P} {address : SignalProtocolAddress} {loaded : SessionRecord P}

theorem Operation.loadOrFresh_of_load {store : Store}
    (succeeded : operation.load store address = .ok loaded) :
    loadOrFresh store address = .ok loaded := by
  cases operation with
  | encrypt ptext now => exact loadOrFresh_of_loadExisting succeeded
  | decryptSignal ciphertext => exact loadOrFresh_of_loadExisting succeeded
  | decryptPreKey ciphertext => exact succeeded
  | processBundle bundle now => exact succeeded

theorem Operation.update_eq_ok {reads : Store} {draw : BundleRandomness P}
    {update : SessionUpdate P (Option (SignalMessage P))}
    (succeeded : operation.update reads address draw loaded = .ok update) :
    (operation.drawsKey = true ∧ update.output = none ∧
      Subperm update.record.sendingPoints
        ((P.publicKey draw.ratchetKey, 0) :: loaded.sendingPoints)) ∨
    (operation.drawsKey = false ∧ ∃ message key index rest, update.output = some message ∧
      pointOf message = (key, index) ∧ loaded.sendingPoints = (key, index) :: rest ∧
      update.record.sendingPoints = (key, index + 1) :: rest) := by
  cases operation with
  | encrypt ptext now =>
    rcases Result.map_eq_ok.mp succeeded with ⟨made, madeEq, rfl⟩
    rcases encryptUpdate_sendingPoints madeEq with
      ⟨key, index, rest, before, after, keyEq, indexEq⟩
    exact Or.inr ⟨rfl, made.output.inner, key, index, rest, rfl, by rw [← keyEq, ← indexEq]; rfl,
      before, after⟩
  | decryptSignal ciphertext =>
    rcases Result.map_eq_ok.mp succeeded with ⟨made, madeEq, rfl⟩
    exact Or.inl ⟨rfl, rfl, decryptSignalUpdate_sendingPoints madeEq⟩
  | decryptPreKey ciphertext =>
    rcases Result.map_eq_ok.mp succeeded with ⟨made, madeEq, rfl⟩
    exact Or.inl ⟨rfl, rfl, decryptPreKeyUpdate_sendingPoints madeEq⟩
  | processBundle bundle now =>
    rcases Result.map_eq_ok.mp succeeded with ⟨made, madeEq, rfl⟩
    exact Or.inl ⟨rfl, rfl, preKeyBundleUpdate_sendingPoints madeEq⟩

theorem sound_of_unchanged {world next : World P Store} (sound : Sound address world)
    (unchanged : loadOrFresh next.store address = loadOrFresh world.store address)
    (produced : next.produced = world.produced) (drawn : world.drawn ⊆ next.drawn) :
    Sound address next := by
  rcases sound with ⟨current, currentEq, ahead⟩
  refine ⟨current, unchanged.trans currentEq, ?_⟩
  rw [produced]
  exact ahead.mono (Subperm.refl _) drawn

section Lawful

variable [LawfulProtocolStore P Store]

theorem sound_finish {world : World P Store} {task : ℕ} {reads : Store} {draw : BundleRandomness P}
    {operation : Operation P} {loaded : SessionRecord P} (sound : Sound address world)
    (fresh : operation.drawsKey → P.publicKey draw.ratchetKey ∉ world.drawn)
    (unchanged : operation.load world.store address = .ok loaded)
    (notLast : operation.drawsKey = false → ∀ point ∈ loaded.sendingPoints,
      point.2 ≠ 0xFFFFFFFF) :
    Sound address (finish address world task reads draw operation loaded) := by
  have grown : world.drawn ⊆
      (finish address world task reads draw operation loaded).drawn := by
    unfold finish
    dsimp only
    split
    · exact subset_cons_self _ _
    · exact Subset.refl _
  cases made : operation.update reads address draw loaded with
  | error error =>
    apply sound_of_unchanged sound _ _ grown
    · simp only [finish, made, commitResult]
    · simp only [finish, made, commitResult, record]
  | ok update =>
    rcases commit_cases world.store address update with
      ⟨returned, stored⟩ | ⟨⟨error, failed⟩, kept⟩
    · rcases sound with ⟨current, currentEq, ahead⟩
      have same : current = loaded := by
        have both := currentEq.symm.trans (Operation.loadOrFresh_of_load unchanged)
        exact Except.ok.inj both
      rw [same] at ahead
      refine ⟨update.record, by simpa only [finish, made, commitResult] using stored, ?_⟩
      simp only [finish, made, commitResult, returned]
      rcases Operation.update_eq_ok made with
        ⟨draws, silent, points⟩ | ⟨draws, message, key, index, rest, sent, point, before, after⟩
      · simp only [silent, record, draws, if_true]
        exact (ahead.receive (fresh draws)).mono points (Subset.refl _)
      · have counted := notLast draws (key, index) (by rw [before]; exact mem_cons_self)
        rw [before] at ahead
        simp only [sent, record, draws, point, after, Bool.false_eq_true, if_false]
        exact ahead.send counted
    · apply sound_of_unchanged sound _ _ grown
      · simpa only [finish, made, commitResult] using kept
      · simp only [finish, made, commitResult, failed, record]

theorem sound_step {world next : World P Store} {event : Event P Store}
    (sound : Sound address world) (fresh : Fresh world event)
    (exclusive : Exclusive address world event) (stepped : step address world event = some next) :
    Sound address next := by
  cases event with
  | load operation =>
    simp only [step] at stepped
    split at stepped
    · cases stepped
      exact sound
    · cases stepped
      exact sound
  | finish task reads draw =>
    simp only [step] at stepped
    split at stepped
    · rename_i operation loaded found
      cases stepped
      rcases exclusive operation loaded found with ⟨unchanged, notLast⟩
      exact sound_finish sound (fresh operation loaded found) unchanged notLast
    · cases stepped
  | deleteSession =>
    cases stepped
    rcases sound with ⟨_, _, ahead⟩
    exact ⟨SessionRecord.newFresh,
      LawfulProtocolStore.loadSession_deleteSession world.store address, ahead.empty⟩

end Lawful

/-- No point is used twice when every commit meets the record that was loaded. -/
theorem produced_nodup_of_exclusive {formats : SignalFormats P}
    (address : SignalProtocolAddress) (store : AppStore formats)
    (noSession : loadOrFresh store address = .ok SessionRecord.newFresh)
    (events : List (Event P (AppStore formats))) (world : World P (AppStore formats))
    (fresh : Meets (step address) Fresh (initial store) events)
    (exclusive : Meets (step address) (Exclusive address) (initial store) events)
    (reached : run (step address) (initial store) events = some world) :
    world.produced.Nodup := by
  have both := meets_and fresh exclusive
  have start : Sound address (initial store) := ⟨_, noSession, Ahead.initial⟩
  have final := run_invariant_of_meets
    (fun _ _ _ sound conditions stepped => sound_step sound conditions.1 conditions.2 stepped)
    start both reached
  rcases final with ⟨_, _, ahead⟩
  exact ahead.produced_nodup

section Runs

open Symbolic

variable {world : World P Store}

theorem step_load {loaded : SessionRecord P}
    (load : operation.load world.store address = .ok loaded) :
    step address world (.load operation) =
      some { world with tasks := world.tasks ++ [some (operation, loaded)] } := by
  simp only [step, load]

theorem step_finish {task : ℕ} {reads : Store} {draw : BundleRandomness P}
    {loaded updated : SessionRecord P} {output : Option (SignalMessage P)} {identity : P.PublicKey}
    (found : world.tasks[task]? = some (some (operation, loaded)))
    (made : operation.update reads address draw loaded = .ok ⟨output, updated, identity, none⟩) :
    step address world (.finish task reads draw) =
      some
        { store := storeSession (saveIdentity world.store address identity) address updated
          tasks := world.tasks.set task none
          produced := record world.produced (.ok output)
          drawn := if operation.drawsKey then P.publicKey draw.ratchetKey :: world.drawn
            else world.drawn } := by
  simp only [step, found, finish, made, commitResult, commit]

theorem load_storeSession [LawfulProtocolStore P Store] (operation : Operation P) (store : Store)
    (address : SignalProtocolAddress) (stored : SessionRecord P) :
    operation.load (storeSession store address stored) address = .ok stored := by
  cases operation <;>
    simp only [Operation.load, loadExisting, loadOrFresh,
      LawfulProtocolStore.loadSession_storeSession] <;> rfl

def bob : SignalProtocolAddress := ⟨"bob", 1⟩

def build : Operation symbolic := .processBundle bobBundle 0

def send : Operation symbolic := .encrypt (Text.plain 5) 0

theorem update_build :
    build.update aliceStore bob aliceDraw SessionRecord.newFresh =
      .ok ⟨none, aliceRecord, (2 : ℕ), none⟩ := by
  simp only [build, Operation.update]
  rw [preKeyBundleUpdate_aliceStore]
  rfl

theorem update_send : ∃ first once second twice,
    send.update aliceStore bob aliceDraw aliceRecord = .ok ⟨some first, once, (2 : ℕ), none⟩ ∧
      send.update aliceStore bob aliceDraw once = .ok ⟨some second, twice, (2 : ℕ), none⟩ ∧
      pointOf first = ((11 : ℕ), 0) ∧ pointOf second = ((11 : ℕ), 1) ∧
      once.sendingPoints = [((11 : ℕ), 1)] :=
  ⟨_, _, _, _, rfl, rfl, rfl, rfl, rfl⟩

noncomputable def finishTask (task : ℕ) : Event symbolic (AppStore SignalFormats.symbolic) :=
  .finish task aliceStore aliceDraw

/-- A session is built, and two messages are sent one after the other. -/
noncomputable def sequential : List (Event symbolic (AppStore SignalFormats.symbolic)) :=
  [.load build, finishTask 0, .load send, finishTask 1, .load send, finishTask 2]

theorem produced_nodup_of_exclusive_sequential :
    ∃ world, run (step bob) (initial aliceStore) sequential = some world ∧
      world.produced = [((11 : ℕ), 1), ((11 : ℕ), 0)] ∧ world.produced.Nodup := by
  rcases update_send with ⟨first, once, second, twice, sent, sentAgain, atZero, atOne, moved⟩
  have run : ∃ world, run (step bob) (initial aliceStore) sequential = some world ∧
      world.produced = [((11 : ℕ), 1), ((11 : ℕ), 0)] := by
    refine exists_run_cons (step_load (loadOrFresh_aliceStore bob)) ?_
    refine exists_run_cons (step_finish rfl update_build) ?_
    refine exists_run_cons (step_load (load_storeSession send _ bob aliceRecord)) ?_
    refine exists_run_cons (step_finish rfl sent) ?_
    refine exists_run_cons (step_load (load_storeSession send _ bob once)) ?_
    refine exists_run_cons (step_finish rfl sentAgain) ⟨_, rfl, ?_⟩
    simp only [record, atZero, atOne, initial]
    rfl
  rcases run with ⟨world, reached, produced⟩
  refine ⟨world, reached, produced, ?_⟩
  apply produced_nodup_of_exclusive bob aliceStore (loadOrFresh_aliceStore bob) sequential world _ _
    reached
  · refine meets_cons trivial (step_load (loadOrFresh_aliceStore bob)) ?_
    refine meets_cons ?_ (step_finish rfl update_build) ?_
    · intro operation loaded found draws
      exact not_mem_nil
    refine meets_cons trivial
      (step_load (load_storeSession send _ bob aliceRecord)) ?_
    refine meets_cons ?_ (step_finish rfl sent) ?_
    · intro operation loaded found draws
      cases found
      cases draws
    refine meets_cons trivial (step_load (load_storeSession send _ bob once)) ?_
    refine meets_cons ?_ (step_finish rfl sentAgain) trivial
    intro operation loaded found draws
    cases found
    cases draws
  · refine meets_cons trivial (step_load (loadOrFresh_aliceStore bob)) ?_
    refine meets_cons ?_ (step_finish rfl update_build) ?_
    · intro operation loaded found
      cases found
      refine ⟨loadOrFresh_aliceStore bob, ?_⟩
      intro sends
      cases sends
    refine meets_cons trivial
      (step_load (load_storeSession send _ bob aliceRecord)) ?_
    refine meets_cons ?_ (step_finish rfl sent) ?_
    · intro operation loaded found
      cases found
      refine ⟨load_storeSession send _ bob aliceRecord, ?_⟩
      intro _ point member
      cases mem_singleton.mp member
      decide
    refine meets_cons trivial (step_load (load_storeSession send _ bob once)) ?_
    refine meets_cons ?_ (step_finish rfl sentAgain) trivial
    intro operation loaded found
    cases found
    refine ⟨load_storeSession send _ bob once, ?_⟩
    intro _ point member
    rw [moved] at member
    cases mem_singleton.mp member
    decide

/-- The second message is computed from the record that was loaded before the first commit. -/
noncomputable def overlapping : List (Event symbolic (AppStore SignalFormats.symbolic)) :=
  [.load build, finishTask 0, .load send, .load send, finishTask 1, finishTask 2]

theorem overlapping_produced_not_nodup :
    Meets (step bob) Fresh (initial aliceStore) overlapping ∧
      ∃ world, run (step bob) (initial aliceStore) overlapping = some world ∧
        ¬world.produced.Nodup := by
  rcases update_send with ⟨first, once, _, _, sent, _, atZero, _, _⟩
  have loaded := load_storeSession send (saveIdentity aliceStore bob (2 : ℕ)) bob aliceRecord
  constructor
  · refine meets_cons trivial (step_load (loadOrFresh_aliceStore bob)) ?_
    refine meets_cons ?_ (step_finish rfl update_build) ?_
    · intro operation loaded found draws
      exact not_mem_nil
    refine meets_cons trivial (step_load loaded) ?_
    refine meets_cons trivial (step_load loaded) ?_
    refine meets_cons ?_ (step_finish rfl sent) ?_
    · intro operation loaded found draws
      cases found
      cases draws
    refine meets_cons ?_ (step_finish rfl sent) trivial
    intro operation loaded found draws
    cases found
    cases draws
  · refine exists_run_cons (step_load (loadOrFresh_aliceStore bob)) ?_
    refine exists_run_cons (step_finish rfl update_build) ?_
    refine exists_run_cons (step_load loaded) ?_
    refine exists_run_cons (step_load loaded) ?_
    refine exists_run_cons (step_finish rfl sent) ?_
    refine exists_run_cons (step_finish rfl sent) ⟨_, rfl, ?_⟩
    simp only [record, atZero, initial]
    decide

end Runs

end Interleaving

end LegacySignal
