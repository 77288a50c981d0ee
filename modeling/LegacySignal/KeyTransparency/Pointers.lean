import LegacySignal.KeyTransparency.Returns

/-!
# What monitoring remembers

A version that was accepted while its key is monitored stays covered by the
stored pointers in every later state of a run, and no position is ever recorded
with two versions.

A pointer is moved only to a position above which there is no later one, because
the steps of a response come with all later positions above them. So a position
from which a pointer was moved away is not recorded again.
-/

namespace LegacySignal.KeyTransparency

open FlatTree Run
open Result (bind_eq_ok)

variable {C : Crypto} {treeSize : ℕ} {monitoringData : List UInt8 → Option MonitoringData}

theorem processSteps_visited {data : MonitoringData} {pairs : List (ℕ × ProofStep C)}
    {leaves finalLeaves : List (ℕ × C.Hash)} {steps finalSteps : List (ℕ × ProofStep C)}
    (processed : processSteps data pairs leaves steps = .ok (finalLeaves, finalSteps)) :
    ∀ id, id ∈ finalSteps.map Prod.fst ↔ id ∈ steps.map Prod.fst ∨ id ∈ pairs.map Prod.fst := by
  induction pairs generalizing leaves steps with
  | nil =>
    cases processed
    intro id
    simp
  | cons pair rest ih =>
    obtain ⟨entry, step⟩ := pair
    obtain ⟨⟨counter, leaf⟩, _, processed⟩ := bind_eq_ok.mp processed
    have next : ∃ leaves, processSteps data rest leaves (Entries.insert entry step steps) =
        .ok (finalLeaves, finalSteps) := by
      cases known : Entries.lookup entry leaves with
      | none =>
        rw [known] at processed
        exact ⟨_, processed⟩
      | some other =>
        rw [known] at processed
        dsimp only at processed
        split at processed
        · exact ⟨_, processed⟩
        · cases processed
    obtain ⟨_, processed⟩ := next
    intro id
    rw [ih processed id, Entries.mem_keys_insert, List.map_cons, List.mem_cons]
    constructor
    · rintro ((rfl | isStep) | isRest)
      · exact .inr (.inl rfl)
      · exact .inl isStep
      · exact .inr (.inr isRest)
    · rintro (isStep | rfl | isRest)
      · exact .inl (.inr isStep)
      · exact .inl (.inl rfl)
      · exact .inr isRest

theorem process_upClosed {acc next : MonitorProofAcc C} {key : MonitorKey} {proof : MonitorProof C}
    (fits : treeSize < 2 ^ 64)
    (closed : ∀ steps ∈ acc.entries, UpClosed treeSize (steps.map Prod.fst))
    (processed : acc.process treeSize monitoringData key proof = .ok next) :
    ∀ steps ∈ next.entries, UpClosed treeSize (steps.map Prod.fst) := by
  obtain ⟨data, _, processed⟩ := bind_eq_ok.mp processed
  obtain ⟨entries, isPath, processed⟩ := bind_eq_ok.mp processed
  obtain ⟨_, sameLength, processed⟩ := bind_eq_ok.mp processed
  obtain ⟨⟨leaves, steps⟩, isProcessed, processed⟩ := bind_eq_ok.mp processed
  cases processed
  have sameLength : entries.length = proof.steps.length := ensure_eq_ok.mp sameLength
  intro other member
  rcases List.mem_append.mp member with isOld | isNew
  · exact closed other isOld
  · cases List.mem_singleton.mp isNew
    have pathClosed := fullMonitoringPath_upClosed fits key.entryPosition.toNat_lt isPath
    have visited := processSteps_visited isProcessed
    rw [List.map_fst_zip (by omega)] at visited
    intro position isPosition upper after inside above
    rw [visited] at isPosition ⊢
    rcases isPosition with isNone | onPath
    · cases isNone
    · exact .inr (pathClosed position onPath upper after inside above)

theorem processAll_upClosed {pairs : List (MonitorKey × MonitorProof C)}
    {acc final : MonitorProofAcc C} (fits : treeSize < 2 ^ 64)
    (closed : ∀ steps ∈ acc.entries, UpClosed treeSize (steps.map Prod.fst))
    (processed : processAll treeSize monitoringData pairs acc = .ok final) :
    ∀ steps ∈ final.entries, UpClosed treeSize (steps.map Prod.fst) := by
  induction pairs generalizing acc with
  | nil =>
    cases processed
    exact closed
  | cons pair rest ih =>
    obtain ⟨next, isNext, processed⟩ := bind_eq_ok.mp processed
    exact ih (process_upClosed fits closed isNext) processed

/-- A pointer is an old one, stands where nothing later is above it, or where no pointer was at
or above it. -/
def MonitoringData.Renews (n : ℕ) (before after : MonitoringData) : Prop :=
  ∀ new ∈ after.ptrs, new ∈ before.ptrs ∨ AtTop n new.1 ∨ Fresh n before.ptrs new.1

section updates

variable {order : PointerOrder} {searchKey : List UInt8} {config : PublicConfig} {monitor : Bool}
  {size pos resultId : ℕ} {index : Index} {version : UInt32} {steps : List (ℕ × ProofStep C)}
  {stored after : MonitoringData} (sound : stored.Sound)
  (ptrsInside : ∀ ptr ∈ stored.ptrs, ptr.1 < size) (fits : size < 2 ^ 64) (pos_le : pos ≤ resultId)
  (inside : resultId < size) (closed : UpClosed size (steps.map Prod.fst))

include sound ptrsInside fits pos_le inside closed

theorem checkAndUpdate_renews {checked : MonitoringData}
    (isChecked : stored.checkSearchConsistency size index pos resultId version monitor =
      .ok checked)
    (isUpdated : checked.update order searchKey size steps = .ok after) :
    stored.Renews size after := by
  obtain ⟨samePos, isPos, recorded⟩ := checkSearchConsistency_spec fits pos_le inside isChecked
  have range : ∀ ptr ∈ checked.ptrs, checked.pos ≤ ptr.1 ∧ ptr.1 < size := by
    intro ptr member
    rw [samePos]
    rcases recorded.origin ptr member with isOld | ⟨rfl, _⟩
    · exact ⟨(sound.range ptr isOld).1, ptrsInside ptr isOld⟩
    · exact ⟨isPos.trans_le pos_le, inside⟩
  intro new member
  rcases MonitoringData.update_top fits closed range isUpdated new member with isChecked | atTop
  · rcases recorded.origin new isChecked with isOld | ⟨rfl, fresh⟩
    · exact .inl isOld
    · exact .inr (.inr fresh)
  · exact .inr (.inl atTop)

theorem updateMonitoring_renews
    (updated : updateMonitoring order searchKey (some stored) config monitor size index pos
      resultId version steps = .ok (some after)) :
    stored.Renews size after := by
  have same : (if (monitor || config.mode = .contactMonitoring) = true then
      some (MonitoringData.startMonitoring (some stored) index pos resultId version monitor)
    else some stored) = some stored := ite_self _
  unfold updateMonitoring at updated
  dsimp only at updated
  rw [same] at updated
  obtain ⟨checked, isChecked, updated⟩ := bind_eq_ok.mp updated
  obtain ⟨updatedData, isUpdated, updated⟩ := bind_eq_ok.mp updated
  cases updated
  exact checkAndUpdate_renews sound ptrsInside fits pos_le inside closed isChecked isUpdated

end updates

namespace Client

variable {config : PublicConfig} {client between after : Client C} {searchKey : List UInt8}
  {order : PointerOrder} {now : ℕ}

/-- In a step the pointers of a key are renewed. -/
def Renewed (client after : Client C) (searchKey : List UInt8) : Prop :=
  ∀ data ∈ client.data searchKey, ∀ next ∈ after.data searchKey,
    data.Renews after.treeSize next

theorem renews_refl (n : ℕ) (data : MonitoringData) : data.Renews n data :=
  fun _ member => .inl member

theorem search_renewed {req : SlimSearchRequest} {res : FullSearchResponse C}
    {distinguished : Option (LastTreeHead C)} {monitor : Bool} {update : SearchStateUpdate C}
    (sound : client.Sound) (ordinary : searchKey ≠ distinguishedKey)
    (accepted : verifySearch order config req res
      (client.searchContext req.searchKey distinguished) monitor now = .ok update) :
    client.Renewed (client.afterSearch req.searchKey update) searchKey := by
  intro data isData next isNext
  by_cases same : searchKey = req.searchKey
  · subst same
    simp only [afterSearch, Function.update_self] at isNext
    obtain ⟨index, proof, walk, found, step, value, prefixProof, size, opened, isSize, updated⟩ :=
      verifySearch_eq_ok accepted
    have fits := update.treeHead.treeSize.toNat_lt
    obtain ⟨_, walked⟩ := walkSearch_spec fits opened.walked
    obtain ⟨pos_le, inside, _⟩ := walked.result found opened.result
    rw [retainedSize, if_neg ordinary] at isSize
    cases isSize
    rw [isNext] at updated
    have isData : client.data req.searchKey = some data := isData
    change updateMonitoring order req.searchKey (client.data req.searchKey) _ _ _ _ _ _ _ _ = _
      at updated
    rw [isData] at updated
    have grows : client.treeSize ≤ update.treeHead.treeSize.toNat :=
      verifyFullTreeHead_le opened.verified
    refine updateMonitoring_renews (sound.sound _ data isData) ?_ fits pos_le inside
      (walkSearch_upClosed fits opened.walked) updated
    intro ptr member
    exact (sound.inside _ ordinary data isData ptr member).trans_le grows
  · simp only [afterSearch, Function.update_of_ne same] at isNext
    cases Option.some.inj (Eq.trans (Eq.symm isData) isNext)
    exact renews_refl _ _

theorem monitor_renewed {req : MonitorRequest} {res : MonitorResponse C}
    {distinguished : LastTreeHead C} {update : MonitorStateUpdate C} (sound : client.Sound)
    (ordinary : searchKey ≠ distinguishedKey)
    (accepted : verifyMonitor order config req res (client.monitorContext distinguished) now =
      .ok update) :
    client.Renewed (client.afterMonitor update) searchKey := by
  obtain ⟨fullTreeHead, acc, inclusion, verified, updated⟩ := verifyMonitor_eq_ok accepted
  have fits := update.treeHead.treeSize.toNat_lt
  have grows : client.treeSize ≤ update.treeHead.treeSize.toNat :=
    verifyFullTreeHead_le verified.verified
  have closed := processAll_upClosed fits (fun _ isNone => absurd isNone List.not_mem_nil)
    verified.processed
  intro data isData next isNext
  cases isUpdate : update.monitoringData searchKey with
  | none =>
    simp only [afterMonitor, isUpdate, Option.none_or] at isNext
    cases Option.some.inj (Eq.trans (Eq.symm isData) isNext)
    exact renews_refl _ _
  | some updatedData =>
    simp only [afterMonitor, isUpdate, Option.some_or] at isNext
    cases isNext
    rcases updateAll_spec updated searchKey _ isUpdate with
      isNone | ⟨key, steps, size, stored, member, rfl, isSize, isStored, isUpdated⟩
    · cases isNone
    · cases Option.some.inj (Eq.trans (Eq.symm isStored) isData)
      cases (monitoredSize_eq_ok fits isSize).2 ordinary
      have stepsClosed := closed steps (List.of_mem_zip member).2
      intro new isNew
      rcases MonitoringData.update_top fits stepsClosed (fun ptr isPtr =>
        ⟨((sound.sound _ data isData).range ptr isPtr).1,
          (sound.inside _ ordinary data isData ptr isPtr).trans_le grows⟩) isUpdated new isNew
        with isOld | atTop
      · exact .inl isOld
      · exact .inr (.inl atTop)

theorem Step.renewed (step : Step config client after) (sound : client.Sound)
    (ordinary : searchKey ≠ distinguishedKey) : client.Renewed after searchKey := by
  cases step with
  | search accepted => exact search_renewed sound ordinary accepted
  | monitor accepted => exact monitor_renewed sound ordinary accepted

/-- A pointer that was recorded: it is covered, and its position has no other version. -/
structure Remembers (client : Client C) (data : MonitoringData) (recorded : ℕ × UInt32) :
    Prop where
  covered : ∃ ptr ∈ data.ptrs, StandsFor client.treeSize ptr recorded
  unique : ∀ version, (recorded.1, version) ∈ data.ptrs → version = recorded.2

variable {data : MonitoringData}

theorem remembers_of_mem {ptr : ℕ × UInt32} (sound : data.Sound) (member : ptr ∈ data.ptrs) :
    client.Remembers data ptr :=
  ⟨⟨ptr, member, .refl _ _⟩, fun _ isVersion => sound.distinct.eq_of_mem isVersion member⟩

theorem Remembers.step {data next : MonitoringData} {recorded : ℕ × UInt32}
    (remembers : client.Remembers data recorded) (grows : client.treeSize ≤ after.treeSize)
    (sound : next.Sound) (follows : data.Follows after.treeSize next)
    (renews : data.Renews after.treeSize next) : after.Remembers next recorded := by
  obtain ⟨ptr, isPtr, stands⟩ := remembers.covered
  obtain ⟨new, isNew, standsNew⟩ := follows.followed ptr isPtr
  have covers := standsNew.trans (stands.mono grows)
  refine ⟨⟨new, isNew, covers⟩, ?_⟩
  intro version isVersion
  rcases renews _ isVersion with isOld | atTop | fresh
  · exact remembers.unique version isOld
  · -- Nothing later stands above the position, so that its pointer was never moved away.
    rcases covers with rfl | ⟨_, later, inside, above⟩
    · exact sound.distinct.eq_of_mem isVersion isNew
    · exact absurd above (atTop _ later inside)
  · rcases stands.mono grows with rfl | ⟨_, later, inside, above⟩
    · exact absurd rfl (fresh ptr isPtr).1
    · exact absurd above ((fresh ptr isPtr).2 later inside)

theorem Reaches.grows (run : Reaches config client after) (sound : client.Sound) :
    client.treeSize ≤ after.treeSize := by
  induction run with
  | refl => exact Nat.le_refl _
  | tail before step ih => exact ih.trans (step.sound (Reaches.sound before sound)).2.grows

theorem Reaches.remembers (run : Reaches config client after) (sound : client.Sound)
    (ordinary : searchKey ≠ distinguishedKey) (isData : client.data searchKey = some data) :
    ∃ later, after.data searchKey = some later ∧ later.pos = data.pos ∧
      ∀ recorded, client.Remembers data recorded → after.Remembers later recorded := by
  induction run with
  | refl => exact ⟨data, isData, rfl, fun _ remembers => remembers⟩
  | tail before step ih =>
    obtain ⟨between, isBetween, samePos, remembers⟩ := ih
    have middle := Reaches.sound before sound
    obtain ⟨afterSound, kept⟩ := step.sound middle
    obtain ⟨next, isNext, follows⟩ := kept.follows searchKey ordinary between isBetween
    refine ⟨next, isNext, follows.pos_eq.trans samePos, ?_⟩
    intro recorded isRecorded
    exact (remembers recorded isRecorded).step kept.grows (afterSound.sound _ next isNext)
      follows (step.renewed middle ordinary between isBetween next isNext)

/-- The stored pointers have one with no smaller version at the position or on its monitoring
path. -/
def Covered (client : Client C) (data : MonitoringData) (position : ℕ) (version : UInt32) : Prop :=
  ∃ ptr ∈ data.ptrs, version ≤ ptr.2 ∧
    (ptr.1 = position ∨
      ∃ path, (monitoringPath position data.pos client.treeSize : Verification _) = .ok path ∧
        ptr.1 ∈ path)

theorem treeSize_lt (client : Client C) : client.treeSize < 2 ^ 64 := by
  unfold treeSize
  cases client.lastTreeHead with
  | none => exact Nat.two_pow_pos 64
  | some last => exact last.1.treeSize.toNat_lt

theorem covered_of_standsFor {ptr recorded : ℕ × UInt32} (isPtr : ptr ∈ data.ptrs)
    (stands : StandsFor client.treeSize ptr recorded) (pos_le : data.pos ≤ recorded.1)
    (inside : recorded.1 < client.treeSize) :
    client.Covered data recorded.1 recorded.2 := by
  refine ⟨ptr, isPtr, stands.version_le, ?_⟩
  rcases stands with rfl | ⟨_, later, ptrInside, above⟩
  · exact .inl rfl
  · obtain ⟨path, _, isPath, members⟩ := monitoringPath_spec pos_le inside client.treeSize_lt
    exact .inr ⟨path, isPath, (members _).mpr ⟨later, ptrInside, above⟩⟩

/-- Monitoring never forgets a version. In every state that a run reaches, a stored pointer stays
covered in all later states, and its position is never stored with another version; the result of
an accepted search whose key is monitored is covered in all later states, and agrees with the
pointer that may be stored at its position. -/
theorem monitoring_never_forgets (ordinary : searchKey ≠ distinguishedKey)
    (reached : Reaches config Client.empty client) :
    (∀ data, client.data searchKey = some data → ∀ after, Reaches config client after →
      ∃ later, after.data searchKey = some later ∧ ∀ ptr ∈ data.ptrs,
        after.Covered later ptr.1 ptr.2 ∧
          ∀ version, (ptr.1, version) ∈ later.ptrs → version = ptr.2) ∧
    ∀ order version (res : FullSearchResponse C) distinguished monitor now update,
      verifySearch order config ⟨searchKey, version⟩ res
          (client.searchContext searchKey distinguished) monitor now = .ok update →
      ∀ position found, FoundAt config ⟨searchKey, version⟩ res position found →
        (∀ data, client.data searchKey = some data →
          ∀ stored, (position, stored) ∈ data.ptrs → stored = found) ∧
        (update.monitoringData.isSome → ∀ after,
          Reaches config (client.afterSearch searchKey update) after →
            ∃ later, after.data searchKey = some later ∧
              after.Covered later position found) := by
  have sound := Reaches.sound reached empty_sound
  refine ⟨?_, ?_⟩
  · intro data isData after run
    obtain ⟨later, isLater, samePos, remembers⟩ := Reaches.remembers run sound ordinary isData
    have grows := Reaches.grows run sound
    refine ⟨later, isLater, ?_⟩
    intro ptr member
    have dataSound := sound.sound _ data isData
    have remembered := remembers ptr (remembers_of_mem dataSound member)
    obtain ⟨new, isNew, stands⟩ := remembered.covered
    refine ⟨covered_of_standsFor isNew stands ?_ ?_, remembered.unique⟩
    · rw [samePos]
      exact (dataSound.range ptr member).1
    · exact (sound.inside _ ordinary data isData ptr member).trans_le grows
  · intro order version res distinguished monitor now update accepted position found isFound
    obtain ⟨_, stays, _, _, isPosition, monitored⟩ := search_monitored sound accepted
    obtain ⟨rfl, rfl⟩ := isFound.unique isPosition
    refine ⟨?_, ?_⟩
    · intro data isData stored isStored
      obtain ⟨next, isNext⟩ := Option.isSome_iff_exists.mp (stays (Option.isSome_of_mem isData))
      exact (monitored next isNext).agrees data isData stored isStored
    · intro isSome after run
      obtain ⟨next, isNext⟩ := Option.isSome_iff_exists.mp isSome
      have spec := monitored next isNext
      have isData : (client.afterSearch searchKey update).data searchKey = some next := by
        simp only [afterSearch, Function.update_self]
        exact isNext
      have searched := (search_sound sound accepted).1
      obtain ⟨later, isLater, samePos, remembers⟩ := Reaches.remembers run searched ordinary isData
      obtain ⟨ptr, isPtr, stands⟩ := spec.covered
      have remembered := remembers ptr (remembers_of_mem spec.sound isPtr)
      obtain ⟨new, isNew, standsNew⟩ := remembered.covered
      have grows := Reaches.grows run searched
      have covers := standsNew.trans (stands.mono grows)
      refine ⟨later, isLater, covered_of_standsFor isNew covers ?_ ?_⟩
      · rw [samePos]
        exact spec.pos_le
      · have inside := searched.inside _ ordinary next isData ptr isPtr
        exact stands.le.trans_lt (inside.trans_le grows)

def oneEntryData : MonitoringData := ⟨Vector.replicate 32 0, 0, [(0, 0)], true⟩

def oneEntryUpdate : SearchStateUpdate trustingCrypto := ⟨managedTreeHead, (), some oneEntryData⟩

theorem verifySearch_oneEntry :
    verifySearch storedOrder managedConfig ⟨[1], none⟩ oneEntryResponse
      (Client.empty.searchContext [1] none) true 0 = .ok oneEntryUpdate :=
  verifySearch_of_opened (searchOpened_oneEntry rfl) rfl rfl

def grownResponse : MonitorResponse trustingCrypto :=
  ⟨some ⟨some grownTreeHead, [()], [()], []⟩, [⟨[onlyStep]⟩], [()]⟩

def grownUpdate : MonitorStateUpdate trustingCrypto :=
  ⟨grownTreeHead, (), Function.update (fun _ => none) [1]
    (some { oneEntryData with ptrs := [(1, 0)] })⟩

theorem monitoredRoot_grown : monitoredRoot (C := trustingCrypto) [(1, ())] 2 [()] = .ok () := by
  have evaluated : evaluateBatchProof (C := trustingCrypto) [1] 2 [()] [()] = .ok () := by
    refine bind_eq_ok.mpr ⟨(), rfl, bind_eq_ok.mpr ⟨(), rfl, bind_eq_ok.mpr ⟨1, rfl, ?_⟩⟩⟩
    refine bind_eq_ok.mpr ⟨(), rfl, bind_eq_ok.mpr ⟨[0], rfl, bind_eq_ok.mpr ⟨(), rfl, ?_⟩⟩⟩
    simp only [List.zipWith]
    rw [List.merge, List.merge_right]
    rfl
  exact congrArg (mapFailure LogError.toError) evaluated

theorem verifyMonitor_grown :
    verifyMonitor storedOrder managedConfig ⟨[⟨[1], 0⟩], none⟩ grownResponse
      ((Client.empty.afterSearch [1] oneEntryUpdate).monitorContext (managedTreeHead, ())) 0 =
        .ok grownUpdate := by
  have processed : processAll 2 (Client.empty.afterSearch [1] oneEntryUpdate).data
      [(⟨[1], 0⟩, ⟨[onlyStep]⟩)] ⟨[], []⟩ = .ok ⟨[(1, ())], [[(1, onlyStep)]]⟩ := by
    refine bind_eq_ok.mpr ⟨_, ?_, rfl⟩
    refine bind_eq_ok.mpr ⟨oneEntryData, rfl, bind_eq_ok.mpr ⟨[1], rfl, ?_⟩⟩
    refine bind_eq_ok.mpr ⟨(), rfl, bind_eq_ok.mpr ⟨([(1, ())], [(1, onlyStep)]), ?_, rfl⟩⟩
    exact bind_eq_ok.mpr ⟨_, evaluateStep_trusting _ _ List.length_replicate _ _, rfl⟩
  refine bind_eq_ok.mpr ⟨(), rfl, bind_eq_ok.mpr ⟨_, rfl, bind_eq_ok.mpr ⟨_, rfl, ?_⟩⟩⟩
  refine bind_eq_ok.mpr ⟨_, processed, bind_eq_ok.mpr ⟨_, rfl, ?_⟩⟩
  refine bind_eq_ok.mpr ⟨(), monitoredRoot_grown, ?_⟩
  exact bind_eq_ok.mpr ⟨(grownTreeHead, ()), rfl, bind_eq_ok.mpr ⟨_, rfl, rfl⟩⟩

/-- When the log grows, monitoring moves the pointer along its path. -/
theorem monitoring_never_forgets_grown :
    ∃ client after : Client trustingCrypto, client.data [1] = some oneEntryData ∧
      after.treeSize = 2 ∧ ∃ later, after.data [1] = some later ∧ later.ptrs = [(1, 0)] ∧
        after.Covered later 0 0 := by
  have first : Reaches managedConfig (Client.empty : Client trustingCrypto)
      (Client.empty.afterSearch [1] oneEntryUpdate) :=
    .single (.search verifySearch_oneEntry)
  have ordinary : ([1] : List UInt8) ≠ distinguishedKey := by decide
  obtain ⟨later, isLater, pointers⟩ := (monitoring_never_forgets ordinary first).1 oneEntryData
    rfl _ (.single (.monitor verifyMonitor_grown))
  refine ⟨Client.empty.afterSearch [1] oneEntryUpdate, _, rfl, rfl, later, isLater, ?_,
    (pointers (0, 0) List.mem_cons_self).1⟩
  cases isLater
  rfl

end Client

end LegacySignal.KeyTransparency
