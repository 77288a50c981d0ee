import LegacySignal.KeyTransparency.Calls
import LegacySignal.KeyTransparency.Monitoring
import LegacySignal.KeyTransparency.SearchWalk

/-!
# Runs of a key transparency client

The client stores what accepted calls return and passes it to the calls that
follow.
-/

namespace LegacySignal.KeyTransparency

open Run
open Result (bind_eq_ok)

variable {C : Crypto}

/-- What is stored between the calls. -/
structure Client (C : Crypto) where
  lastTreeHead : Option (LastTreeHead C)
  data : List UInt8 → Option MonitoringData

namespace Client

def empty : Client C := ⟨none, fun _ => none⟩

def searchContext (client : Client C) (searchKey : List UInt8)
    (distinguished : Option (LastTreeHead C)) : SearchContext C :=
  ⟨client.lastTreeHead, distinguished, client.data searchKey⟩

def monitorContext (client : Client C) (distinguished : LastTreeHead C) : MonitorContext C :=
  ⟨client.lastTreeHead, distinguished, client.data⟩

def afterSearch (client : Client C) (searchKey : List UInt8) (update : SearchStateUpdate C) :
    Client C :=
  ⟨some (update.treeHead, update.treeRoot),
    Function.update client.data searchKey update.monitoringData⟩

def afterMonitor (client : Client C) (update : MonitorStateUpdate C) : Client C :=
  ⟨some (update.treeHead, update.treeRoot),
    fun searchKey => (update.monitoringData searchKey).or (client.data searchKey)⟩

/-- A call that is accepted. The distinguished tree head may be any. -/
inductive Step (config : PublicConfig) : Client C → Client C → Prop where
  | search {client : Client C} {order : PointerOrder} {req : SlimSearchRequest}
      {res : FullSearchResponse C} {distinguished : Option (LastTreeHead C)} {monitor : Bool}
      {now : ℕ} {update : SearchStateUpdate C}
      (accepted : verifySearch order config req res
        (client.searchContext req.searchKey distinguished) monitor now = .ok update) :
      Step config client (client.afterSearch req.searchKey update)
  | monitor {client : Client C} {order : PointerOrder} {req : MonitorRequest}
      {res : MonitorResponse C} {distinguished : LastTreeHead C} {now : ℕ}
      {update : MonitorStateUpdate C}
      (accepted : verifyMonitor order config req res (client.monitorContext distinguished) now =
        .ok update) :
      Step config client (client.afterMonitor update)

/-- The states that accepted calls lead to. -/
abbrev Reaches (config : PublicConfig) : Client C → Client C → Prop :=
  Relation.ReflTransGen (Step config)

def treeSize (client : Client C) : ℕ :=
  client.lastTreeHead.elim 0 fun last => last.1.treeSize.toNat

end Client

variable {root : C.Hash}

theorem checkConsistencyMetadata_le {treeHead : TreeHead} {proof : List C.Hash}
    {last : LastTreeHead C}
    (checked : checkConsistencyMetadata treeHead root proof (some last) = .ok ()) :
    last.1.treeSize ≤ treeHead.treeSize := by
  unfold checkConsistencyMetadata at checked
  dsimp only at checked
  split at checked
  · next same => exact UInt64.le_of_eq same
  · obtain ⟨_, notLess, _⟩ := bind_eq_ok.mp checked
    exact ensure_eq_ok.mp notLess

theorem verifyFullTreeHead_le {config : PublicConfig} {fullTreeHead : FullTreeHead C}
    {distinguished : Option (LastTreeHead C)} {now : ℕ} {client : Client C}
    {accepted : LastTreeHead C}
    (verified : verifyFullTreeHead config fullTreeHead root client.lastTreeHead distinguished
      now = .ok accepted) :
    client.treeSize ≤ accepted.1.treeSize.toNat := by
  obtain ⟨treeHead, isHead, rest⟩ := bind_eq_ok.mp verified
  obtain ⟨_, _, rest⟩ := bind_eq_ok.mp rest
  obtain ⟨_, checked, _⟩ := bind_eq_ok.mp rest
  cases Option.some.inj ((okOr_eq_ok.mp isHead).symm.trans (verifyFullTreeHead_eq verified).1)
  unfold Client.treeSize
  cases isLast : client.lastTreeHead with
  | none => exact Nat.zero_le _
  | some last =>
    rw [isLast] at checked
    exact checkConsistencyMetadata_le checked

/-- The pointers are a map of positions at or after the first one of the key. -/
structure MonitoringData.Sound (data : MonitoringData) : Prop where
  range : ∀ ptr ∈ data.ptrs, data.pos ≤ ptr.1 ∧ ptr.1 < 2 ^ 64
  distinct : Entries.Distinct data.ptrs

/-- Every pointer is followed by one that stands for it. -/
structure MonitoringData.Follows (n : ℕ) (before after : MonitoringData) : Prop where
  pos_eq : after.pos = before.pos
  followed : ∀ ptr ∈ before.ptrs, ∃ new ∈ after.ptrs, StandsFor n new ptr
  inside : (∀ ptr ∈ before.ptrs, ptr.1 < n) → ∀ new ∈ after.ptrs, new.1 < n

namespace MonitoringData

variable {order : PointerOrder} {searchKey : List UInt8} {size n : ℕ}
  {steps : List (ℕ × ProofStep C)} {data updated : MonitoringData}

theorem Follows.refl (n : ℕ) (data : MonitoringData) : data.Follows n data :=
  ⟨rfl, fun ptr member => ⟨ptr, member, .refl _ _⟩, id⟩

theorem Sound.collected (sound : data.Sound) (fits : size < 2 ^ 64) {after : MonitoringData}
    (samePos : after.pos = data.pos) (collected : Collected size data.ptrs [] after.ptrs) :
    after.Sound where
  range := by
    intro new member
    rcases collected.origin new member with isNone | ⟨ptr, isPtr, stands⟩
    · cases isNone
    · have range := sound.range ptr isPtr
      have le := stands.le
      refine ⟨by omega, ?_⟩
      rcases stands with rfl | ⟨_, _, inside, _⟩ <;> omega
  distinct := collected.distinct List.nodup_nil

theorem update_sound (sound : data.Sound) (fits : size < 2 ^ 64)
    (isUpdated : data.update order searchKey size steps = .ok updated) :
    updated.Sound ∧ ∀ n, size ≤ n → Follows n data updated := by
  obtain ⟨_, samePos, collected⟩ := update_spec fits sound.range isUpdated
  refine ⟨sound.collected fits samePos collected, fun n le => ⟨samePos, ?_, ?_⟩⟩
  · intro ptr member
    obtain ⟨new, isNew, stands⟩ := collected.replaced ptr member
    exact ⟨new, isNew, stands.mono le⟩
  · intro inside new isNew
    rcases collected.origin new isNew with isNone | ⟨ptr, isPtr, stands⟩
    · cases isNone
    · exact (stands.mono le).lt (inside ptr isPtr)

end MonitoringData

section search

variable {order : PointerOrder} {searchKey : List UInt8} {data : Option MonitoringData}
  {config : PublicConfig} {monitor : Bool} {size n pos resultId : ℕ} {index : Index}
  {version : UInt32} {steps : List (ℕ × ProofStep C)} {result : Option MonitoringData}

theorem startMonitoring_sound (sound : ∀ stored ∈ data, stored.Sound) (pos_le : pos ≤ resultId)
    (small : resultId < 2 ^ 64) (owned : Bool) :
    (MonitoringData.startMonitoring data index pos resultId version owned).Sound := by
  cases data with
  | some stored => exact sound stored rfl
  | none =>
    refine ⟨?_, by simp [MonitoringData.startMonitoring, Entries.Distinct]⟩
    intro ptr member
    cases List.mem_singleton.mp member
    exact ⟨pos_le, small⟩

/-- What an accepted search does to the monitoring data of its key. -/
structure SearchMonitored (n resultId : ℕ) (version : UInt32) (before : Option MonitoringData)
    (after : MonitoringData) : Prop where
  sound : after.Sound
  pos_le : after.pos ≤ resultId
  covered : ∃ ptr ∈ after.ptrs, StandsFor n ptr (resultId, version)
  follows : ∀ stored ∈ before, stored.Follows n after
  agrees : ∀ stored ∈ before, ∀ ver, (resultId, ver) ∈ stored.ptrs → ver = version
  inside : (∀ stored ∈ before, ∀ ptr ∈ stored.ptrs, ptr.1 < n) → ∀ ptr ∈ after.ptrs, ptr.1 < n

theorem checkAndUpdate_spec {stored checked after : MonitoringData} (sound : stored.Sound)
    (fits : size < 2 ^ 64) (le : size ≤ n) (pos_le : pos ≤ resultId) (inside : resultId < size)
    (isChecked : stored.checkSearchConsistency size index pos resultId version monitor =
      .ok checked)
    (isUpdated : checked.update order searchKey size steps = .ok after) :
    SearchMonitored n resultId version (some stored) after := by
  obtain ⟨_, _, isChecked⟩ := bind_eq_ok.mp isChecked
  obtain ⟨_, samePos, isChecked⟩ := bind_eq_ok.mp isChecked
  obtain ⟨ptrs, isRecorded, isChecked⟩ := bind_eq_ok.mp isChecked
  cases isChecked
  have samePos := ensure_eq_ok.mp samePos
  have recorded := MonitoringData.recordVersion_spec fits pos_le inside isRecorded
  have checkedSound : MonitoringData.Sound
      { stored with ptrs := ptrs, owned := stored.owned || monitor } := by
    refine ⟨?_, recorded.distinct sound.distinct⟩
    intro ptr member
    rcases recorded.origin ptr member with isOld | ⟨rfl, _⟩
    · exact sound.range ptr isOld
    · exact ⟨by simpa [← samePos] using pos_le, by dsimp only; omega⟩
  obtain ⟨afterSound, follows⟩ := MonitoringData.update_sound checkedSound fits isUpdated
  have follows := follows n le
  refine ⟨afterSound, (follows.pos_eq.trans samePos.symm).trans_le pos_le, ?_, ?_, ?_, ?_⟩
  · obtain ⟨ptr, isPtr, stands⟩ := recorded.covered
    obtain ⟨new, isNew, standsNew⟩ := follows.followed ptr isPtr
    exact ⟨new, isNew, standsNew.trans (stands.mono le)⟩
  · rintro _ ⟨⟩
    refine ⟨follows.pos_eq, ?_, ?_⟩
    · intro ptr member
      exact follows.followed ptr (recorded.kept ptr member)
    · intro ptrsInside
      apply follows.inside
      intro ptr member
      rcases recorded.origin ptr member with isOld | ⟨rfl, _⟩
      · exact ptrsInside ptr isOld
      · exact inside.trans_le le
  · rintro _ ⟨⟩ ver member
    exact recorded.agrees sound.distinct ver member
  · intro ptrsInside
    apply follows.inside
    intro ptr member
    rcases recorded.origin ptr member with isOld | ⟨rfl, _⟩
    · exact ptrsInside stored rfl ptr isOld
    · exact inside.trans_le le

theorem updateMonitoring_spec (sound : ∀ stored ∈ data, stored.Sound) (fits : size < 2 ^ 64)
    (le : size ≤ n) (pos_le : pos ≤ resultId) (inside : resultId < size)
    (updated : updateMonitoring order searchKey data config monitor size index pos resultId
      version steps = .ok result) :
    (∀ after ∈ result, SearchMonitored n resultId version data after) ∧
      (data.isSome → result.isSome) := by
  unfold updateMonitoring at updated
  dsimp only at updated
  by_cases starts : (monitor || config.mode = .contactMonitoring) = true
  · -- The key is monitored from now on, if it was not before.
    rw [if_pos starts] at updated
    have started := @startMonitoring_sound data pos resultId index version sound pos_le (by omega)
      monitor
    obtain ⟨checked, isChecked, updated⟩ := bind_eq_ok.mp updated
    obtain ⟨after, isUpdated, updated⟩ := bind_eq_ok.mp updated
    cases updated
    have spec := checkAndUpdate_spec started fits le pos_le inside isChecked isUpdated
    refine ⟨?_, fun _ => rfl⟩
    rintro _ ⟨⟩
    cases data with
    | some stored => exact spec
    | none =>
      refine ⟨spec.sound, spec.pos_le, spec.covered, nofun, nofun, fun _ => spec.inside ?_⟩
      rintro _ ⟨⟩ ptr member
      cases List.mem_singleton.mp member
      exact inside.trans_le le
  · rw [if_neg starts] at updated
    cases data with
    | none =>
      cases updated
      exact ⟨nofun, nofun⟩
    | some stored =>
      obtain ⟨checked, isChecked, updated⟩ := bind_eq_ok.mp updated
      obtain ⟨after, isUpdated, updated⟩ := bind_eq_ok.mp updated
      cases updated
      refine ⟨?_, fun _ => rfl⟩
      rintro _ ⟨⟩
      exact checkAndUpdate_spec (sound stored rfl) fits le pos_le inside isChecked isUpdated

end search

theorem retainedSize_eq_ok {searchKey : List UInt8} {resultId treeSize size : ℕ}
    (inside : resultId < treeSize)
    (isSize : retainedSize searchKey resultId treeSize = .ok size) :
    resultId < size ∧ size ≤ treeSize := by
  unfold retainedSize at isSize
  split at isSize
  · have := LogTree.u64_eq_ok.mp isSize
    omega
  · cases isSize
    exact ⟨inside, le_rfl⟩

section monitor

variable {order : PointerOrder} {consistency : Option Consistency} {treeSize : ℕ}
  {data updates result : List UInt8 → Option MonitoringData}
  {pairs : List (MonitorKey × List (ℕ × ProofStep C))}

theorem updateAll_spec
    (updated : updateAll order consistency treeSize data pairs updates = .ok result)
    (searchKey : List UInt8) (after : MonitoringData) (isAfter : result searchKey = some after) :
    updates searchKey = some after ∨
      ∃ key steps size stored, (key, steps) ∈ pairs ∧ key.searchKey = searchKey ∧
        monitoredSize key consistency treeSize = .ok size ∧ data searchKey = some stored ∧
        stored.update order searchKey size steps = .ok after := by
  induction pairs generalizing updates with
  | nil =>
    cases updated
    exact .inl isAfter
  | cons pair rest ih =>
    obtain ⟨key, steps⟩ := pair
    obtain ⟨size, isSize, updated⟩ := bind_eq_ok.mp updated
    cases isStored : data key.searchKey with
    | none =>
      rw [isStored] at updated
      rcases ih updated with before | ⟨other, otherSteps, otherSize, stored, member, others⟩
      · exact .inl before
      · exact .inr ⟨other, otherSteps, otherSize, stored, .tail _ member, others⟩
    | some stored =>
      rw [isStored] at updated
      obtain ⟨new, isNew, updated⟩ := bind_eq_ok.mp updated
      rcases ih updated with before | ⟨other, otherSteps, otherSize, stored, member, others⟩
      · by_cases same : searchKey = key.searchKey
        · subst same
          rw [Function.update_self] at before
          cases before
          exact .inr ⟨key, steps, size, stored, List.mem_cons_self, rfl, isSize, isStored,
            isNew⟩
        · rw [Function.update_of_ne same] at before
          exact .inl before
      · exact .inr ⟨other, otherSteps, otherSize, stored, .tail _ member, others⟩

theorem monitoredSize_eq_ok {key : MonitorKey} {size : ℕ} (fits : treeSize < 2 ^ 64)
    (isSize : monitoredSize key consistency treeSize = .ok size) :
    size < 2 ^ 64 ∧ (key.searchKey ≠ distinguishedKey → size = treeSize) := by
  unfold monitoredSize at isSize
  split at isSize
  · next isDistinguished =>
      obtain ⟨last, _, isSize⟩ := bind_eq_ok.mp isSize
      cases isSize
      exact ⟨last.toNat_lt, fun other => absurd isDistinguished other⟩
  · cases isSize
    exact ⟨fits, fun _ => rfl⟩

end monitor

/-- What holds in every state of a run. -/
structure Client.Sound (client : Client C) : Prop where
  sound : ∀ searchKey, ∀ data ∈ client.data searchKey, data.Sound
  inside : ∀ searchKey, searchKey ≠ distinguishedKey → ∀ data ∈ client.data searchKey,
    ∀ ptr ∈ data.ptrs, ptr.1 < client.treeSize

namespace Client

variable {config : PublicConfig} {client after : Client C}

theorem empty_sound : (empty : Client C).Sound := ⟨nofun, nofun⟩

/-- What a step does to the data of a key. -/
structure Kept (client after : Client C) : Prop where
  grows : client.treeSize ≤ after.treeSize
  follows : ∀ searchKey, searchKey ≠ distinguishedKey → ∀ data ∈ client.data searchKey,
    ∃ next ∈ after.data searchKey, data.Follows after.treeSize next

section search

variable {order : PointerOrder} {req : SlimSearchRequest} {res : FullSearchResponse C}
  {distinguished : Option (LastTreeHead C)} {monitor : Bool} {now : ℕ}
  {update : SearchStateUpdate C}

def FoundAt (config : PublicConfig) (req : SlimSearchRequest) (res : FullSearchResponse C)
    (position : ℕ) (version : UInt32) : Prop :=
  ∃ index head proof walk found step prefixProof,
    SearchWalked config req res index head proof walk ∧ walk.result = some found ∧
      proof.steps[found.1]? = some step ∧ step.prefixProof = some prefixProof ∧
      position = found.2 ∧ version = prefixProof.counter

theorem FoundAt.unique {position otherPosition : ℕ} {version otherVersion : UInt32}
    (found : FoundAt config req res position version)
    (other : FoundAt config req res otherPosition otherVersion) :
    position = otherPosition ∧ version = otherVersion := by
  obtain ⟨index, head, proof, walk, entry, step, prefixProof, walked, isResult, isStep, isPrefix,
    rfl, rfl⟩ := found
  obtain ⟨_, _, _, _, _, _, _, otherWalked, otherResult, otherStep, otherPrefix, rfl, rfl⟩ := other
  cases Except.ok.inj (walked.vrf.symm.trans otherWalked.vrf)
  cases Option.some.inj (walked.treeHead.symm.trans otherWalked.treeHead)
  cases Option.some.inj (walked.search.symm.trans otherWalked.search)
  cases Except.ok.inj (walked.walked.symm.trans otherWalked.walked)
  cases Option.some.inj (isResult.symm.trans otherResult)
  cases Option.some.inj (isStep.symm.trans otherStep)
  cases Option.some.inj (isPrefix.symm.trans otherPrefix)
  exact ⟨rfl, rfl⟩

section

variable (sound : client.Sound)
  (accepted : verifySearch order config req res (client.searchContext req.searchKey distinguished)
    monitor now = .ok update)

include sound accepted

theorem search_monitored :
    client.treeSize ≤ (client.afterSearch req.searchKey update).treeSize ∧
      ((client.data req.searchKey).isSome → update.monitoringData.isSome) ∧
      ∃ position version, FoundAt config req res position version ∧
        ∀ next ∈ update.monitoringData, SearchMonitored
          (client.afterSearch req.searchKey update).treeSize position version
          (client.data req.searchKey) next := by
  obtain ⟨index, proof, walk, found, step, value, prefixProof, size, opened, isSize, updated⟩ :=
    verifySearch_eq_ok accepted
  have fits := update.treeHead.treeSize.toNat_lt
  obtain ⟨_, walked⟩ := walkSearch_spec fits opened.walked
  obtain ⟨pos_le, inside, _⟩ := walked.result found opened.result
  obtain ⟨inSize, size_le⟩ := retainedSize_eq_ok inside isSize
  obtain ⟨monitored, stays⟩ := updateMonitoring_spec
    (fun stored isStored => sound.sound req.searchKey stored isStored) (by omega) size_le pos_le
    inSize updated
  exact ⟨verifyFullTreeHead_le opened.verified, stays, found.2, prefixProof.counter,
    ⟨index, _, proof, walk, found, step, prefixProof, opened.toSearchWalked, opened.result,
      opened.isStep, opened.isPrefix, rfl, rfl⟩, monitored⟩

theorem search_sound :
    (client.afterSearch req.searchKey update).Sound ∧
      client.Kept (client.afterSearch req.searchKey update) := by
  obtain ⟨grows, stays, position, version, _, monitored⟩ := search_monitored sound accepted
  refine ⟨⟨?_, ?_⟩, grows, ?_⟩
  · intro searchKey data isData
    by_cases same : searchKey = req.searchKey
    · subst same
      simp only [afterSearch, Function.update_self] at isData
      exact (monitored data isData).sound
    · simp only [afterSearch, Function.update_of_ne same] at isData
      exact sound.sound searchKey data isData
  · intro searchKey ordinary data isData ptr member
    by_cases same : searchKey = req.searchKey
    · subst same
      simp only [afterSearch, Function.update_self] at isData
      refine (monitored data isData).inside ?_ ptr member
      intro stored isStored old isOld
      exact (sound.inside _ ordinary stored isStored old isOld).trans_le grows
    · simp only [afterSearch, Function.update_of_ne same] at isData
      exact (sound.inside _ ordinary data isData ptr member).trans_le grows
  · intro searchKey ordinary data isData
    by_cases same : searchKey = req.searchKey
    · subst same
      obtain ⟨next, isNext⟩ := Option.isSome_iff_exists.mp (stays (Option.isSome_of_mem isData))
      refine ⟨next, ?_, (monitored next isNext).follows data isData⟩
      simp only [afterSearch, Function.update_self]
      exact isNext
    · refine ⟨data, ?_, .refl _ _⟩
      simpa only [afterSearch, Function.update_of_ne same] using isData

end

end search

theorem monitor_sound {order : PointerOrder} {req : MonitorRequest} {res : MonitorResponse C}
    {distinguished : LastTreeHead C} {now : ℕ} {update : MonitorStateUpdate C}
    (sound : client.Sound)
    (accepted : verifyMonitor order config req res (client.monitorContext distinguished) now =
      .ok update) :
    (client.afterMonitor update).Sound ∧ client.Kept (client.afterMonitor update) := by
  obtain ⟨fullTreeHead, acc, inclusion, verified, updated⟩ := verifyMonitor_eq_ok accepted
  have grows : client.treeSize ≤ (client.afterMonitor update).treeSize :=
    verifyFullTreeHead_le verified.verified
  have fits := update.treeHead.treeSize.toNat_lt
  -- Each key's data is the stored one or an update of it.
  have changed : ∀ searchKey next, update.monitoringData searchKey = some next →
      ∃ stored, client.data searchKey = some stored ∧ next.Sound ∧
        (searchKey ≠ distinguishedKey →
          stored.Follows (client.afterMonitor update).treeSize next) := by
    intro searchKey next isNext
    rcases updateAll_spec updated searchKey next isNext with
      isNone | ⟨key, steps, size, stored, _, rfl, isSize, isStored, isUpdated⟩
    · cases isNone
    · obtain ⟨small, ordinary⟩ := monitoredSize_eq_ok fits isSize
      obtain ⟨nextSound, follows⟩ := MonitoringData.update_sound
        (sound.sound _ stored isStored) small isUpdated
      exact ⟨stored, isStored, nextSound, fun other => follows _ (ordinary other).le⟩
  refine ⟨⟨?_, ?_⟩, grows, ?_⟩
  · intro searchKey data isData
    cases isNext : update.monitoringData searchKey with
    | some next =>
      obtain ⟨_, _, nextSound, _⟩ := changed searchKey next isNext
      simp only [afterMonitor, isNext, Option.some_or] at isData
      cases isData
      exact nextSound
    | none =>
      simp only [afterMonitor, isNext, Option.none_or] at isData
      exact sound.sound searchKey data isData
  · intro searchKey ordinary data isData ptr member
    cases isNext : update.monitoringData searchKey with
    | some next =>
      obtain ⟨stored, isStored, _, follows⟩ := changed searchKey next isNext
      simp only [afterMonitor, isNext, Option.some_or] at isData
      cases isData
      refine (follows ordinary).inside ?_ ptr member
      intro old isOld
      exact (sound.inside _ ordinary stored isStored old isOld).trans_le grows
    | none =>
      simp only [afterMonitor, isNext, Option.none_or] at isData
      exact (sound.inside _ ordinary data isData ptr member).trans_le grows
  · intro searchKey ordinary data isData
    cases isNext : update.monitoringData searchKey with
    | some next =>
      obtain ⟨stored, isStored, _, follows⟩ := changed searchKey next isNext
      cases Option.some.inj (isStored.symm.trans isData)
      refine ⟨next, ?_, follows ordinary⟩
      simp only [afterMonitor, isNext, Option.some_or]
      rfl
    | none =>
      refine ⟨data, ?_, .refl _ _⟩
      simpa only [afterMonitor, isNext, Option.none_or] using isData

theorem Step.sound (step : Step config client after) (sound : client.Sound) :
    after.Sound ∧ client.Kept after := by
  cases step with
  | search accepted => exact search_sound sound accepted
  | monitor accepted => exact monitor_sound sound accepted

theorem Reaches.sound (run : Reaches config client after) (sound : client.Sound) : after.Sound := by
  induction run with
  | refl => exact sound
  | tail _ step ih => exact (step.sound ih).1

end Client

end LegacySignal.KeyTransparency
