import LegacySignal.KeyTransparency.Verify

/-!
# Updates of monitoring data

A pointer of the monitoring data is replaced only by one that stands for it: at
the same position or at one above it in the implicit tree, with a version that
is not smaller.
-/

namespace LegacySignal.KeyTransparency

open FlatTree Run Entries
open Result (bind_eq_ok)

variable {C : Crypto}

/-- In a tree of `n` entries the pointer is the other one, or one with no smaller version that
stands later on its monitoring path. -/
def StandsFor (n : ℕ) (ptr other : ℕ × UInt32) : Prop :=
  ptr = other ∨
    other.2 ≤ ptr.2 ∧ other.1 < ptr.1 ∧ ptr.1 < n ∧ IsAbove ptr.1 other.1

namespace StandsFor

variable {n : ℕ} {ptr other first : ℕ × UInt32}

theorem refl (n : ℕ) (ptr : ℕ × UInt32) : StandsFor n ptr ptr := .inl rfl

theorem version_le (stands : StandsFor n ptr other) : other.2 ≤ ptr.2 := by
  rcases stands with rfl | ⟨le, _⟩
  · exact UInt32.le_refl _
  · exact le

theorem trans (upper : StandsFor n ptr other) (lower : StandsFor n other first) :
    StandsFor n ptr first := by
  rcases upper with rfl | ⟨notLess, after, inside, above⟩
  · exact lower
  · rcases lower with rfl | ⟨firstNotLess, before, _, below⟩
    · exact .inr ⟨notLess, after, inside, above⟩
    · exact .inr ⟨UInt32.le_trans firstNotLess notLess, before.trans after, inside,
        above.trans below⟩

theorem mono {size : ℕ} (stands : StandsFor n ptr other) (grown : n ≤ size) :
    StandsFor size ptr other := by
  rcases stands with same | ⟨notLess, after, inside, above⟩
  · exact .inl same
  · exact .inr ⟨notLess, after, inside.trans_le grown, above⟩

theorem le (stands : StandsFor n ptr other) : other.1 ≤ ptr.1 := by
  rcases stands with rfl | ⟨_, after, _⟩
  · exact Nat.le_refl _
  · exact after.le

theorem lt (stands : StandsFor n ptr other) (inside : other.1 < n) : ptr.1 < n := by
  rcases stands with rfl | ⟨_, _, after, _⟩
  · exact inside
  · exact after

end StandsFor

namespace MonitoringData

section mapping

variable {storedPos firstPos treeSize : ℕ} {storedVer : UInt32}
  {get : ℕ → Verification (Option UInt32)} {steps : List (ℕ × ProofStep C)}

theorem extractVersion_returns (steps : List (ℕ × ProofStep C)) (position : ℕ) :
    Returns (extractVersion steps position) := by
  unfold extractVersion
  cases lookup position steps with
  | none => trivial
  | some step =>
    dsimp only
    exact returns_okOr_bind.mpr fun _ _ => trivial

theorem extractVersion_eq_none {position : ℕ} :
    extractVersion steps position = .ok none ↔ position ∉ steps.map Prod.fst := by
  unfold extractVersion
  cases found : lookup position steps with
  | none =>
    have absent := lookup_eq_none.mp found
    refine ⟨fun _ member => ?_, fun _ => rfl⟩
    obtain ⟨entry, isEntry, rfl⟩ := List.mem_map.mp member
    exact absent entry.2 isEntry
  | some step =>
    have member := List.mem_map_of_mem (f := Prod.fst) (mem_of_lookup_eq_some found)
    dsimp only
    constructor
    · intro isNone
      obtain ⟨_, _, isNone⟩ := bind_eq_ok.mp isNone
      cases isNone
    · intro absent
      exact absurd member absent

theorem extractVersion_closed {n : ℕ} (closed : UpClosed n (steps.map Prod.fst))
    (position upper : ℕ) (after : position < upper) (inside : upper < n)
    (above : IsAbove upper position) (known : extractVersion steps position ≠ .ok none) :
    extractVersion steps upper ≠ .ok none := by
  rw [Ne, extractVersion_eq_none, not_not] at known ⊢
  exact closed position known upper after inside above

theorem lt_of_not_underRoot (fits : treeSize < 2 ^ 64) (first_le : firstPos ≤ storedPos)
    (outside : ¬UnderRoot firstPos treeSize storedPos) : treeSize ≤ storedPos := by
  by_contra inside
  exact outside (underRoot_of_lt first_le (by omega) fits)

theorem findUpdatedMapping_returns (fits : treeSize < 2 ^ 64) (small : storedPos < 2 ^ 64)
    (first_le : firstPos ≤ storedPos) (getReturns : ∀ position, Returns (get position)) :
    Returns (findUpdatedMapping storedPos storedVer firstPos treeSize get) ↔
      UnderRoot firstPos treeSize storedPos := by
  unfold findUpdatedMapping
  constructor
  · intro returns
    by_contra outside
    have beyond := lt_of_not_underRoot fits first_le outside
    exact forMonitoringPath_not_returns fits small outside
      (fun position after inside => by omega) none returns
  · rintro ⟨top, found, under⟩
    obtain ⟨path, _, _, loop⟩ := forMonitoringPath_eq found under fits
    rw [loop]
    apply returns_forIn
    intro position _ state
    refine returns_bind.mpr ⟨getReturns position, ?_⟩
    intro version _
    cases version with
    | none => trivial
    | some newVersion =>
      dsimp only
      split <;> trivial

theorem visitMapping_eq_ok {position : ℕ} {mapping : Option (ℕ × UInt32)}
    {step : ForInStep (Option (ℕ × UInt32))}
    (visited : visitMapping storedVer get position mapping = .ok step) :
    (get position = .ok none ∧ step = .done mapping) ∨
      ∃ version, get position = .ok (some version) ∧ storedVer ≤ version ∧
        step = .yield (some (position, version)) := by
  obtain ⟨version, isVersion, visited⟩ := bind_eq_ok.mp visited
  cases version with
  | none =>
    cases visited
    exact .inl ⟨isVersion, rfl⟩
  | some version =>
    dsimp only at visited
    split at visited
    · cases visited
    · next notSmaller =>
        cases visited
        exact .inr ⟨version, isVersion, UInt32.not_lt.mp notSmaller, rfl⟩

theorem findUpdatedMapping_spec (fits : treeSize < 2 ^ 64)
    (under : UnderRoot firstPos treeSize storedPos) {mapping : Option (ℕ × UInt32)}
    (found : findUpdatedMapping storedPos storedVer firstPos treeSize get = .ok mapping) :
    ∀ ptr ∈ mapping, StandsFor treeSize ptr (storedPos, storedVer) := by
  obtain ⟨top, isTop, above⟩ := under
  obtain ⟨path, members, _, loop⟩ := forMonitoringPath_eq isTop above fits
  unfold findUpdatedMapping at found
  rw [loop] at found
  refine forIn_invariant
    (motive := fun mapping => ∀ ptr ∈ mapping, StandsFor treeSize ptr (storedPos, storedVer)) ?_
    (fun _ isNone => absurd isNone (Option.not_mem_none _)) found
  intro position onPath mapping next holds visited ptr isNext
  obtain ⟨after, inside, isAbove, _⟩ := (members position).mp onPath
  rcases visited with visited | visited
  all_goals rcases visitMapping_eq_ok visited with ⟨_, ⟨⟩⟩ | ⟨version, _, notSmaller, ⟨⟩⟩
  · cases isNext
    exact .inr ⟨notSmaller, after, inside, isAbove⟩
  · exact holds ptr isNext

def AtTop (n position : ℕ) : Prop :=
  ∀ upper, position < upper → upper < n → ¬IsAbove upper position

section top

variable {path : List ℕ} {result : Option (ℕ × UInt32)}

theorem forIn_known {mapping : ℕ × UInt32} (sorted : path.Pairwise (· < ·))
    (known : ∀ position ∈ path, get position ≠ .ok none)
    (ended : forIn path (some mapping) (visitMapping storedVer get) = .ok result) :
    ∃ new, result = some new ∧ (new = mapping ∨ new.1 ∈ path) ∧
      ∀ position ∈ path, position ≤ new.1 := by
  induction path generalizing mapping with
  | nil =>
    cases ended
    exact ⟨mapping, rfl, .inl rfl, nofun⟩
  | cons position rest ih =>
    obtain ⟨after, sorted⟩ := List.pairwise_cons.mp sorted
    rw [List.forIn_cons] at ended
    obtain ⟨step, visited, ended⟩ := bind_eq_ok.mp ended
    obtain ⟨unknown, _⟩ | ⟨version, _, _, rfl⟩ := visitMapping_eq_ok visited
    · exact absurd unknown (known position List.mem_cons_self)
    obtain ⟨new, isNew, origin, greatest⟩ :=
      ih sorted (fun other member => known other (.tail _ member)) ended
    have le : position ≤ new.1 := by
      rcases origin with rfl | onPath
      · exact Nat.le_refl _
      · exact (after _ onPath).le
    refine ⟨new, isNew, .inr ?_, ?_⟩
    · rcases origin with rfl | onPath
      · exact List.mem_cons_self
      · exact .tail _ onPath
    · intro other member
      rcases List.mem_cons.mp member with rfl | isRest
      · exact le
      · exact greatest other isRest

theorem findUpdatedMapping_top (fits : treeSize < 2 ^ 64) (first_le : firstPos ≤ storedPos)
    (inside : storedPos < treeSize)
    (closed : ∀ position upper, position < upper → upper < treeSize → IsAbove upper position →
      get position ≠ .ok none → get upper ≠ .ok none)
    (found : findUpdatedMapping storedPos storedVer firstPos treeSize get = .ok result) :
    ∀ new ∈ result, AtTop treeSize new.1 := by
  obtain ⟨path, members, sorted, loop⟩ := forMonitoringPath_spec first_le inside fits
  unfold findUpdatedMapping at found
  rw [loop] at found
  cases path with
  | nil =>
    cases found
    exact nofun
  | cons position rest =>
    obtain ⟨after, restSorted⟩ := List.pairwise_cons.mp sorted
    have onPath := fun other => (members other).mp
    rw [List.forIn_cons] at found
    obtain ⟨step, visited, ended⟩ := bind_eq_ok.mp found
    rcases visitMapping_eq_ok visited with ⟨_, rfl⟩ | ⟨version, isVersion, _, rfl⟩
    · cases ended
      exact nofun
    · have allKnown : ∀ other ∈ rest, get other ≠ .ok none := by
        intro other member
        obtain ⟨firstAfter, _, firstAbove⟩ := onPath position List.mem_cons_self
        obtain ⟨_, otherInside, otherAbove⟩ := onPath other (.tail _ member)
        exact closed position other (after other member) otherInside
          (otherAbove.of_lt firstAbove firstAfter (after other member)) (by simp [isVersion])
      obtain ⟨new, rfl, origin, greatest⟩ := forIn_known restSorted allKnown ended
      rintro _ ⟨⟩ upper later upperInside above
      have newOnPath : new.1 ∈ position :: rest := by
        rcases origin with rfl | onRest
        · exact List.mem_cons_self
        · exact .tail _ onRest
      obtain ⟨newAfter, _, newAbove⟩ := onPath _ newOnPath
      have isUpper := (members upper).mpr ⟨newAfter.trans later, upperInside,
        above.trans newAbove⟩
      rcases List.mem_cons.mp isUpper with rfl | isRest
      · rcases List.mem_cons.mp newOnPath with same | isRest
        · omega
        · have := after _ isRest
          omega
      · have := greatest upper isRest
        omega

end top

end mapping

section update

variable {firstPos treeSize : ℕ} {steps : List (ℕ × ProofStep C)}
  {ptrs out result : List (ℕ × UInt32)}

theorem updatePtrs_returns (fits : treeSize < 2 ^ 64)
    (range : ∀ ptr ∈ ptrs, firstPos ≤ ptr.1 ∧ ptr.1 < 2 ^ 64)
    (under : ∀ ptr ∈ ptrs, UnderRoot firstPos treeSize ptr.1) :
    Returns (updatePtrs firstPos treeSize steps ptrs out) := by
  induction ptrs generalizing out with
  | nil => trivial
  | cons ptr rest ih =>
    have ih := fun out => @ih out (fun other member => range other (.tail _ member))
      (fun other member => under other (.tail _ member))
    obtain ⟨first_le, small⟩ := range ptr List.mem_cons_self
    rw [updatePtrs, returns_bind]
    refine ⟨(findUpdatedMapping_returns fits small first_le (extractVersion_returns steps)).mpr
      (under ptr List.mem_cons_self), ?_⟩
    intro mapping _
    dsimp only
    cases lookup (mapping.getD (ptr.1, ptr.2)).1 out with
    | none => exact ih _
    | some existing =>
      dsimp only
      split
      · exact ih _
      · trivial

theorem updatePtrs_not_returns {ptr : ℕ × UInt32} (fits : treeSize < 2 ^ 64)
    (range : firstPos ≤ ptr.1 ∧ ptr.1 < 2 ^ 64)
    (outside : ¬UnderRoot firstPos treeSize ptr.1) :
    ¬Returns (updatePtrs firstPos treeSize steps (ptr :: ptrs) out) := by
  rw [updatePtrs, returns_bind]
  rintro ⟨returns, _⟩
  exact outside ((findUpdatedMapping_returns fits range.2 range.1
    (extractVersion_returns steps)).mp returns)

theorem underRoot_of_updatePtrs (fits : treeSize < 2 ^ 64)
    (range : ∀ ptr ∈ ptrs, firstPos ≤ ptr.1 ∧ ptr.1 < 2 ^ 64)
    (updated : updatePtrs firstPos treeSize steps ptrs out = .ok result) :
    ∀ ptr ∈ ptrs, UnderRoot firstPos treeSize ptr.1 := by
  induction ptrs generalizing out with
  | nil => exact nofun
  | cons ptr rest ih =>
    have ih := fun out => @ih out fun other member => range other (.tail _ member)
    obtain ⟨first_le, small⟩ := range ptr List.mem_cons_self
    obtain ⟨mapping, found, updated⟩ := bind_eq_ok.mp updated
    have under := (findUpdatedMapping_returns fits small first_le
      (extractVersion_returns steps)).mp (returns_of_eq_ok found)
    intro other member
    rcases List.mem_cons.mp member with rfl | member
    · exact under
    · dsimp only at updated
      cases known : lookup (mapping.getD (ptr.1, ptr.2)).1 out with
      | none =>
        rw [known] at updated
        exact ih _ updated other member
      | some existing =>
        rw [known] at updated
        dsimp only at updated
        split at updated
        · exact ih _ updated other member
        · cases updated

/-- What the loop over the pointers has collected at its end. -/
structure Collected (treeSize : ℕ) (ptrs out result : List (ℕ × UInt32)) : Prop where
  kept : ∀ ptr ∈ out, ptr ∈ result
  replaced : ∀ ptr ∈ ptrs, ∃ new ∈ result, StandsFor treeSize new ptr
  origin : ∀ new ∈ result, new ∈ out ∨ ∃ ptr ∈ ptrs, StandsFor treeSize new ptr
  distinct : Distinct out → Distinct result

theorem Collected.step {ptr new : ℕ × UInt32} {between : List (ℕ × UInt32)}
    (stands : StandsFor treeSize new ptr) (isNew : new ∈ between)
    (kept : ∀ other ∈ out, other ∈ between) (origin : ∀ other ∈ between, other ∈ out ∨ other = new)
    (distinct : Distinct out → Distinct between)
    (rest : Collected treeSize ptrs between result) :
    Collected treeSize (ptr :: ptrs) out result where
  kept other member := rest.kept other (kept other member)
  replaced := by
    intro other member
    rcases List.mem_cons.mp member with rfl | member
    · exact ⟨new, rest.kept new isNew, stands⟩
    · exact rest.replaced other member
  origin := by
    intro other member
    rcases rest.origin other member with isBetween | ⟨old, isOld, standsFor⟩
    · rcases origin other isBetween with isOut | rfl
      · exact .inl isOut
      · exact .inr ⟨ptr, List.mem_cons_self, stands⟩
    · exact .inr ⟨old, .tail _ isOld, standsFor⟩
  distinct isDistinct := rest.distinct (distinct isDistinct)

theorem updatePtrs_spec (fits : treeSize < 2 ^ 64)
    (range : ∀ ptr ∈ ptrs, firstPos ≤ ptr.1 ∧ ptr.1 < 2 ^ 64)
    (updated : updatePtrs firstPos treeSize steps ptrs out = .ok result) :
    Collected treeSize ptrs out result := by
  induction ptrs generalizing out with
  | nil =>
    cases updated
    exact ⟨fun _ member => member, nofun, fun _ member => .inl member, id⟩
  | cons ptr rest ih =>
    have ih := fun out => @ih out (fun other member => range other (.tail _ member))
    obtain ⟨first_le, small⟩ := range ptr List.mem_cons_self
    obtain ⟨mapping, found, updated⟩ := bind_eq_ok.mp updated
    dsimp only at updated
    have under := (findUpdatedMapping_returns fits small first_le
      (extractVersion_returns steps)).mp (returns_of_eq_ok found)
    have stands : StandsFor treeSize (mapping.getD (ptr.1, ptr.2)) ptr := by
      have spec := findUpdatedMapping_spec fits under found
      cases mapping with
      | none => exact .refl _ _
      | some new => exact spec new rfl
    generalize mapping.getD (ptr.1, ptr.2) = new at stands updated
    cases known : lookup new.1 out with
    | some existing =>
      rw [known] at updated
      dsimp only at updated
      split at updated
      · next same =>
          have isNew : new ∈ out := by
            have member := mem_of_lookup_eq_some known
            rwa [← same] at member
          exact .step stands isNew (fun _ member => member) (fun _ member => .inl member) id
            (ih _ updated)
      · cases updated
    | none =>
      rw [known] at updated
      refine .step stands (by simp) (fun _ member => List.mem_append_left _ member) ?_ ?_
        (ih _ updated)
      · intro other member
        rcases List.mem_append.mp member with isOut | isNew
        · exact .inl isOut
        · exact .inr (List.mem_singleton.mp isNew)
      · intro distinct
        have absent := lookup_eq_none.mp known
        unfold Distinct
        rw [List.map_append, List.nodup_append]
        refine ⟨distinct, by simp, ?_⟩
        intro position isOut other isNew same
        obtain ⟨entry, member, rfl⟩ := List.mem_map.mp isOut
        simp only [List.map_cons, List.map_nil, List.mem_singleton] at isNew
        exact absent entry.2 (by rw [← isNew, ← same]; exact member)

theorem updatePtrs_top (fits : treeSize < 2 ^ 64) (closed : UpClosed treeSize (steps.map Prod.fst))
    (range : ∀ ptr ∈ ptrs, firstPos ≤ ptr.1 ∧ ptr.1 < treeSize)
    (updated : updatePtrs firstPos treeSize steps ptrs out = .ok result) :
    ∀ new ∈ result, new ∈ out ∨ new ∈ ptrs ∨ AtTop treeSize new.1 := by
  induction ptrs generalizing out with
  | nil =>
    cases updated
    exact fun _ member => .inl member
  | cons ptr rest ih =>
    obtain ⟨first_le, inside⟩ := range ptr List.mem_cons_self
    obtain ⟨mapping, found, updated⟩ := bind_eq_ok.mp updated
    dsimp only at updated
    have isTop := findUpdatedMapping_top fits first_le inside
      (extractVersion_closed closed) found
    have mapped : mapping.getD (ptr.1, ptr.2) = ptr ∨
        AtTop treeSize (mapping.getD (ptr.1, ptr.2)).1 := by
      cases mapping with
      | none => exact .inl rfl
      | some new => exact .inr (isTop new rfl)
    generalize mapping.getD (ptr.1, ptr.2) = moved at mapped updated
    have fromRest : ∀ between, updatePtrs firstPos treeSize steps rest between = .ok result →
        (∀ other ∈ between, other ∈ out ∨ other = moved) →
        ∀ new ∈ result, new ∈ out ∨ new ∈ ptr :: rest ∨ AtTop treeSize new.1 := by
      intro between updated origin new member
      rcases ih (fun other isOther => range other (.tail _ isOther)) updated new member with
        isBetween | isRest | atTop
      · rcases origin new isBetween with isOut | rfl
        · exact .inl isOut
        · rcases mapped with rfl | atTop
          · exact .inr (.inl List.mem_cons_self)
          · exact .inr (.inr atTop)
      · exact .inr (.inl (.tail _ isRest))
      · exact .inr (.inr atTop)
    cases known : lookup moved.1 out with
    | some existing =>
      rw [known] at updated
      dsimp only at updated
      split at updated
      · exact fromRest _ updated fun _ isOut => .inl isOut
      · cases updated
    | none =>
      rw [known] at updated
      refine fromRest _ updated ?_
      intro other member
      rcases List.mem_append.mp member with isOut | isMoved
      · exact .inl isOut
      · exact .inr (List.mem_singleton.mp isMoved)

end update

variable {data updated : MonitoringData} {order : PointerOrder} {searchKey : List UInt8}
  {treeSize : ℕ} {steps : List (ℕ × ProofStep C)} {zeroPos verPos : ℕ} {version : UInt32}

/-- The order with one pointer before all others. -/
def firstOrder (ptr : ℕ × UInt32) : PointerOrder where
  order _ ptrs := if ptr ∈ ptrs then ptr :: ptrs.erase ptr else ptrs
  perm := by
    intro searchKey ptrs
    split
    · next member => exact (List.perm_cons_erase member).symm
    · exact .refl _

section

variable (fits : treeSize < 2 ^ 64) (range : ∀ ptr ∈ data.ptrs, data.pos ≤ ptr.1 ∧ ptr.1 < 2 ^ 64)

include fits range

theorem update_returns :
    (∀ order, Returns (data.update order searchKey treeSize steps)) ↔
      ∀ ptr ∈ data.ptrs, UnderRoot data.pos treeSize ptr.1 := by
  constructor
  · intro returns ptr member
    by_contra outside
    have returns := returns (firstOrder ptr)
    unfold update at returns
    rw [returns_bind] at returns
    have isFirst : (firstOrder ptr).order searchKey data.ptrs = ptr :: data.ptrs.erase ptr :=
      if_pos member
    rw [isFirst] at returns
    exact updatePtrs_not_returns fits (range ptr member) outside returns.1
  · intro under order
    have perm := order.perm searchKey data.ptrs
    unfold update
    refine returns_bind.mpr ⟨updatePtrs_returns fits ?_ ?_, fun _ _ => trivial⟩
    · intro ptr member
      exact range ptr (perm.mem_iff.mp member)
    · intro ptr member
      exact under ptr (perm.mem_iff.mp member)

theorem underRoot_of_update (isUpdated : data.update order searchKey treeSize steps = .ok updated) :
    ∀ ptr ∈ data.ptrs, UnderRoot data.pos treeSize ptr.1 := by
  have perm := order.perm searchKey data.ptrs
  obtain ⟨ptrs, collected, _⟩ := bind_eq_ok.mp isUpdated
  intro ptr member
  exact underRoot_of_updatePtrs fits (fun ptr member => range ptr (perm.mem_iff.mp member))
    collected ptr (perm.mem_iff.mpr member)

theorem update_spec (isUpdated : data.update order searchKey treeSize steps = .ok updated) :
    updated.index = data.index ∧ updated.pos = data.pos ∧
      Collected treeSize data.ptrs [] updated.ptrs := by
  have perm := order.perm searchKey data.ptrs
  obtain ⟨ptrs, collected, isUpdated⟩ := bind_eq_ok.mp isUpdated
  cases isUpdated
  have spec := updatePtrs_spec fits (fun ptr member => range ptr (perm.mem_iff.mp member)) collected
  refine ⟨rfl, rfl, nofun, ?_, ?_, spec.distinct⟩
  · intro ptr member
    exact spec.replaced ptr (perm.mem_iff.mpr member)
  · intro new member
    rcases spec.origin new member with isNone | ⟨ptr, isPtr, stands⟩
    · cases isNone
    · exact .inr ⟨ptr, perm.mem_iff.mp isPtr, stands⟩

end

theorem update_top (fits : treeSize < 2 ^ 64) (closed : UpClosed treeSize (steps.map Prod.fst))
    (range : ∀ ptr ∈ data.ptrs, data.pos ≤ ptr.1 ∧ ptr.1 < treeSize)
    (isUpdated : data.update order searchKey treeSize steps = .ok updated) :
    ∀ new ∈ updated.ptrs, new ∈ data.ptrs ∨ AtTop treeSize new.1 := by
  have perm := order.perm searchKey data.ptrs
  obtain ⟨ptrs, collected, isUpdated⟩ := bind_eq_ok.mp isUpdated
  cases isUpdated
  intro new member
  rcases updatePtrs_top fits closed (fun ptr member => range ptr (perm.mem_iff.mp member))
    collected new member with isNone | isPtr | atTop
  · cases isNone
  · exact .inl (perm.mem_iff.mp isPtr)
  · exact .inr atTop

theorem findOnPath_returns (fits : treeSize < 2 ^ 64) (zero_le : zeroPos ≤ verPos)
    (inside : verPos < treeSize) : Returns (data.findOnPath verPos zeroPos treeSize) := by
  obtain ⟨path, _, _, loop⟩ := forMonitoringPath_spec zero_le inside fits
  unfold findOnPath
  rw [loop]
  apply returns_forIn
  intro position _ state
  cases lookup position data.ptrs <;> trivial

theorem findOnPath_spec (fits : treeSize < 2 ^ 64) (zero_le : zeroPos ≤ verPos)
    (inside : verPos < treeSize) {found : Option UInt32}
    (isFound : data.findOnPath verPos zeroPos treeSize = .ok found) :
    ∀ ver ∈ found, ∃ position, (position, ver) ∈ data.ptrs ∧
      verPos < position ∧ position < treeSize ∧ IsAbove position verPos := by
  obtain ⟨path, members, _, loop⟩ := forMonitoringPath_spec zero_le inside fits
  unfold findOnPath at isFound
  rw [loop] at isFound
  refine forIn_invariant
    (motive := fun found => ∀ ver ∈ found, ∃ position, (position, ver) ∈ data.ptrs ∧
      verPos < position ∧ position < treeSize ∧ IsAbove position verPos) ?_
    (fun _ isNone => absurd isNone (Option.not_mem_none _)) isFound
  intro position onPath state next _ visited ver isNext
  cases known : lookup position data.ptrs with
  | none =>
    rw [known] at visited
    rcases visited with visited | visited
    · cases visited
      cases isNext
    · cases visited
  | some stored =>
    rw [known] at visited
    rcases visited with visited | visited
    · cases visited
    · cases visited
      cases isNext
      exact ⟨position, mem_of_lookup_eq_some known, (members position).mp onPath⟩

/-- No pointer stands at the position or later on its monitoring path. -/
def Fresh (n : ℕ) (ptrs : List (ℕ × UInt32)) (position : ℕ) : Prop :=
  ∀ ptr ∈ ptrs, ptr.1 ≠ position ∧
    (position < ptr.1 → ptr.1 < n → ¬IsAbove ptr.1 position)

theorem findOnPath_none (fits : treeSize < 2 ^ 64) (zero_le : zeroPos ≤ verPos)
    (inside : verPos < treeSize)
    (isNone : data.findOnPath verPos zeroPos treeSize = .ok none) :
    ∀ ptr ∈ data.ptrs, verPos < ptr.1 → ptr.1 < treeSize → ¬IsAbove ptr.1 verPos := by
  obtain ⟨path, members, sorted, loop⟩ := forMonitoringPath_spec zero_le inside fits
  unfold findOnPath at isNone
  rw [loop] at isNone
  have absent : ∀ position ∈ path, lookup position data.ptrs = none := by
    clear members loop sorted
    induction path with
    | nil => exact nofun
    | cons position rest ih =>
      rw [List.forIn_cons] at isNone
      obtain ⟨step, visited, ended⟩ := bind_eq_ok.mp isNone
      cases known : lookup position data.ptrs with
      | some ver =>
        rw [known] at visited
        cases visited
        cases ended
      | none =>
        rw [known] at visited
        cases visited
        intro other member
        rcases List.mem_cons.mp member with rfl | isRest
        · exact known
        · exact ih ended other isRest
  intro ptr member after ptrInside above
  have known := absent ptr.1 ((members ptr.1).mpr ⟨after, ptrInside, above⟩)
  exact lookup_eq_none.mp known ptr.2 member

theorem recordVersion_returns (fits : treeSize < 2 ^ 64) (zero_le : zeroPos ≤ verPos)
    (inside : verPos < treeSize) :
    Returns (data.recordVersion treeSize zeroPos verPos version) := by
  unfold recordVersion
  cases lookup verPos data.ptrs with
  | some ver =>
    dsimp only
    split <;> trivial
  | none =>
    dsimp only
    refine returns_bind.mpr ⟨findOnPath_returns fits zero_le inside, ?_⟩
    intro found _
    cases found with
    | none => trivial
    | some ver =>
      dsimp only
      split <;> trivial

/-- What the pointers are after a version was found. -/
structure Recorded (treeSize : ℕ) (found : ℕ × UInt32) (before after : List (ℕ × UInt32)) :
    Prop where
  kept : ∀ ptr ∈ before, ptr ∈ after
  covered : ∃ ptr ∈ after, StandsFor treeSize ptr found
  origin : ∀ ptr ∈ after, ptr ∈ before ∨ ptr = found ∧ Fresh treeSize before found.1
  distinct : Distinct before → Distinct after
  agrees : Distinct before → ∀ ver, (found.1, ver) ∈ before → ver = found.2

theorem recordVersion_spec (fits : treeSize < 2 ^ 64) (zero_le : zeroPos ≤ verPos)
    (inside : verPos < treeSize) {ptrs : List (ℕ × UInt32)}
    (recorded : data.recordVersion treeSize zeroPos verPos version = .ok ptrs) :
    Recorded treeSize (verPos, version) data.ptrs ptrs := by
  unfold recordVersion at recorded
  cases known : lookup verPos data.ptrs with
  | some ver =>
    rw [known] at recorded
    dsimp only at recorded
    split at recorded
    · next same =>
        cases recorded
        cases same
        have member := mem_of_lookup_eq_some known
        exact ⟨fun _ isPtr => isPtr, ⟨_, member, .refl _ _⟩, fun _ isPtr => .inl isPtr, id,
          fun distinct ver isVer => distinct.eq_of_mem isVer member⟩
    · cases recorded
  | none =>
    rw [known] at recorded
    have absent := lookup_eq_none.mp known
    obtain ⟨found, isFound, recorded⟩ := bind_eq_ok.mp recorded
    have onPath := findOnPath_spec fits zero_le inside isFound
    cases found with
    | some ver =>
      dsimp only at recorded
      split at recorded
      · cases recorded
      · next notSmaller =>
          cases recorded
          obtain ⟨position, member, above⟩ := onPath ver rfl
          exact ⟨fun _ isPtr => isPtr,
            ⟨_, member, .inr ⟨UInt32.not_lt.mp notSmaller, above⟩⟩, fun _ isPtr => .inl isPtr, id,
            fun _ other isOther => absurd isOther (absent other)⟩
    | none =>
      cases recorded
      refine ⟨?_, ⟨_, mem_insert.mpr (.inl rfl), .refl _ _⟩, ?_,
        fun distinct => distinct.insert _ _,
        fun _ other isOther => absurd isOther (absent other)⟩
      · intro ptr member
        refine mem_insert.mpr (.inr ⟨member, ?_⟩)
        intro same
        exact absent ptr.2 (by rw [← same]; exact member)
      · intro ptr member
        rcases mem_insert.mp member with isNew | ⟨isOld, _⟩
        · refine .inr ⟨isNew, fun old isOld => ⟨?_, ?_⟩⟩
          · rintro rfl
            exact absent old.2 isOld
          · exact findOnPath_none fits zero_le inside isFound old isOld
        · exact .inl isOld

end MonitoringData

end LegacySignal.KeyTransparency
