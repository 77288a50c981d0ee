import LegacySignal.KeyTransparency.ImplicitTree

/-!
# The entries to be monitored

The full monitoring path is in order: the positions above the entry, and then
the frontier to its end. A larger log only adds to the first part, and
`next_monitor` says which is the first size at which there is one.
-/

namespace LegacySignal.KeyTransparency

open FlatTree Run List

variable {Failure : Type} {start n entry upper lower : ℕ}

theorem getLast?_eq_of_pairwise {positions : List ℕ} (sorted : positions.Pairwise (· < ·))
    {last : ℕ}
    (member : last ∈ positions) (upTo : ∀ position ∈ positions, position ≤ last) :
    positions.getLast? = some last := by
  obtain ⟨init, final, rfl⟩ := eq_nil_or_concat positions |>.resolve_left
    (ne_nil_of_mem member)
  rw [concat_eq_append] at *
  rw [getLast?_concat]
  rcases mem_append.mp member with isInit | isFinal
  · have before := (pairwise_append.mp sorted).2.2 last isInit final
      (mem_singleton_self _)
    have after := upTo final (mem_append_right _ (mem_singleton_self _))
    omega
  · rw [mem_singleton.mp isFinal]

/-- A child in the search tree, on a side where the log has positions. -/
def IsChild (start n upper lower : ℕ) : Prop :=
  start < upper ∧ upper < n ∧ (left upper start n : Run Empty ℕ) = .ok lower ∨
    start ≤ upper ∧ upper + 1 < n ∧ (right upper start n : Run Empty ℕ) = .ok lower

theorem IsChild.isAbove (child : IsChild start n upper lower) (fits : n < 2 ^ 64) :
    IsAbove upper lower := by
  obtain ⟨node, rfl⟩ := Node.exists_number_eq upper
  have low : node.height < 64 := height_lt_of_number_lt (by rcases child with all | all <;> omega)
  by_cases leaf : node.height = 0
  · rw [IsChild, left, right, leftStep_leaf leaf, rightStep_leaf leaf] at child
    rcases child with ⟨_, _, child⟩ | ⟨_, _, child⟩ <;> cases child
  · rcases child with ⟨after, inside, child⟩ | ⟨after, inside, child⟩
    · obtain ⟨top, within, isTop⟩ := left_spec low leaf after inside
      cases isTop.symm.trans child
      exact ⟨node, rfl, ((Node.covers_left leaf).mp (within.nested _ top.covers_self)).1⟩
    · obtain ⟨top, within, isTop⟩ := right_spec low leaf after inside
      cases isTop.symm.trans child
      exact ⟨node, rfl, ((Node.covers_right leaf).mp (within.nested _ top.covers_self)).1⟩

theorem transGen_isChild (start_le : start ≤ lower) (lt_end : lower < n) (fits : n < 2 ^ 64)
    (node : Node) (after : start ≤ node.number) (inside : node.number < n)
    (apart : node.number ≠ lower) (covers : node.Covers lower) :
    Relation.TransGen (IsChild start n) node.number lower := by
  induction height : node.height using Nat.strong_induction_on generalizing node with
  | _ height ih =>
    subst height
    have low : node.height < 64 := height_lt_of_number_lt (by omega)
    have inner : node.height ≠ 0 := fun leaf => apart (Node.eq_of_covers_leaf leaf covers).symm
    obtain ⟨top, isChild, lowerTop, within, topCovers⟩ : ∃ top : Node,
        IsChild start n node.number top.number ∧
        top.height < node.height ∧ (start ≤ top.number ∧ top.number < n) ∧ top.Covers lower := by
      rcases Nat.lt_or_gt_of_ne apart with before | later
      · obtain ⟨top, within, isTop⟩ :=
          right_spec low inner after (show node.number + 1 < n by omega)
        have := Node.height_right inner
        have := within.lower
        exact ⟨top, .inr ⟨after, by omega, isTop⟩, by omega, ⟨within.start_le, within.lt_end⟩,
          within.covers _ start_le lt_end ((Node.covers_right inner).mpr ⟨covers, before⟩)⟩
      · obtain ⟨top, within, isTop⟩ :=
          left_spec low inner (show start < node.number by omega) inside
        have := Node.height_left inner
        have := within.lower
        exact ⟨top, .inl ⟨by omega, inside, isTop⟩, by omega, ⟨within.start_le, within.lt_end⟩,
          within.covers _ start_le lt_end ((Node.covers_left inner).mpr ⟨covers, later⟩)⟩
    by_cases found : top.number = lower
    · exact .single (found ▸ isChild)
    · exact .head isChild (ih _ lowerTop top within.1 within.2 found topCovers rfl)

theorem isAncestor_iff {position : ℕ} (start_le : start ≤ entry) (lt_end : entry < n)
    (fits : n < 2 ^ 64) (after : entry < position) :
    Relation.TransGen (IsChild start n) position entry ↔
      position < n ∧ IsAbove position entry := by
  constructor
  · intro below
    refine ⟨?_, ?_⟩
    · obtain ⟨_, isChild, _⟩ := Relation.TransGen.head'_iff.mp below
      rcases isChild with all | all <;> omega
    · clear lt_end start_le after
      induction below with
      | single child => exact child.isAbove fits
      | tail _ child ih => exact ih.trans (child.isAbove fits)
  · rintro ⟨inside, node, rfl, covers⟩
    exact transGen_isChild start_le lt_end fits node (by omega) inside (by omega) covers

/-- What the full monitoring path of an entry of the log is made of. -/
structure FullPath (start n entry : ℕ) (ancestors frontier rest : List ℕ) : Prop where
  isAncestor : ∀ position, position ∈ ancestors ↔
    entry < position ∧ Relation.TransGen (IsChild start n) position entry
  isRest : ∃ before last, frontier = before ++ last :: rest ∧ last ∈ entry :: ancestors ∧
    ∀ position ∈ rest, position ∉ entry :: ancestors
  sorted : (ancestors ++ rest).Pairwise (· < ·)
  range : ∀ position ∈ ancestors ++ rest, entry < position ∧ position < n
  isLast : entry ≠ n - 1 → (ancestors ++ rest).getLast? = some (n - 1)

theorem fullMonitoringPath_parts (start_le : start ≤ entry) (lt_end : entry < n)
    (fits : n < 2 ^ 64) :
    ∃ ancestors nodes rest, FullPath start n entry ancestors nodes rest ∧
      (monitoringPath entry start n : Run Failure _) = .ok ancestors ∧
      (frontier start n : Run Failure _) = .ok nodes ∧
      (fullMonitoringPath entry start n : Run Failure _) = .ok (ancestors ++ rest) := by
  obtain ⟨top, isTop, above⟩ := underRoot_of_lt start_le lt_end fits
  have returns := (@fullMonitoringPath_returns Failure _ _ _ fits (lt_end.trans fits)).mpr
    ⟨lt_end, top, isTop, above⟩
  obtain ⟨root, nodes, ancestors, within, spine, rfl, sorted, members, isPath⟩ :=
    fullMonitoringPath_eq isTop above fits
  obtain ⟨isAncestors, isFrontier, isFull⟩ := @isPath Failure
  rw [isFull, returns_bind] at returns
  obtain ⟨rest, isRest⟩ : ∃ rest, (monitoringFrontier (nodes.map Node.number) (entry :: ancestors) :
      Run Failure _) = .ok rest := by
    have returns := returns.1
    unfold monitoringFrontier at returns ⊢
    split at returns
    · exact returns.elim
    · exact ⟨_, rfl⟩
  rw [isRest] at isFull
  obtain ⟨before, last, split, isLast, others⟩ := monitoringFrontier_eq_ok isRest
  have isAncestor : ∀ position, position ∈ ancestors ↔
      entry < position ∧ position < n ∧ IsAbove position entry := by
    intro position
    rw [members]
    refine ⟨fun all => ⟨all.1, all.2.1, all.2.2.1⟩, fun all => ⟨all.1, all.2.1, all.2.2, ?_⟩⟩
    exact ⟨root, rfl, covers_root within (by omega) all.2.1⟩
  have ordered : (before ++ last :: rest).Pairwise (· < ·) := by
    rw [← split]
    exact pairwise_map.mpr ((spine.pairwise within.start_le).imp And.left)
  obtain ⟨_, restOrdered, crossed⟩ := pairwise_append.mp ordered
  obtain ⟨afterLast, restSorted⟩ := pairwise_cons.mp restOrdered
  have inLog : ∀ position ∈ before ++ last :: rest, position < n := by
    rw [← split]
    intro position isNode
    obtain ⟨node, onSpine, rfl⟩ := mem_map.mp isNode
    exact (spine.mem_range within.start_le onSpine).2.1
  have entry_le : entry ≤ last := by
    rcases mem_cons.mp isLast with rfl | member
    · exact Nat.le_refl _
    · exact ((isAncestor last).mp member).1.le
  -- No position of the log stands above a node of the frontier on its right.
  have upTo : ∀ position ∈ ancestors, position ≤ last := by
    intro position member
    by_contra after
    obtain ⟨isAfter, inside, above⟩ := (isAncestor position).mp member
    obtain ⟨node, onSpine, rfl⟩ : ∃ node ∈ nodes, node.number = last :=
      mem_map.mp (by simp [split])
    refine upClosed_spine within spine node onSpine position (by omega) inside ?_
    rcases mem_cons.mp isLast with same | isAncestorToo
    · rwa [same]
    · obtain ⟨lastAfter, _, lastAbove⟩ := (isAncestor node.number).mp isAncestorToo
      exact above.of_lt lastAbove lastAfter (by omega)
  have sortedAll : (ancestors ++ rest).Pairwise (· < ·) := by
    refine pairwise_append.mpr ⟨sorted, restSorted, fun lower isLower upper isUpper => ?_⟩
    exact (upTo lower isLower).trans_lt (afterLast upper isUpper)
  have range : ∀ position ∈ ancestors ++ rest, entry < position ∧ position < n := by
    intro position member
    rcases mem_append.mp member with isAncestorToo | inRest
    · have all := (isAncestor position).mp isAncestorToo
      exact ⟨all.1, all.2.1⟩
    · exact ⟨entry_le.trans_lt (afterLast position inRest), inLog position (by simp [inRest])⟩
  refine ⟨ancestors, nodes.map Node.number, rest,
    ⟨fun position => (isAncestor position).trans (and_congr_right fun after =>
      (isAncestor_iff start_le lt_end fits after).symm),
      ⟨before, last, split, isLast, others⟩, sortedAll, range, ?_⟩,
    isAncestors, isFrontier, isFull⟩
  intro apart
  refine getLast?_eq_of_pairwise sortedAll ?_ fun position member => by
    have := (range position member).2
    omega
  obtain ⟨final, onSpine, atEnd⟩ := spine.exists_last
  have isNode : final.number ∈ before ++ last :: rest := split ▸ mem_map_of_mem onSpine
  obtain same : final.number = n - 1 := by omega
  rw [same] at isNode
  rcases mem_append.mp isNode with isBefore | isAfter
  · have := crossed (n - 1) isBefore last mem_cons_self
    have := inLog last (by simp)
    omega
  · rcases mem_cons.mp isAfter with rfl | inRest
    · exact mem_append_left _ ((mem_cons.mp isLast).resolve_left (Ne.symm apart))
    · exact mem_append_right _ inRest

def climbRight (entry : ℕ) : ℕ → ℕ → Run Failure ℕ
  | 0, _ => .error .endless
  | rounds + 1, out =>
    if out ≤ entry then do climbRight entry rounds (← parentStep out) else pure out

def firstParentToTheRight (entry : ℕ) : Run Failure ℕ := do
  pure ((← climbRight entry rounds entry) + 1)

def nextMonitor (entries : List ℕ) : Run Failure ℕ := do
  let firsts ← entries.mapM firstParentToTheRight
  expect firsts.min? "entries array should not be empty"

theorem climbRight_spec {node : Node} {levels rounds : ℕ} (low : node.height + levels < 64)
    (enough : levels < rounds) (reached : entry < (node.above levels).number) :
    ∃ found ≤ levels, (climbRight entry rounds node.number : Run Failure ℕ) =
      .ok (node.above found).number ∧ entry < (node.above found).number ∧
      ∀ between < found, (node.above between).number ≤ entry := by
  induction rounds generalizing node levels with
  | zero => exact absurd enough (Nat.not_lt_zero _)
  | succ rounds ih =>
    rw [climbRight]
    by_cases upTo : node.number ≤ entry
    · cases levels with
      | zero => exact absurd reached (Nat.not_lt_of_le upTo)
      | succ levels =>
        rw [if_pos upTo, parentStep_number (by omega)]
        rw [← Node.above_up] at reached
        obtain ⟨found, le, climbed, after, skipped⟩ :=
          @ih node.up levels (by simp only [Node.up]; omega) (by omega) reached
        rw [Node.above_up] at climbed after
        refine ⟨found + 1, by omega, climbed, after, ?_⟩
        intro between lt
        cases between with
        | zero => exact upTo
        | succ between =>
          rw [← Node.above_up]
          exact skipped between (by omega)
    · rw [if_neg upTo]
      exact ⟨0, Nat.zero_le _, rfl, Nat.lt_of_not_le upTo, fun _ lt => by omega⟩

theorem firstParentToTheRight_spec (fits : entry + 1 < 2 ^ 63) :
    ∃ first, (firstParentToTheRight entry : Run Failure ℕ) = .ok (first + 1) ∧ first < 2 ^ 63 ∧
      IsLeast {position | entry < position ∧ IsAbove position entry} first := by
  obtain ⟨node, rfl⟩ := Node.exists_number_eq entry
  have low := height_lt_of_number_lt fits
  have covers : (⟨63, 0⟩ : Node).Covers node.number := covers_top.mpr (by omega)
  have top := Node.eq_above_of_covers (Nat.le_of_lt low) node.covers_self covers
  have number := number_top 63
  obtain ⟨found, le, climbed, after, skipped⟩ := @climbRight_spec Failure node.number node
    (63 - node.height) rounds (by omega) (by unfold rounds; omega) (by rw [← top]; omega)
  have isAbove := Node.covers_above node.covers_self found
  have isLeast : IsLeast {position | node.number < position ∧ IsAbove position node.number}
      (node.above found).number := by
    refine ⟨⟨after, _, rfl, isAbove⟩, ?_⟩
    rintro _ ⟨isAfter, upper, rfl, covers⟩
    have isUpper := Node.eq_above_of_covers (Node.height_le_of_covers covers) node.covers_self
      covers
    by_contra before
    by_cases earlier : upper.height - node.height < found
    · have := skipped _ earlier
      rw [← isUpper] at this
      omega
    · have higher : (node.above found).height ≤ upper.height := by
        have := node.height_above found
        have := Node.height_le_of_covers covers
        omega
      have := IsAbove.lt ⟨upper, rfl, Node.covers_of_covers higher isAbove covers
        (Node.covers_self _)⟩ ⟨_, rfl, isAbove⟩ (by omega) isAfter
      omega
  refine ⟨_, by rw [firstParentToTheRight, climbed]; rfl, ?_, isLeast⟩
  have := isLeast.2 ⟨by omega, _, number, covers⟩
  omega

theorem monitoringPath_ne_nil (start_le : start ≤ entry) (lt_end : entry < n) (fits : n < 2 ^ 64) :
    (∃ path, (monitoringPath entry start n : Run Failure _) = .ok path ∧ path ≠ []) ↔
      ∃ position < n, entry < position ∧ IsAbove position entry := by
  obtain ⟨path, _, isPath, members⟩ := monitoringPath_spec start_le lt_end fits
  rw [isPath]
  constructor
  · rintro ⟨_, ⟨⟩, notEmpty⟩
    obtain ⟨position, member⟩ := exists_mem_of_ne_nil _ notEmpty
    obtain ⟨after, inside, isAbove⟩ := (members position).mp member
    exact ⟨position, inside, after, isAbove⟩
  · rintro ⟨position, inside, after, isAbove⟩
    exact ⟨path, rfl, ne_nil_of_mem ((members position).mpr ⟨after, inside, isAbove⟩)⟩

/-- The least size at which an entry has something to be monitored. -/
theorem nextMonitor_spec {entries : List ℕ} (notEmpty : entries ≠ [])
    (fit : ∀ entry ∈ entries, start ≤ entry ∧ entry + 1 < 2 ^ 63) :
    ∃ size, (nextMonitor entries : Run Failure ℕ) = .ok size ∧
      IsLeast {n | n < 2 ^ 64 ∧ ∃ entry ∈ entries, entry < n ∧
        ∃ path, (monitoringPath entry start n : Run Failure _) = .ok path ∧ path ≠ []} size := by
  choose! first isFirst small isLeast using fun entry isEntry =>
    @firstParentToTheRight_spec Failure entry (fit entry isEntry).2
  obtain ⟨size, isSize⟩ : ∃ size, (entries.map (first · + 1)).min? = some size :=
    Option.ne_none_iff_exists'.mp (by simpa using notEmpty)
  have collected := Result.mapM_eq_ok isFirst
  refine ⟨size, by rw [nextMonitor, collected]; exact expect_some isSize, ?_, ?_⟩
  · obtain ⟨entry, isEntry, rfl⟩ := mem_map.mp (min?_mem isSize)
    have after := (isLeast entry isEntry).1
    have lt := small entry isEntry
    refine ⟨by omega, entry, isEntry, by have := after.1; omega, ?_⟩
    exact (monitoringPath_ne_nil (fit entry isEntry).1 (by have := after.1; omega) (by omega)).mpr
      ⟨_, Nat.lt_succ_self _, after⟩
  · rintro n ⟨fits, entry, isEntry, lt, someAbove⟩
    obtain ⟨position, inside, isAbove⟩ :=
      (monitoringPath_ne_nil (fit entry isEntry).1 lt fits).mp someAbove
    have le := (isLeast entry isEntry).2 isAbove
    have := (min?_eq_some_iff.mp isSize).2 _ (mem_map_of_mem isEntry)
    omega

theorem monitoringPath_subset {larger : ℕ} (start_le : start ≤ entry) (lt_end : entry < n)
    (grown : n ≤ larger) (fits : larger < 2 ^ 64) :
    ∃ path more, (monitoringPath entry start n : Run Failure _) = .ok path ∧
      (monitoringPath entry start larger : Run Failure _) = .ok more ∧ path ⊆ more := by
  obtain ⟨path, _, isPath, members⟩ := monitoringPath_spec start_le lt_end (by omega)
  obtain ⟨more, _, isMore, moreMembers⟩ := monitoringPath_spec start_le (by omega) fits
  refine ⟨path, more, isPath, isMore, fun position member => ?_⟩
  obtain ⟨after, inside, isAbove⟩ := (members position).mp member
  exact (moreMembers position).mpr ⟨after, by omega, isAbove⟩

/-- The monitoring path is well formed and complete, and `next_monitor` is the first size at which
there is more to monitor than the frontier. -/
theorem fullMonitoringPath_complete (start_le : start ≤ entry) (lt_end : entry < n)
    (fits : n ≤ 2 ^ 62) :
    (∃ ancestors nodes rest, FullPath start n entry ancestors nodes rest ∧
      (monitoringPath entry start n : Run Failure _) = .ok ancestors ∧
      (frontier start n : Run Failure _) = .ok nodes ∧
      (fullMonitoringPath entry start n : Run Failure _) = .ok (ancestors ++ rest)) ∧
    (∀ larger, n ≤ larger → larger ≤ 2 ^ 62 →
      ∃ path more, (monitoringPath entry start n : Run Failure _) = .ok path ∧
        (monitoringPath entry start larger : Run Failure _) = .ok more ∧ path ⊆ more) ∧
    ∀ entries : List ℕ, entries ≠ [] → (∀ entry ∈ entries, start ≤ entry ∧ entry + 1 < 2 ^ 63) →
      ∃ size, (nextMonitor entries : Run Failure ℕ) = .ok size ∧
        IsLeast {n | n < 2 ^ 64 ∧ ∃ entry ∈ entries, entry < n ∧
          ∃ path, (monitoringPath entry start n : Run Failure _) = .ok path ∧ path ≠ []} size := by
  refine ⟨fullMonitoringPath_parts start_le lt_end (by omega), ?_, ?_⟩
  · intro larger grown bound
    exact monitoringPath_subset start_le lt_end grown (by omega)
  · intro entries notEmpty fit
    exact nextMonitor_spec notEmpty fit

theorem fullMonitoringPath_complete_three :
    ∃ ancestors nodes rest, FullPath 0 6 2 ancestors nodes rest ∧
      (monitoringPath 2 0 6 : Run Empty _) = .ok ancestors ∧
      (frontier 0 6 : Run Empty _) = .ok nodes ∧
      (fullMonitoringPath 2 0 6 : Run Empty _) = .ok (ancestors ++ rest) :=
  (fullMonitoringPath_complete (by decide) (by decide) (by decide)).1

end LegacySignal.KeyTransparency
