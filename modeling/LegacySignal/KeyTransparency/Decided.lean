import LegacySignal.KeyTransparency.SearchWalk

/-!
# What a search decides

A fetched counter decides for the positions on one side of it whether the wanted
version comes before them or not. The guide always has one node below which
alone there are positions left to decide, and it is finished when there are none.
No position is fetched twice.
-/

namespace LegacySignal.KeyTransparency

open FlatTree Run List
open Result (bind_eq_ok)

/-- The counters show that the version is reached at or before the position, or only after it. -/
def Decided (fetched : List (ℕ × UInt32)) (version : UInt32) (position : ℕ) : Prop :=
  ∃ entry ∈ fetched, entry.1 ≤ position ∧ version ≤ entry.2 ∨
    position ≤ entry.1 ∧ entry.2 < version

theorem Decided.mono {fetched more : List (ℕ × UInt32)} {version : UInt32} {position : ℕ}
    (decided : Decided fetched version position) (sub : ∀ entry ∈ fetched, entry ∈ more) :
    Decided more version position := by
  obtain ⟨entry, member, side⟩ := decided
  exact ⟨entry, sub entry member, side⟩

namespace ProofGuide

variable {guide after : ProofGuide} {version : Option UInt32} {before : List ℕ} {node : Node}

/-- The version that was asked for is searched, which may be that of the last entry. -/
def Searches (guide : ProofGuide) : Option UInt32 → Prop
  | some version => guide.version = version
  | none => (guide.n - 1, guide.version) ∈ guide.sorted

/-- All positions outside the subtree of the node are decided, and the node is the last id. -/
structure Focus (guide : ProofGuide) (version : Option UInt32) (before : List ℕ) (node : Node) :
    Prop where
  isIds : guide.ids = before ++ [node.number]
  notFrontier : guide.isFrontier = false
  searches : guide.Searches version
  nodup : before.Nodup
  outside : ∀ id ∈ before, ¬node.Covers id
  decided : ∀ position, guide.pos ≤ position → position < guide.n → ¬node.Covers position →
    Decided guide.sorted guide.version position

/-- How far a guide has come: it fetches the frontier, or what is left is below one node. -/
inductive Stage (guide : ProofGuide) : Option UInt32 → Prop where
  | frontier {top : Node} {nodes : List Node} (atFrontier : guide.AtFrontier top nodes) :
      Stage guide none
  | focus {version : Option UInt32} {before : List ℕ} {node : Node}
      (focus : guide.Focus version before node) : Stage guide version

structure Finished (guide : ProofGuide) (version : Option UInt32) : Prop where
  searches : guide.Searches version
  nodup : guide.ids.Nodup
  inOrder : guide.sorted.Pairwise fun entry other => entry.1 ≤ other.1
  decided : ∀ position, guide.pos ≤ position → position < guide.n →
    Decided guide.sorted guide.version position

theorem Focus.nodup_ids (focus : guide.Focus version before node) : guide.ids.Nodup := by
  rw [focus.isIds, nodup_append]
  refine ⟨focus.nodup, nodup_singleton _, ?_⟩
  rintro id isId _ isNode rfl
  rw [mem_singleton.mp isNode] at isId
  exact focus.outside _ isId node.covers_self

theorem Searches.sort (searches : guide.Searches version) (sorted : List (ℕ × UInt32))
    (isFrontier : Bool) (ids : List ℕ) (same : ∀ entry ∈ guide.sorted, entry ∈ sorted) :
    Searches { guide with sorted := sorted, isFrontier := isFrontier, ids := ids } version := by
  cases version with
  | some version => exact searches
  | none => exact same _ searches

theorem pairwise_inOrder (guide : ProofGuide) :
    guide.inOrder.Pairwise fun entry other => entry.1 ≤ other.1 :=
  pairwise_insertionSort _ _

variable {ctr wanted : UInt32} {last : ℕ} {done : Bool}

theorem decided_of_fetched {fetched : List (ℕ × UInt32)} (member : (node.number, ctr) ∈ fetched)
    {position : ℕ} (side : ctr < wanted → position ≤ node.number)
    (other : wanted ≤ ctr → node.number ≤ position) :
    Decided fetched wanted position := by
  by_cases less : ctr < wanted
  · exact ⟨_, member, .inr ⟨side less, less⟩⟩
  · have notLess := UInt32.not_lt.mp less
    exact ⟨_, member, .inl ⟨other notLess, notLess⟩⟩

theorem Moves.decided {next : Option ℕ} (moves : guide.Moves node ctr next)
    (member : (node.number, ctr) ∈ guide.sorted)
    (outside : ∀ position, guide.pos ≤ position → position < guide.n → ¬node.Covers position →
      Decided guide.sorted guide.version position) :
    match next with
    | none => ∀ position, guide.pos ≤ position → position < guide.n →
        Decided guide.sorted guide.version position
    | some next => ∃ top : Node, top.number = next ∧
        (∀ id, top.Covers id → node.Covers id ∧ id ≠ node.number ∧
          (guide.version ≤ ctr → id < node.number)) ∧
        ∀ position, guide.pos ≤ position → position < guide.n → ¬top.Covers position →
          Decided guide.sorted guide.version position := by
  cases moves with
  | leaf isLeaf =>
    intro position start_le lt_end
    by_cases covers : node.Covers position
    · have same := Node.eq_of_covers_leaf isLeaf covers
      exact decided_of_fetched member (fun _ => same.le) fun _ => same.ge
    · exact outside position start_le lt_end covers
  | atEnd less isEnd =>
    intro position start_le lt_end
    exact ⟨_, member, .inr ⟨by dsimp only; omega, less⟩⟩
  | atStart notLess isStart =>
    intro position start_le lt_end
    exact ⟨_, member, .inl ⟨by dsimp only; omega, notLess⟩⟩
  | @right top inner less within =>
    refine ⟨top, rfl, ?_, ?_⟩
    · intro id covers
      obtain ⟨nodeCovers, after⟩ := (Node.covers_right inner).mp (within.nested id covers)
      exact ⟨nodeCovers, by omega, fun notLess => absurd less (UInt32.not_lt.mpr notLess)⟩
    intro position start_le lt_end notCovers
    by_cases covers : node.Covers position
    · have upTo : position ≤ node.number := by
        by_contra after
        exact notCovers (within.covers position start_le lt_end
          ((Node.covers_right inner).mpr ⟨covers, by omega⟩))
      exact ⟨_, member, .inr ⟨upTo, less⟩⟩
    · exact outside position start_le lt_end covers
  | @left top inner notLess within =>
    refine ⟨top, rfl, ?_, ?_⟩
    · intro id covers
      obtain ⟨nodeCovers, before⟩ := (Node.covers_left inner).mp (within.nested id covers)
      exact ⟨nodeCovers, by omega, fun _ => before⟩
    intro position start_le lt_end notCovers
    by_cases covers : node.Covers position
    · have atOrAfter : node.number ≤ position := by
        by_contra before
        exact notCovers (within.covers position start_le lt_end
          ((Node.covers_left inner).mpr ⟨covers, by omega⟩))
      exact ⟨_, member, .inl ⟨atOrAfter, notLess⟩⟩
    · exact outside position start_le lt_end covers

theorem Chosen.of_notFrontier (chosen : guide.Chosen last wanted)
    (notFrontier : guide.isFrontier = false) :
    guide.ids.getLast? = some last ∧ wanted = guide.version := by
  cases chosen with
  | first isFrontier => exact absurd isFrontier (by rw [notFrontier]; decide)
  | last _ isLast => exact ⟨isLast, rfl⟩

theorem Chosen.of_frontier (chosen : guide.Chosen last wanted)
    (isFrontier : guide.isFrontier = true) :
    ∃ greatest found, guide.sorted.getLast? = some greatest ∧ greatest.2 = wanted ∧
      (guide.sorted.find? fun entry => entry.2 = wanted) = some found ∧ found.1 = last := by
  cases chosen with
  | @first greatest found _ isGreatest isFirst =>
    exact ⟨greatest, found, isGreatest, rfl, isFirst, rfl⟩
  | last notFrontier => exact absurd isFrontier (by rw [notFrontier]; decide)

theorem Focus.poll (focus : guide.Focus version before node) (polls : guide.Polls done after) :
    match done with
    | true => after.Finished version
    | false => ∃ before node, after.Focus version before node := by
  have isFetched : ∀ entry ∈ guide.sorted, entry ∈ guide.inOrder := fun entry isEntry =>
    (perm_inOrder guide).mem_iff.mpr isEntry
  have outside : ∀ position, guide.pos ≤ position → position < guide.n → ¬node.Covers position →
      Decided guide.inOrder guide.version position :=
    fun position start_le lt_end notCovers =>
      (focus.decided position start_le lt_end notCovers).mono isFetched
  have isNode : ∀ {found : Node} {wanted ctr : UInt32}, guide.Looks found wanted ctr →
      found = node ∧ wanted = guide.version := by
    intro found wanted ctr looks
    obtain ⟨isLast, same⟩ := looks.chosen.of_notFrontier focus.notFrontier
    dsimp only at isLast
    rw [focus.isIds, getLast?_concat] at isLast
    exact ⟨(Node.number_injective (Option.some.inj isLast)).symm, same⟩
  cases polls with
  | incomplete => exact ⟨before, node, focus⟩
  | done looks moves =>
    obtain ⟨rfl, rfl⟩ := isNode looks
    exact ⟨focus.searches.sort _ _ _ isFetched, focus.nodup_ids, pairwise_inOrder guide,
      moves.decided looks.member outside⟩
  | next looks moves =>
    obtain ⟨rfl, rfl⟩ := isNode looks
    obtain ⟨top, rfl, below, decided⟩ := moves.decided looks.member outside
    refine ⟨guide.ids, top, rfl, rfl, focus.searches.sort _ _ _ isFetched, focus.nodup_ids, ?_,
      decided⟩
    intro id isId covers
    obtain ⟨nodeCovers, apart, _⟩ := below id covers
    rw [focus.isIds] at isId
    rcases mem_append.mp isId with isBefore | isLast
    · exact focus.outside id isBefore nodeCovers
    · exact apart (mem_singleton.mp isLast)

section frontier

variable {fetched : List (ℕ × UInt32)} {greatest found entry : ℕ × UInt32}

theorem le_greatest (monotonic : fetched.IsChain fun entry other => entry.2 ≤ other.2)
    (isGreatest : fetched.getLast? = some greatest) (member : entry ∈ fetched) :
    entry.2 ≤ greatest.2 := by
  obtain ⟨init, rfl⟩ := getLast?_eq_some_iff.mp isGreatest
  have pairwise := isChain_iff_pairwise.mp monotonic
  rcases mem_append.mp member with isInit | isLast
  · exact (pairwise_append.mp pairwise).2.2 entry isInit greatest (mem_singleton_self _)
  · rw [mem_singleton.mp isLast]
    exact UInt32.le_refl _

theorem lt_greatest (ordered : fetched.Pairwise fun entry other => entry.1 ≤ other.1)
    (monotonic : fetched.IsChain fun entry other => entry.2 ≤ other.2)
    (isGreatest : fetched.getLast? = some greatest)
    (isFirst : (fetched.find? fun entry => entry.2 = greatest.2) = some found)
    (member : entry ∈ fetched) (earlier : entry.1 < found.1) :
    entry.2 < greatest.2 := by
  obtain ⟨_, first, rest, rfl, others⟩ := find?_eq_some_iff_append.mp isFirst
  have apart : entry.2 ≠ greatest.2 := by
    rcases mem_append.mp member with isFirst | isRest
    · simpa using others entry isFirst
    · have later := (pairwise_append.mp ordered).2.1
      rcases mem_cons.mp isRest with rfl | isRest
      · omega
      · have := (pairwise_cons.mp later).1 entry isRest
        omega
  exact UInt32.lt_of_le_of_ne (le_greatest monotonic isGreatest member) apart

end frontier

section frontier

variable {top : Node} {nodes : List Node} (atFrontier : guide.AtFrontier top nodes)

include atFrontier

theorem AtFrontier.nodup_ids : guide.ids.Nodup := by
  rw [atFrontier.isIds]
  exact pairwise_map.mpr
    ((atFrontier.spine.pairwise atFrontier.within.start_le).imp fun both => both.1.ne)

/-- What is known when the whole frontier is fetched: the first node with the greatest counter has
that of the last entry, and all positions outside its subtree are decided. -/
theorem AtFrontier.looks (looks : guide.Looks node wanted ctr) (valid : guide.Valid) :
    node ∈ nodes ∧ ctr = wanted ∧ (guide.n - 1, wanted) ∈ guide.inOrder ∧
      ∀ position, guide.pos ≤ position → position < guide.n → ¬node.Covers position →
        Decided guide.inOrder wanted position := by
  have idsNodup := atFrontier.nodup_ids
  obtain ⟨isFrontier, within, spine, isIds⟩ := atFrontier
  obtain ⟨greatest, found, isGreatest, rfl, isFirst, isNode⟩ := looks.chosen.of_frontier isFrontier
  dsimp only at isGreatest isFirst
  have ordered := pairwise_inOrder guide
  have perm := perm_ids valid looks.complete
  have fetched : ∀ node ∈ nodes, ∃ counter, (node.number, counter) ∈ guide.inOrder := by
    intro node onSpine
    obtain ⟨entry, isEntry, same⟩ := mem_map.mp
      (perm.mem_iff.mpr (isIds ▸ mem_map_of_mem onSpine))
    exact ⟨entry.2, same ▸ isEntry⟩
  have foundMember := mem_of_find?_eq_some isFirst
  have foundGreatest : found.2 = greatest.2 := by simpa using find?_some isFirst
  have distinct : Entries.Distinct guide.inOrder := perm.nodup_iff.mpr idsNodup
  have onSpine : node ∈ nodes := by
    obtain ⟨spineNode, onSpine, sameNumber⟩ := mem_map.mp (isIds ▸ looks.isId)
    cases Node.number_injective sameNumber
    exact onSpine
  refine ⟨onSpine, ?_, ?_, ?_⟩
  · rw [← foundGreatest]
    exact distinct.eq_of_mem looks.member (isNode ▸ foundMember)
  · -- The last id in order is the end of the frontier.
    obtain ⟨last, isLast, atEnd⟩ := spine.exists_last
    obtain ⟨counter, isEntry⟩ := fetched last isLast
    obtain ⟨init, same⟩ := getLast?_eq_some_iff.mp isGreatest
    have greatestMember : greatest ∈ guide.inOrder := by simp [same]
    have inside := (valid.range greatest.1
      (perm.mem_iff.mp (mem_map_of_mem greatestMember))).2
    have upTo : last.number ≤ greatest.1 := by
      rw [same] at isEntry ordered
      rcases mem_append.mp isEntry with isInit | isSame
      · exact (pairwise_append.mp ordered).2.2 _ isInit greatest (mem_singleton_self _)
      · rw [← mem_singleton.mp isSame]
    have isLast : guide.n - 1 = greatest.1 := by omega
    rw [isLast]
    exact greatestMember
  · intro position start_le lt_end notCovers
    rcases spine.split within.start_le start_le lt_end (covers_root within start_le lt_end)
      onSpine notCovers with later | ⟨earlier, isEarlier, before, upTo⟩
    · exact ⟨found, foundMember, .inl ⟨by omega, UInt32.le_of_eq foundGreatest.symm⟩⟩
    · obtain ⟨counter, isEntry⟩ := fetched earlier isEarlier
      exact ⟨_, isEntry, .inr ⟨upTo, lt_greatest ordered looks.monotonic isGreatest isFirst isEntry
        (by dsimp only; omega)⟩⟩

theorem AtFrontier.poll (polls : guide.Polls done after) (valid : guide.Valid) :
    match done with
    | true => after.Finished none
    | false => after.Stage none := by
  cases polls with
  | incomplete => exact .frontier atFrontier
  | done looks moves =>
    obtain ⟨_, _, isLast, outside⟩ := atFrontier.looks looks valid
    exact ⟨isLast, atFrontier.nodup_ids, pairwise_inOrder guide, moves.decided looks.member outside⟩
  | next looks moves =>
    obtain ⟨onSpine, isCtr, isLast, outside⟩ := atFrontier.looks looks valid
    obtain ⟨next, rfl, below, decided⟩ := moves.decided looks.member outside
    refine @Stage.focus _ _ guide.ids next ⟨rfl, rfl, isLast, atFrontier.nodup_ids, ?_, decided⟩
    intro id isOther covers
    obtain ⟨nodeCovers, _, onLeft⟩ := below id covers
    rw [atFrontier.isIds] at isOther
    obtain ⟨other, otherOnSpine, rfl⟩ := mem_map.mp isOther
    exact atFrontier.spine.not_covers atFrontier.within.start_le otherOnSpine onSpine
      (onLeft (UInt32.le_of_eq isCtr.symm)) nodeCovers

end frontier

theorem Starts.stage (starts : guide.Starts version) : guide.Stage version := by
  cases starts with
  | root notFrontier within isIds =>
    have isFirst : guide.ids = [] ++ [_] := isIds
    refine .focus ⟨isFirst, notFrontier, rfl, nodup_nil, ?_, ?_⟩
    · exact fun _ isNone => absurd isNone not_mem_nil
    · intro position start_le lt_end notCovers
      exact absurd (covers_root within start_le lt_end) notCovers
  | frontier atFrontier => exact .frontier atFrontier

theorem Stage.nodup (stage : guide.Stage version) : guide.ids.Nodup := by
  cases stage with
  | frontier atFrontier => exact atFrontier.nodup_ids
  | focus focus => exact focus.nodup_ids

theorem Stage.poll (stage : guide.Stage version) (valid : guide.Valid)
    (polls : guide.Polls done after) :
    match done with
    | true => after.Finished version
    | false => after.Stage version := by
  cases stage with
  | frontier atFrontier => exact atFrontier.poll polls valid
  | focus focus =>
    have next := focus.poll polls
    cases done with
    | true => exact next
    | false =>
      obtain ⟨before, node, focus⟩ := next
      exact .focus focus

theorem Stage.insert (stage : guide.Stage version) (id : ℕ) (counter : UInt32) :
    (guide.insert id counter).Stage version := by
  have kept : ∀ entry ∈ guide.sorted, entry ∈ guide.sorted ++ [(id, counter)] :=
    fun entry member => mem_append_left _ member
  cases stage with
  | frontier atFrontier => exact .frontier ⟨atFrontier.1, atFrontier.2, atFrontier.3, atFrontier.4⟩
  | focus focus =>
    refine .focus ⟨focus.isIds, focus.notFrontier, focus.searches.sort _ _ _ kept, focus.nodup,
      focus.outside, ?_⟩
    intro position start_le lt_end notCovers
    exact (focus.decided position start_le lt_end notCovers).mono kept

/-- A finished guide with the versions of a log has found the first position with the version that
it searches, if there is one. -/
theorem Finished.result_iff (finished : guide.Finished version) (valid : guide.Valid)
    {Failure : Type} {result : Option (ℕ × ℕ)}
    (isResult : (guide.result : Run Failure _) = .ok result) {versions : ℕ → UInt32}
    (monotone : ∀ position later, guide.pos ≤ position → position ≤ later → later < guide.n →
      versions position ≤ versions later)
    (agrees : ∀ entry ∈ guide.sorted, entry.2 = versions entry.1) :
    ∀ position, (∃ index, result = some (index, position)) ↔
      IsLeast {position | guide.pos ≤ position ∧ position < guide.n ∧
        versions position = guide.version} position := by
  have range : ∀ entry ∈ guide.sorted, guide.pos ≤ entry.1 ∧ entry.1 < guide.n :=
    fun entry member => valid.range _
      (mem_of_mem_take (valid.fetched.mem_iff.mp (mem_map_of_mem member)))
  have finds : ∀ position, IsLeast {position | guide.pos ≤ position ∧ position < guide.n ∧
      versions position = guide.version} position → ∃ index, result = some (index, position) := by
    rintro position ⟨⟨start_le, lt, hasVersion⟩, least⟩
    have first : ∀ entry ∈ guide.sorted, entry.1 ≤ position → guide.version ≤ entry.2 →
        entry = (position, guide.version) := by
      intro entry member le reached
      obtain ⟨entryStart, entryEnd⟩ := range entry member
      have atMost := monotone entry.1 position entryStart le lt
      rw [← agrees entry member, hasVersion] at atMost
      have same := UInt32.le_antisymm atMost reached
      have := least ⟨entryStart, entryEnd, (agrees entry member).symm.trans same⟩
      exact Prod.ext (by dsimp only; omega) same
    have fetched : (position, guide.version) ∈ guide.sorted := by
      obtain ⟨entry, member, ⟨le, reached⟩ | ⟨le, notReached⟩⟩ :=
        finished.decided position start_le lt
      · exact first entry member le reached ▸ member
      · have atMost := monotone position entry.1 start_le le (range entry member).2
        rw [hasVersion, ← agrees entry member] at atMost
        exact absurd notReached (UInt32.not_lt.mpr atMost)
    obtain ⟨found, isFound⟩ : ∃ found,
        (guide.sorted.find? fun entry => guide.version ≤ entry.2) = some found :=
      Option.isSome_iff_exists.mp (find?_isSome.mpr ⟨_, fetched, by simp⟩)
    have upTo : found.1 ≤ position := by
      obtain ⟨_, before, after, split, notBefore⟩ := find?_eq_some_iff_append.mp isFound
      have inOrder := finished.inOrder
      rw [split] at fetched inOrder
      rcases mem_append.mp fetched with isBefore | isLater
      · simpa using notBefore _ isBefore
      · rcases mem_cons.mp isLater with rfl | isAfter
        · exact Nat.le_refl _
        · exact (pairwise_cons.mp (pairwise_append.mp inOrder).2.1).1 _ isAfter
    cases first found (mem_of_find?_eq_some isFound) upTo
      (by simpa using find?_some isFound)
    have isId : position ∈ guide.ids := mem_of_mem_take
      (valid.fetched.mem_iff.mp (mem_map_of_mem fetched))
    obtain ⟨index, isIndex⟩ : ∃ index, guide.ids.findIdx? (· = position) = some index :=
      Option.isSome_iff_exists.mp (by
        rw [findIdx?_isSome, any_eq_true]
        exact ⟨_, isId, decide_eq_true rfl⟩)
    unfold ProofGuide.result at isResult
    rw [isFound] at isResult
    split at isResult
    · cases isResult
    · refine ⟨index, (Except.ok.inj isResult).symm.trans ?_⟩
      simp only [Option.filter_some, decide_true, if_true, Option.bind_eq_bind, Option.bind_some,
        isIndex]
      rfl
  refine fun position => ⟨?_, finds position⟩
  rintro ⟨index, rfl⟩
  obtain ⟨isFirst, _⟩ := result_spec isResult
  have member := mem_of_find?_eq_some isFirst
  have occurs : position ∈ {position | guide.pos ≤ position ∧ position < guide.n ∧
      versions position = guide.version} :=
    ⟨(range _ member).1, (range _ member).2, (agrees _ member).symm⟩
  obtain ⟨_, same⟩ := finds _ ⟨Nat.sInf_mem ⟨position, occurs⟩, fun _ => Nat.sInf_le⟩
  cases same
  exact ⟨occurs, fun _ => Nat.sInf_le⟩

end ProofGuide

section trace

variable {C : Crypto} {index : Index} {pos : ℕ} {guide after : ProofGuide}
  {leaves : List (ℕ × C.Hash)} {visited : List (ℕ × ProofStep C)} {used steps : List (ProofStep C)}
  {version : Option UInt32}

/-- Each counter comes from the step at its place, and so does the leaf at its id. -/
structure Traced (index : Index) (pos : ℕ) (guide : ProofGuide) (leaves : List (ℕ × C.Hash))
    (used : List (ProofStep C)) : Prop where
  length_eq : used.length = guide.sorted.length
  traced : ∀ entry ∈ guide.sorted, ∃ (place : ℕ) (step : ProofStep C) (leaf : C.Hash),
    guide.ids[place]? = some entry.1 ∧
    used[place]? = some step ∧ evaluateStep index pos step = .ok (entry.2, leaf) ∧
    (entry.1, leaf) ∈ leaves

theorem Traced.poll (traced : Traced index pos guide leaves used) {done : Bool}
    (polls : guide.Polls done after) : Traced index pos after leaves used := by
  obtain ⟨⟨more, isIds⟩, perm⟩ := polls.ids
  refine ⟨traced.length_eq.trans perm.length_eq.symm, ?_⟩
  intro entry member
  obtain ⟨place, step, leaf, isId, others⟩ := traced.traced entry (perm.mem_iff.mp member)
  refine ⟨place, step, leaf, ?_, others⟩
  rw [isIds, List.getElem?_append_left (List.getElem?_eq_some_iff.mp isId).1]
  exact isId

theorem Traced.insert (traced : Traced index pos guide leaves used) (nodup : guide.ids.Nodup)
    {id : ℕ} (isNext : guide.ids[guide.sorted.length]? = some id) {step : ProofStep C}
    {counter : UInt32} {leaf : C.Hash}
    (evaluated : evaluateStep index pos step = .ok (counter, leaf)) :
    Traced index pos (guide.insert id counter) (Entries.insert id leaf leaves)
      (used ++ [step]) := by
  refine ⟨?_, ?_⟩
  · rw [length_append, traced.length_eq, ProofGuide.insert, length_append]
    rfl
  · intro entry member
    rcases mem_append.mp member with isOld | isNew
    · obtain ⟨place, oldStep, oldLeaf, isId, isUsed, isEvaluated, isLeaf⟩ :=
        traced.traced entry isOld
      have bound := (List.getElem?_eq_some_iff.mp isUsed).1
      refine ⟨place, oldStep, oldLeaf, isId, ?_, isEvaluated, ?_⟩
      · rw [getElem?_append_left bound]
        exact isUsed
      · refine Entries.mem_insert.mpr (.inr ⟨isLeaf, ?_⟩)
        intro same
        rw [same] at isId
        have := (List.getElem?_inj (List.getElem?_eq_some_iff.mp isId).1 nodup).mp
          (isId.trans isNext.symm)
        have := traced.length_eq
        omega
    · cases mem_singleton.mp isNew
      refine ⟨used.length, step, leaf, ?_, ?_, evaluated, Entries.mem_insert.mpr (.inl rfl)⟩
      · rw [traced.length_eq]
        exact isNext
      · rw [getElem?_append_right (Nat.le_refl _), Nat.sub_self]
        rfl

/-- What a walk comes to: a finished guide with its result. -/
structure WalkEnd (index : Index) (pos n : ℕ) (version : Option UInt32)
    (steps : List (ProofStep C)) (walk : SearchWalk C) (final : ProofGuide) : Prop where
  pos_eq : final.pos = pos
  n_eq : final.n = n
  valid : final.Valid
  finished : final.Finished version
  result : (final.result : Verification (Option (ℕ × ℕ))) = .ok walk.result
  traced : ∃ used, used ++ walk.rest = steps ∧ Traced index pos final walk.leaves used

variable {walk : SearchWalk C}

theorem Consumes.walkEnd (consumes : Consumes index pos walk guide leaves visited steps)
    (stage : guide.Stage version) (samePos : guide.pos = pos)
    (traced : Traced index pos guide leaves used) :
    ∃ final, WalkEnd index pos guide.n version (used ++ steps) walk final := by
  induction consumes generalizing used with
  | finish valid polls isResult =>
    obtain ⟨afterValid, isPos, isN, _⟩ := polls.valid valid
    exact ⟨_, isPos.trans samePos, isN, afterValid, stage.poll valid polls, isResult, used, rfl,
      traced.poll polls⟩
  | @next guide after _ _ step rest id counter leaf valid polls isId evaluated _ ih =>
    obtain ⟨_, isPos, isN, _⟩ := polls.valid valid
    have nextStage : after.Stage version := stage.poll valid polls
    obtain ⟨final, ending⟩ := ih (nextStage.insert id counter) (isPos.trans samePos)
      ((traced.poll polls).insert nextStage.nodup isId evaluated)
    have sameN : (after.insert id counter).n = guide.n := isN
    rw [append_assoc, singleton_append, sameN] at ending
    exact ⟨final, ending⟩

theorem walkSearch_end {searchProof : SearchProof C} {treeSize : ℕ} (fits : treeSize < 2 ^ 64)
    (walked : walkSearch index version searchProof treeSize = .ok walk) :
    ∃ final, WalkEnd index searchProof.pos.toNat treeSize version searchProof.steps walk
      final := by
  have inside := (walkSearch_returns fits).mp (returns_of_eq_ok walked)
  obtain ⟨guide, isNew, consumed⟩ := bind_eq_ok.mp walked
  obtain ⟨started, valid, _, _, _, isStarted⟩ := @ProofGuide.new_valid version _ _ inside fits
  cases Except.ok.inj (isNew.symm.trans isStarted)
  obtain ⟨starts, samePos, rfl, empty⟩ := ProofGuide.new_starts inside fits isNew
  have traced : Traced (C := C) index searchProof.pos.toNat guide [] [] := by
    refine ⟨by rw [empty]; rfl, ?_⟩
    rw [empty]
    exact fun _ isNone => absurd isNone not_mem_nil
  exact (consumes_of_eq_ok valid consumed).walkEnd starts.stage samePos traced

end trace

end LegacySignal.KeyTransparency
