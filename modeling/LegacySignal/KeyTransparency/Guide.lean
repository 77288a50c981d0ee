import LegacySignal.KeyTransparency.Config
import LegacySignal.KeyTransparency.ImplicitTree

/-!
# The guide through a search proof

`guide.rs` says which entries of the log a search looks at: those on the way to
the wanted version in the implicit tree, or first the frontier of the log where
the most recent version is wanted.
-/

namespace LegacySignal.KeyTransparency

open FlatTree Run List

variable {Failure : Type}

structure ProofGuide where
  /-- Position of the key's first occurrence in the log. -/
  pos : ℕ
  /-- Number of leaf entries in the log. -/
  n : ℕ
  /-- The version of the key being searched for. -/
  version : UInt32
  /-- List of ids to fetch as part of search. -/
  ids : List ℕ
  /-- List of ids that were fetched, and the counter found. -/
  sorted : List (ℕ × UInt32)
  /-- Whether `ids` represent the frontier. -/
  isFrontier : Bool

namespace ProofGuide

def forVersion (version : UInt32) (pos n : ℕ) : Run Failure ProofGuide := do
  pure ⟨pos, n, version, [← root pos n], [], false⟩

def forMostRecent (pos n : ℕ) : Run Failure ProofGuide := do
  pure ⟨pos, n, 0, ← frontier pos n, [], true⟩

def new (version : Option UInt32) (pos n : ℕ) : Run Failure ProofGuide :=
  match version with
  | none => forMostRecent pos n
  | some version => forVersion version pos n

/-- The "last" id looked up. After the frontier that is its first element with the greatest
version. -/
def last (guide : ProofGuide) : Run Failure (ℕ × ProofGuide) :=
  if guide.isFrontier then do
    let greatest ← expect guide.sorted.getLast? "index out of bounds"
    let found ← expect (guide.sorted.find? fun entry => entry.2 = greatest.2)
      "last element of array must match, if no earlier one does"
    pure (found.1, { guide with version := greatest.2, isFrontier := false })
  else do
    let found ← expect guide.ids.getLast? "index out of bounds"
    pure (found, guide)

/-- The next id to look up, to the left or to the right depending on the counter. -/
def move (guide : ProofGuide) (last : ℕ) (ctr : UInt32) : Run Failure (Bool × ProofGuide) :=
  if ctr < guide.version then
    if last = guide.n - 1 then pure (true, guide)
    else do
      let next ← right last guide.pos guide.n
      pure (false, { guide with ids := guide.ids ++ [next] })
  else
    if last = guide.pos then pure (true, guide)
    else do
      let next ← left last guide.pos guide.n
      pure (false, { guide with ids := guide.ids ++ [next] })

def inOrder (guide : ProofGuide) : List (ℕ × UInt32) :=
  guide.sorted.insertionSort fun entry other => entry.1 ≤ other.1

/-- Whether the search proof is finished. -/
def poll (guide : ProofGuide) : Verification (Bool × ProofGuide) :=
  if guide.sorted.length < guide.ids.length then pure (false, guide)
  else do
    ensure (guide.inOrder.IsChain fun entry other => entry.2 ≤ other.2)
      (.verificationFailed "Set of counters is not monotonic")
    let (last, guide) ← { guide with sorted := guide.inOrder }.last
    if isLeaf last then pure (true, guide)
    else
      let found ← expect (guide.sorted.find? fun entry => entry.1 = last)
        "last id looked up must have corresponding entry in sorted"
      guide.move last found.2

def nextId (guide : ProofGuide) : Run Failure ℕ :=
  expect guide.ids[guide.sorted.length]? "index out of bounds"

def insert (guide : ProofGuide) (id : ℕ) (ctr : UInt32) : ProofGuide :=
  { guide with sorted := guide.sorted ++ [(id, ctr)] }

/-- The index that represents the final search result, and its id. -/
def result (guide : ProofGuide) : Run Failure (Option (ℕ × ℕ)) :=
  if guide.isFrontier then panicked "result() called unexpectedly"
  else
    pure <| do
      let smallest ← (guide.sorted.find? fun entry => guide.version ≤ entry.2).filter
        fun entry => entry.2 = guide.version
      let index ← guide.ids.findIdx? (· = smallest.1)
      pure (index, smallest.1)

/-- `step` is the closure, on the state that it captures; the rounds bound the loop. -/
def consume {State : Type} (step : ProofGuide → ℕ → State → Verification (ProofGuide × State)) :
    ℕ → ProofGuide → State → Verification (Option (ℕ × ℕ) × State)
  | 0, _, _ => .error .endless
  | rounds + 1, guide, state => do
      let (done, guide) ← guide.poll
      if done then pure (← guide.result, state)
      else
        let nextId ← guide.nextId
        let (guide, state) ← step guide nextId state
        consume step rounds guide state

/-- What holds of a guide at any time. -/
structure Valid (guide : ProofGuide) : Prop where
  pos_lt : guide.pos < guide.n
  fits : guide.n < 2 ^ 64
  notEmpty : guide.ids ≠ []
  range : ∀ id ∈ guide.ids, guide.pos ≤ id ∧ id < guide.n
  fetched : (guide.sorted.map Prod.fst).Perm (guide.ids.take guide.sorted.length)
  count : guide.sorted.length ≤ guide.ids.length

variable {guide : ProofGuide} {version : Option UInt32} {pos n : ℕ}

theorem new_valid (pos_lt : pos < n) (fits : n < 2 ^ 64) :
    ∃ guide, guide.Valid ∧ guide.pos = pos ∧ guide.n = n ∧ guide.sorted = [] ∧
      ∀ {Failure : Type}, (new version pos n : Run Failure ProofGuide) = .ok guide := by
  rcases frontier_spec pos_lt fits with ⟨top, nodes, within, spine, found⟩
  cases version with
  | some version =>
    refine ⟨⟨pos, n, version, [top.number], [], false⟩,
      ⟨pos_lt, fits, by simp, ?_, by simp, by simp⟩, rfl, rfl, rfl, ?_⟩
    · intro id isRoot
      cases mem_singleton.mp isRoot
      exact ⟨within.start_le, within.lt_end⟩
    · intro Failure
      simp only [new, forVersion, found.1]
      rfl
  | none =>
    refine ⟨⟨pos, n, 0, nodes.map Node.number, [], true⟩,
      ⟨pos_lt, fits, ?_, ?_, by simp, by simp⟩, rfl, rfl, rfl, ?_⟩
    · intro empty
      cases map_eq_nil_iff.mp empty
      cases spine
    · intro id isNode
      rcases mem_map.mp isNode with ⟨node, onSpine, rfl⟩
      have range := spine.mem_range within.start_le onSpine
      exact ⟨range.1, range.2.1⟩
    · intro Failure
      simp only [new, forMostRecent, found.2]
      rfl

/-- The guide fetches the frontier, which starts at the top node. -/
structure AtFrontier (guide : ProofGuide) (top : Node) (nodes : List Node) : Prop where
  isFrontier : guide.isFrontier = true
  within : TopWithin guide.pos guide.n ⟨log2 guide.n, 0⟩ top
  spine : Spine guide.pos guide.n top nodes
  isIds : guide.ids = nodes.map Node.number

/-- What a guide has to fetch first. -/
inductive Starts (guide : ProofGuide) : Option UInt32 → Prop where
  | root {top : Node} (notFrontier : guide.isFrontier = false)
      (within : TopWithin guide.pos guide.n ⟨log2 guide.n, 0⟩ top)
      (isIds : guide.ids = [top.number]) : Starts guide (some guide.version)
  | frontier {top : Node} {nodes : List Node} (atFrontier : guide.AtFrontier top nodes) :
      Starts guide none

theorem new_starts (pos_lt : pos < n) (fits : n < 2 ^ 64)
    (isNew : (new version pos n : Run Failure ProofGuide) = .ok guide) :
    guide.Starts version ∧ guide.pos = pos ∧ guide.n = n ∧ guide.sorted = [] := by
  rcases frontier_spec pos_lt fits with ⟨top, nodes, within, spine, found⟩
  cases version with
  | some version =>
    simp only [new, forVersion, found.1] at isNew
    cases isNew
    exact ⟨.root rfl within rfl, rfl, rfl, rfl⟩
  | none =>
    simp only [new, forMostRecent, found.2] at isNew
    cases isNew
    exact ⟨.frontier ⟨rfl, within, spine, rfl⟩, rfl, rfl, rfl⟩

theorem Starts.upClosed (starts : guide.Starts version) : UpClosed guide.n guide.ids := by
  cases starts with
  | root _ within isIds =>
    rw [isIds]
    rintro position isRoot _ after inside ⟨upper, rfl, covers⟩
    cases mem_singleton.mp isRoot
    exact absurd covers (not_above_root within after inside)
  | frontier atFrontier =>
    rw [atFrontier.isIds]
    intro position isPosition upper after inside above
    obtain ⟨node, isNode, rfl⟩ := mem_map.mp isPosition
    exact absurd above
      (upClosed_spine atFrontier.within atFrontier.spine node isNode upper after inside)

theorem new_not_returns (empty : n ≤ pos) (fits : n < 2 ^ 64) :
    ¬Returns (new version pos n : Run Failure ProofGuide) := by
  cases version with
  | some version =>
    simp only [new, forVersion]
    rw [returns_bind]
    exact fun returns => root_not_returns empty fits returns.1
  | none =>
    simp only [new, forMostRecent, frontier]
    rw [returns_bind, returns_bind]
    exact fun returns => root_not_returns empty fits returns.1.1

/-- The id to look up after a node with the counter, if there is one. -/
inductive Moves (guide : ProofGuide) (node : Node) (ctr : UInt32) : Option ℕ → Prop where
  | leaf (isLeaf : node.height = 0) : Moves guide node ctr none
  | atEnd (less : ctr < guide.version) (isEnd : node.number + 1 = guide.n) :
      Moves guide node ctr none
  | atStart (notLess : guide.version ≤ ctr) (isStart : node.number = guide.pos) :
      Moves guide node ctr none
  | right {top : Node} (inner : node.height ≠ 0) (less : ctr < guide.version)
      (within : TopWithin guide.pos guide.n node.right top) :
      Moves guide node ctr (some top.number)
  | left {top : Node} (inner : node.height ≠ 0) (notLess : guide.version ≤ ctr)
      (within : TopWithin guide.pos guide.n node.left top) :
      Moves guide node ctr (some top.number)

def moved (guide : ProofGuide) : Option ℕ → Bool × ProofGuide
  | none => (true, guide)
  | some next => (false, { guide with ids := guide.ids ++ [next] })

variable {node : Node} {next : ℕ}

theorem move_spec (fits : guide.n < 2 ^ 64) (le_last : guide.pos ≤ node.number)
    (last_lt : node.number < guide.n) (inner : node.height ≠ 0) (ctr : UInt32) :
    ∃ next, guide.Moves node ctr next ∧ ∀ {Failure : Type},
      (guide.move node.number ctr : Run Failure _) = .ok (guide.moved next) := by
  have low : node.height < 64 := height_lt_of_number_lt (by omega)
  unfold move
  by_cases less : ctr < guide.version
  · by_cases atEnd : node.number = guide.n - 1
    · refine ⟨none, .atEnd less (by omega), ?_⟩
      intro Failure
      rw [if_pos less, if_pos atEnd]
      rfl
    · rcases right_spec low inner le_last (show node.number + 1 < guide.n by omega) with
        ⟨top, within, found⟩
      refine ⟨some top.number, .right inner less within, ?_⟩
      intro Failure
      rw [if_pos less, if_neg atEnd, found]
      rfl
  · have notLess := UInt32.not_lt.mp less
    by_cases atStart : node.number = guide.pos
    · refine ⟨none, .atStart notLess atStart, ?_⟩
      intro Failure
      rw [if_neg less, if_pos atStart]
      rfl
    · rcases left_spec low inner (show guide.pos < node.number by omega) last_lt with
        ⟨top, within, found⟩
      refine ⟨some top.number, .left inner notLess within, ?_⟩
      intro Failure
      rw [if_neg less, if_neg atStart, found]
      rfl

theorem Moves.range {ctr : UInt32} (moves : guide.Moves node ctr (some next)) :
    guide.pos ≤ next ∧ next < guide.n := by
  cases moves with
  | right _ _ within => exact ⟨within.start_le, within.lt_end⟩
  | left _ _ within => exact ⟨within.start_le, within.lt_end⟩

/-- The id from which a guide goes on, and the version it searches for. After the frontier these
come from the counters. -/
inductive Chosen (guide : ProofGuide) : ℕ → UInt32 → Prop where
  | first {greatest found : ℕ × UInt32} (isFrontier : guide.isFrontier = true)
      (isGreatest : guide.sorted.getLast? = some greatest)
      (isFirst : (guide.sorted.find? fun entry => entry.2 = greatest.2) = some found) :
      Chosen guide found.1 greatest.2
  | last {last : ℕ} (notFrontier : guide.isFrontier = false)
      (isLast : guide.ids.getLast? = some last) : Chosen guide last guide.version

theorem last_spec (valid : guide.Valid) (complete : guide.sorted.length = guide.ids.length) :
    ∃ last version, last ∈ guide.ids ∧ guide.Chosen last version ∧ ∀ {Failure : Type},
      (guide.last : Run Failure _) =
        .ok (last, { guide with version := version, isFrontier := false }) := by
  unfold ProofGuide.last
  by_cases isFrontier : guide.isFrontier = true
  · have notEmpty : guide.sorted ≠ [] := by
      intro empty
      rw [empty] at complete
      exact valid.notEmpty (length_eq_zero_iff.mp complete.symm)
    have greatest := getLast?_eq_some_getLast notEmpty
    cases found : guide.sorted.find? fun entry => entry.2 = (guide.sorted.getLast notEmpty).2 with
    | none =>
      have := find?_eq_none.mp found _ (getLast_mem notEmpty)
      simp at this
    | some entry =>
      refine ⟨entry.1, (guide.sorted.getLast notEmpty).2, ?_, .first isFrontier greatest found,
        ?_⟩
      · have member := mem_map_of_mem (f := Prod.fst) (mem_of_find?_eq_some found)
        have isTaken := valid.fetched.mem_iff.mp member
        exact mem_of_mem_take isTaken
      · intro Failure
        rw [if_pos isFrontier, expect_some greatest]
        change (expect _ _ >>= _) = _
        rw [expect_some found]
        rfl
  · have notFrontier : guide.isFrontier = false := by simpa using isFrontier
    have isLast := getLast?_eq_some_getLast valid.notEmpty
    refine ⟨guide.ids.getLast valid.notEmpty, guide.version, getLast_mem _,
      .last notFrontier isLast, ?_⟩
    intro Failure
    rw [if_neg isFrontier, expect_some isLast]
    change Except.ok _ = Except.ok _
    rw [← notFrontier]

theorem Valid.sort (valid : guide.Valid) (version : UInt32) (isFrontier : Bool) :
    Valid { guide with
      sorted := guide.inOrder, version := version, isFrontier := isFrontier } where
  pos_lt := valid.pos_lt
  fits := valid.fits
  notEmpty := valid.notEmpty
  range := valid.range
  fetched := by
    dsimp only [inOrder]
    rw [length_insertionSort]
    exact ((perm_insertionSort _ guide.sorted).map Prod.fst).trans valid.fetched
  count := by
    dsimp only [inOrder]
    rw [length_insertionSort]
    exact valid.count

theorem Valid.push (valid : guide.Valid) (le_next : guide.pos ≤ next) (next_lt : next < guide.n) :
    Valid { guide with ids := guide.ids ++ [next] } where
  pos_lt := valid.pos_lt
  fits := valid.fits
  notEmpty := by simp
  range := by
    intro id isId
    rcases mem_append.mp isId with isOld | isNew
    · exact valid.range id isOld
    · cases mem_singleton.mp isNew
      exact ⟨le_next, next_lt⟩
  fetched := by
    dsimp only
    rw [take_append_of_le_length valid.count]
    exact valid.fetched
  count := by
    have := valid.count
    simp only [length_append]
    omega

/-- The guide with its ids in order, once it searches for the version. -/
def ordered (guide : ProofGuide) (version : UInt32) : ProofGuide :=
  { guide with sorted := guide.inOrder, version := version, isFrontier := false }

/-- When all ids are fetched, the guide goes on from one of them, with its counter. -/
structure Looks (guide : ProofGuide) (node : Node) (version ctr : UInt32) : Prop where
  complete : guide.sorted.length = guide.ids.length
  monotonic : guide.inOrder.IsChain fun entry other => entry.2 ≤ other.2
  isId : node.number ∈ guide.ids
  chosen : { guide with sorted := guide.inOrder }.Chosen node.number version
  member : (node.number, ctr) ∈ guide.inOrder

/-- What a poll can come to. -/
inductive Polls (guide : ProofGuide) : Bool → ProofGuide → Prop where
  | incomplete (incomplete : guide.sorted.length < guide.ids.length) : Polls guide false guide
  | done {node : Node} {version ctr : UInt32} (looks : guide.Looks node version ctr)
      (moves : (guide.ordered version).Moves node ctr none) :
      Polls guide true (guide.ordered version)
  | next {node : Node} {version ctr : UInt32} {next : ℕ} (looks : guide.Looks node version ctr)
      (moves : (guide.ordered version).Moves node ctr (some next)) :
      Polls guide false { guide.ordered version with ids := guide.ids ++ [next] }

theorem perm_inOrder (guide : ProofGuide) : guide.inOrder.Perm guide.sorted :=
  perm_insertionSort _ _

theorem length_inOrder (guide : ProofGuide) : guide.inOrder.length = guide.sorted.length :=
  length_insertionSort _ _

theorem perm_ids (valid : guide.Valid) (complete : guide.sorted.length = guide.ids.length) :
    (guide.inOrder.map Prod.fst).Perm guide.ids := by
  have fetched := valid.fetched
  rw [complete, take_length] at fetched
  exact ((perm_inOrder guide).map Prod.fst).trans fetched

theorem poll_spec (valid : guide.Valid)
    (monotonic : guide.sorted.length = guide.ids.length →
      guide.inOrder.IsChain fun entry other => entry.2 ≤ other.2) :
    ∃ done after, guide.Polls done after ∧ guide.poll = .ok (done, after) := by
  rcases Nat.lt_or_eq_of_le valid.count with incomplete | complete
  · exact ⟨false, guide, .incomplete incomplete, if_pos incomplete⟩
  have monotonic := monotonic complete
  rcases last_spec (valid.sort guide.version guide.isFrontier)
    ((length_inOrder guide).trans complete) with ⟨last, version, isId, chosen, isLast⟩
  rcases Node.exists_number_eq last with ⟨node, rfl⟩
  obtain ⟨entry, member, same⟩ := mem_map.mp ((perm_ids valid complete).mem_iff.mpr isId)
  obtain ⟨found, isFound⟩ :
      ∃ found, (guide.inOrder.find? fun entry => entry.1 = node.number) = some found :=
    Option.isSome_iff_exists.mp (find?_isSome.mpr ⟨entry, member, by simpa using same⟩)
  have same : found.1 = node.number := by simpa using find?_some isFound
  have looks : guide.Looks node version found.2 :=
    ⟨complete, monotonic, isId, chosen, same ▸ mem_of_find?_eq_some isFound⟩
  have step : guide.poll = if isLeaf node.number then .ok (true, guide.ordered version)
      else (guide.ordered version).move node.number found.2 := by
    unfold poll
    rw [if_neg (by omega), ensure, if_pos monotonic]
    change (ProofGuide.last { guide with sorted := guide.inOrder } >>= _) = _
    rw [isLast]
    change (if isLeaf node.number then _ else expect (guide.inOrder.find? _) _ >>= _) = _
    rw [expect_some isFound]
    rfl
  rw [isLeaf_number] at step
  by_cases leaf : node.height = 0
  · rw [leaf] at step
    exact ⟨true, _, .done looks (.leaf leaf), step⟩
  · rw [if_neg (by simpa using leaf)] at step
    have range := valid.range node.number isId
    obtain ⟨next, moves, isMove⟩ :=
      @move_spec (guide.ordered version) node valid.fits range.1 range.2 leaf found.2
    cases next with
    | none => exact ⟨true, _, .done looks moves, step.trans isMove⟩
    | some next => exact ⟨false, _, .next looks moves, step.trans isMove⟩

theorem poll_not_monotonic (complete : guide.sorted.length = guide.ids.length)
    (notMonotonic : ¬guide.inOrder.IsChain fun entry other => entry.2 ≤ other.2) :
    guide.poll = fail (.verificationFailed "Set of counters is not monotonic") := by
  unfold poll
  rw [if_neg (by omega), ensure, if_neg notMonotonic]
  rfl

theorem poll_returns (valid : guide.Valid) : Returns guide.poll := by
  by_cases monotonic : guide.sorted.length = guide.ids.length →
      guide.inOrder.IsChain fun entry other => entry.2 ≤ other.2
  · obtain ⟨_, _, _, polled⟩ := poll_spec valid monotonic
    exact returns_of_eq_ok polled
  · obtain ⟨complete, notMonotonic⟩ := Classical.not_imp.mp monotonic
    rw [poll_not_monotonic complete notMonotonic]
    trivial

variable {done : Bool} {after : ProofGuide}

theorem polls_of_eq_ok (valid : guide.Valid) (polled : guide.poll = .ok (done, after)) :
    guide.Polls done after := by
  by_cases monotonic : guide.sorted.length = guide.ids.length →
      guide.inOrder.IsChain fun entry other => entry.2 ≤ other.2
  · obtain ⟨_, _, polls, isPoll⟩ := poll_spec valid monotonic
    cases isPoll.symm.trans polled
    exact polls
  · obtain ⟨complete, notMonotonic⟩ := Classical.not_imp.mp monotonic
    cases (poll_not_monotonic complete notMonotonic).symm.trans polled

theorem Polls.valid (polls : guide.Polls done after) (valid : guide.Valid) :
    after.Valid ∧ after.pos = guide.pos ∧ after.n = guide.n ∧
      after.sorted.length = guide.sorted.length ∧
      (done = true → after.isFrontier = false ∧ after.sorted.length = after.ids.length) ∧
      (done = false → after.sorted.length < after.ids.length) := by
  cases polls with
  | incomplete incomplete => exact ⟨valid, rfl, rfl, rfl, nofun, fun _ => incomplete⟩
  | done looks moves =>
    exact ⟨valid.sort _ _, rfl, rfl, length_inOrder guide,
      fun _ => ⟨rfl, (length_inOrder guide).trans looks.complete⟩, nofun⟩
  | @next _ version _ next looks moves =>
    obtain ⟨le_next, next_lt⟩ := moves.range
    refine ⟨(valid.sort version false).push le_next next_lt, rfl, rfl, length_inOrder guide, nofun,
      fun _ => ?_⟩
    have complete := (length_inOrder guide).trans looks.complete
    simp only [ordered, length_append, length_singleton]
    omega

theorem Polls.upClosed (polls : guide.Polls done after) (closed : UpClosed guide.n guide.ids) :
    UpClosed after.n after.ids := by
  cases polls with
  | incomplete | done => exact closed
  | next looks moves =>
    cases moves with
    | right inner _ within =>
      exact closed.push looks.isId (Node.height_right inner)
        (fun _ covered => ((Node.covers_right inner).mp covered).1) within
    | left inner _ within =>
      exact closed.push looks.isId (Node.height_left inner)
        (fun _ covered => ((Node.covers_left inner).mp covered).1) within

theorem Polls.ids (polls : guide.Polls done after) :
    (∃ more, after.ids = guide.ids ++ more) ∧ after.sorted.Perm guide.sorted := by
  cases polls with
  | incomplete => exact ⟨⟨[], (append_nil _).symm⟩, .refl _⟩
  | done => exact ⟨⟨[], (append_nil _).symm⟩, perm_inOrder guide⟩
  | @next _ _ _ next => exact ⟨⟨[next], rfl⟩, perm_inOrder guide⟩

theorem nextId_spec (valid : guide.Valid) (incomplete : guide.sorted.length < guide.ids.length) :
    ∃ id, guide.pos ≤ id ∧ id < guide.n ∧ guide.ids[guide.sorted.length]? = some id ∧
      (∀ {Failure : Type}, (guide.nextId : Run Failure ℕ) = .ok id) ∧
      ∀ ctr, (guide.insert id ctr).Valid := by
  have isNext := getElem?_eq_getElem incomplete
  have range := valid.range _ (getElem_mem incomplete)
  refine ⟨_, range.1, range.2, isNext, fun {Failure} => expect_some isNext, ?_⟩
  intro ctr
  refine ⟨valid.pos_lt, valid.fits, valid.notEmpty, valid.range, ?_, ?_⟩
  · simp only [ProofGuide.insert, map_append, map_cons, map_nil, length_append,
      length_singleton]
    rw [take_add_one, isNext]
    exact valid.fetched.append_right _
  · simp only [ProofGuide.insert, length_append, length_singleton]
    omega

theorem result_returns (notFrontier : guide.isFrontier = false) :
    Returns (guide.result : Run Failure _) := by
  unfold result
  rw [if_neg (by simp [notFrontier])]
  trivial

theorem result_spec {found : ℕ × ℕ} (isResult : (guide.result : Run Failure _) = .ok (some found)) :
    (guide.sorted.find? fun entry => guide.version ≤ entry.2) = some (found.2, guide.version) ∧
      guide.ids[found.1]? = some found.2 := by
  unfold result at isResult
  by_cases isFrontier : guide.isFrontier = true
  · rw [if_pos isFrontier] at isResult
    cases isResult
  · rw [if_neg isFrontier] at isResult
    have chosen := Except.ok.inj isResult
    rcases Option.bind_eq_some_iff.mp chosen with ⟨smallest, isSmallest, rest⟩
    rcases Option.bind_eq_some_iff.mp rest with ⟨index, isIndex, same⟩
    cases same
    rcases Option.filter_eq_some_iff.mp isSmallest with ⟨first, equal⟩
    simp only [decide_eq_true_eq] at equal
    rcases findIdx?_eq_some_iff_getElem.mp isIndex with ⟨bound, isId, _⟩
    simp only [decide_eq_true_eq] at isId
    refine ⟨?_, ?_⟩
    · rw [first, ← equal]
    · rw [getElem?_eq_getElem bound, isId]

end ProofGuide

end LegacySignal.KeyTransparency
