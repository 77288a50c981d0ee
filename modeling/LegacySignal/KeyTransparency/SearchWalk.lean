import LegacySignal.KeyTransparency.Copath
import LegacySignal.KeyTransparency.Verify

/-!
# The walk of a search

The guide takes the search through positions of the log between the first
occurrence of the key and the end of the log, whatever the response contains.
-/

namespace LegacySignal.KeyTransparency

open Run ProofGuide Entries List
open Result (bind_eq_ok)

variable {C : Crypto} {index : Index} {pos : ℕ} {guide : ProofGuide} {leaves : List (ℕ × C.Hash)}
  {visited : List (ℕ × ProofStep C)} {steps : List (ProofStep C)}

theorem PrefixTree.evaluateLoop_returns (key : Index) (value : C.Hash) (proof : List C.Bytes) :
    Returns (PrefixTree.evaluateLoop key value proof) := by
  induction proof generalizing value with
  | nil => trivial
  | cons element rest ih =>
    rw [PrefixTree.evaluateLoop, returns_bind]
    exact ⟨returns_okOr, fun _ _ => ih _⟩

theorem evaluateStep_returns (index : Index) (pos : ℕ) (step : ProofStep C) :
    Returns (evaluateStep index pos step) := by
  unfold evaluateStep
  refine returns_okOr_bind.mpr fun _ _ => ?_
  refine returns_bind.mpr ⟨?_, fun _ _ => ?_⟩
  · unfold PrefixTree.evaluate PrefixTree.evaluateProof
    exact returns_ensure_bind.mpr fun _ => PrefixTree.evaluateLoop_returns _ _ _
  · exact returns_okOr_bind.mpr fun _ _ => trivial

theorem returns_poll_bind {Value : Type} {rest : Bool × ProofGuide → Verification Value}
    (valid : guide.Valid)
    (each : ∀ done after, guide.Polls done after → Returns (rest (done, after))) :
    Returns (guide.poll >>= rest) :=
  returns_bind.mpr ⟨poll_returns valid, fun _ polled =>
    each _ _ (polls_of_eq_ok valid polled)⟩

theorem consume_returns {rounds : ℕ} {walk : SearchWalk C} (valid : guide.Valid)
    (enough : walk.rest.length < rounds) :
    Returns (guide.consume (takeStep index pos) rounds walk) := by
  induction rounds generalizing guide walk with
  | zero => exact absurd enough (Nat.not_lt_zero _)
  | succ rounds ih =>
    refine returns_poll_bind valid fun done after polls => ?_
    obtain ⟨afterValid, _, _, _, finished, unfinished⟩ := polls.valid valid
    cases done with
    | true =>
      exact returns_bind.mpr ⟨result_returns (finished rfl).1, fun _ _ => trivial⟩
    | false =>
      obtain ⟨id, _, _, _, isNext, inserted⟩ :=
        nextId_spec afterValid (unfinished rfl)
      change Returns (after.nextId >>= _)
      rw [isNext]
      change Returns (takeStep index pos after id walk >>= _)
      rcases walk with ⟨result, leaves, visited, _ | ⟨step, rest⟩⟩
      · trivial
      · refine returns_bind.mpr
          ⟨returns_bind.mpr ⟨evaluateStep_returns _ _ _, fun _ _ => trivial⟩, ?_⟩
        rintro ⟨_, next⟩ taken
        obtain ⟨_, _, ⟨⟩⟩ := bind_eq_ok.mp taken
        exact ih (inserted _) (Nat.lt_of_succ_lt_succ enough)

inductive Consumes (index : Index) (pos : ℕ) (walk : SearchWalk C) :
    ProofGuide → List (ℕ × C.Hash) → List (ℕ × ProofStep C) → List (ProofStep C) → Prop where
  | finish {guide after : ProofGuide} (valid : guide.Valid) (polls : guide.Polls true after)
      (isResult : (after.result : Verification _) = .ok walk.result) :
      Consumes index pos walk guide walk.leaves walk.steps walk.rest
  | next {guide after : ProofGuide} {leaves : List (ℕ × C.Hash)}
      {visited : List (ℕ × ProofStep C)} {step : ProofStep C} {rest : List (ProofStep C)} {id : ℕ}
      {counter : UInt32} {leaf : C.Hash} (valid : guide.Valid) (polls : guide.Polls false after)
      (isId : after.ids[after.sorted.length]? = some id)
      (evaluated : evaluateStep index pos step = .ok (counter, leaf))
      (others : Consumes index pos walk (after.insert id counter) (insert id leaf leaves)
        (insert id step visited) rest) :
      Consumes index pos walk guide leaves visited (step :: rest)

variable {walk : SearchWalk C}

theorem consumes_of_consume {rounds : ℕ} {start : SearchWalk C} {result : Option (ℕ × ℕ)}
    (valid : guide.Valid)
    (consumed : guide.consume (takeStep index pos) rounds start = .ok (result, walk)) :
    Consumes index pos { walk with result := result } guide start.leaves start.steps
      start.rest := by
  induction rounds generalizing guide start with
  | zero => cases consumed
  | succ rounds ih =>
    obtain ⟨⟨done, after⟩, polled, consumed⟩ := bind_eq_ok.mp consumed
    have polls := polls_of_eq_ok valid polled
    cases done with
    | true =>
      obtain ⟨result, isResult, ⟨⟩⟩ := bind_eq_ok.mp consumed
      exact .finish valid polls isResult
    | false =>
      obtain ⟨id, isNext, consumed⟩ := bind_eq_ok.mp consumed
      obtain ⟨⟨_, next⟩, taken, consumed⟩ := bind_eq_ok.mp consumed
      obtain ⟨afterValid, _, _, _, _, unfinished⟩ := polls.valid valid
      obtain ⟨_, _, _, isId, same, inserted⟩ := nextId_spec afterValid (unfinished rfl)
      cases Except.ok.inj (isNext.symm.trans same)
      rcases start with ⟨_, leaves, visited, _ | ⟨step, rest⟩⟩
      · cases taken
      · obtain ⟨⟨counter, leaf⟩, evaluated, ⟨⟩⟩ := bind_eq_ok.mp taken
        exact .next valid polls isId evaluated (ih (inserted counter) consumed)

theorem consumes_of_eq_ok {start : SearchWalk C} (valid : guide.Valid)
    (consumed : consumeSteps index pos guide start = .ok walk) :
    Consumes index pos walk guide start.leaves start.steps start.rest := by
  obtain ⟨⟨result, walk⟩, looped, ⟨⟩⟩ := bind_eq_ok.mp consumed
  exact consumes_of_consume valid looped

structure WalkState (start n : ℕ) (guide : ProofGuide) (leaves : List (ℕ × C.Hash)) : Prop where
  pos_eq : guide.pos = start
  n_eq : guide.n = n
  range : ∀ leaf ∈ leaves, start ≤ leaf.1 ∧ leaf.1 < n
  distinct : Distinct leaves
  started : guide.sorted ≠ [] → leaves ≠ []

/-- What a walk gives at its end. -/
structure WalkResult (start n count : ℕ) (walk : SearchWalk C) : Prop where
  range : ∀ leaf ∈ walk.leaves, start ≤ leaf.1 ∧ leaf.1 < n
  distinct : Distinct walk.leaves
  notEmpty : walk.leaves ≠ []
  result : ∀ found ∈ walk.result,
    start ≤ found.2 ∧ found.2 < n ∧ found.1 + walk.rest.length < count

theorem Consumes.spec {start n : ℕ} (consumes : Consumes index pos walk guide leaves visited steps)
    (state : WalkState start n guide leaves) :
    WalkResult start n (guide.sorted.length + steps.length) walk := by
  induction consumes with
  | finish valid polls isResult =>
    obtain ⟨afterValid, samePos, sameN, length, finished, _⟩ := polls.valid valid
    refine ⟨state.range, state.distinct, ?_, ?_⟩
    · apply state.started
      intro empty
      rw [empty] at length
      exact afterValid.notEmpty (length_eq_zero_iff.mp ((finished rfl).2.symm.trans length))
    · intro found isFound
      have isId := (result_spec (isResult.trans (congrArg Except.ok isFound))).2
      have range := afterValid.range _ (mem_of_getElem? isId)
      have bound := (List.getElem?_eq_some_iff.mp isId).1
      rw [samePos, sameN, state.pos_eq, state.n_eq] at range
      refine ⟨range.1, range.2, ?_⟩
      have := (finished rfl).2
      omega
  | @next guide after leaves visited step rest id counter leaf valid polls isId _ _ ih =>
    obtain ⟨afterValid, samePos, sameN, length, _, _⟩ := polls.valid valid
    have range := afterValid.range id (mem_of_getElem? isId)
    rw [samePos, sameN, state.pos_eq, state.n_eq] at range
    have result := ih ⟨samePos.trans state.pos_eq, sameN.trans state.n_eq, ?_,
      state.distinct.insert _ _, ?_⟩
    · rw [ProofGuide.insert, length_append, length, length_singleton, Nat.add_assoc,
        Nat.add_comm 1] at result
      exact result
    · intro entry member
      rcases mem_insert.mp member with rfl | ⟨isOld, _⟩
      · exact range
      · exact state.range entry isOld
    · intro _ empty
      have member : (id, leaf) ∈ insert id leaf leaves := mem_insert.mpr (.inl rfl)
      rw [empty] at member
      cases member

/-- What a walk keeps about the positions that it visits. -/
structure VisitedState (guide : ProofGuide) (visited : List (ℕ × ProofStep C)) : Prop where
  closed : UpClosed guide.n guide.ids
  isVisited : ∀ id, id ∈ visited.map Prod.fst ↔ id ∈ guide.sorted.map Prod.fst

theorem Consumes.upClosed (consumes : Consumes index pos walk guide leaves visited steps)
    (state : VisitedState guide visited) : UpClosed guide.n (walk.steps.map Prod.fst) := by
  induction consumes with
  | @finish guide after valid polls isResult =>
    obtain ⟨afterValid, _, sameN, _, finished, _⟩ := polls.valid valid
    have closed := polls.upClosed state.closed
    have isId : ∀ id, id ∈ walk.steps.map Prod.fst ↔ id ∈ after.ids := by
      intro id
      have fetched := afterValid.fetched
      rw [(finished rfl).2, take_length] at fetched
      rw [state.isVisited, ← (polls.ids.2.map Prod.fst).mem_iff, fetched.mem_iff]
    intro position member upper later inside above
    rw [isId] at member ⊢
    rw [sameN] at closed
    exact closed position member upper later inside above
  | @next guide after leaves visited step rest id counter leaf valid polls _ _ _ ih =>
    rw [← (polls.valid valid).2.2.1]
    refine ih ⟨polls.upClosed state.closed, fun other => ?_⟩
    have isOld : other ∈ visited.map Prod.fst ↔ other ∈ after.sorted.map Prod.fst := by
      rw [state.isVisited, (polls.ids.2.map Prod.fst).mem_iff]
    rw [ProofGuide.insert, map_append, mem_append, ← isOld, mem_keys_insert,
      map_singleton, mem_singleton]
    exact or_comm

variable {version : Option UInt32} {searchProof : SearchProof C} {treeSize : ℕ} {step : ProofStep C}
  {leaf : C.Hash}

theorem walkSearch_returns (fits : treeSize < 2 ^ 64) :
    Returns (walkSearch index version searchProof treeSize) ↔
      searchProof.pos.toNat < treeSize := by
  unfold walkSearch
  rw [returns_bind]
  constructor
  · rintro ⟨returns, _⟩
    by_contra outside
    exact new_not_returns (Nat.le_of_not_lt outside) fits returns
  · intro inside
    obtain ⟨guide, valid, _, _, _, isNew⟩ := @new_valid version _ _ inside fits
    rw [isNew]
    refine ⟨trivial, ?_⟩
    rintro _ ⟨⟩
    exact returns_bind.mpr ⟨consume_returns valid (Nat.lt_succ_self _), fun _ _ => trivial⟩

theorem walkSearch_spec (fits : treeSize < 2 ^ 64)
    (walked : walkSearch index version searchProof treeSize = .ok walk) :
    searchProof.pos.toNat < treeSize ∧
      WalkResult searchProof.pos.toNat treeSize searchProof.steps.length walk := by
  have inside := (walkSearch_returns fits).mp (returns_of_eq_ok walked)
  refine ⟨inside, ?_⟩
  obtain ⟨guide, valid, samePos, sameN, empty, isNew⟩ :=
    @new_valid version _ _ inside fits
  unfold walkSearch at walked
  rw [isNew] at walked
  have state : WalkState (C := C) searchProof.pos.toNat treeSize guide [] :=
    ⟨samePos, sameN, fun _ isLeaf => absurd isLeaf not_mem_nil, nodup_nil,
      fun notEmpty => absurd empty notEmpty⟩
  have result := (consumes_of_eq_ok valid walked).spec state
  rwa [empty, length_nil, Nat.zero_add] at result

theorem walkSearch_upClosed (fits : treeSize < 2 ^ 64)
    (walked : walkSearch index version searchProof treeSize = .ok walk) :
    UpClosed treeSize (walk.steps.map Prod.fst) := by
  have inside := (walkSearch_returns fits).mp (returns_of_eq_ok walked)
  obtain ⟨guide, isNew, consumed⟩ := bind_eq_ok.mp walked
  obtain ⟨started, valid, _, _, _, isStarted⟩ := @new_valid version _ _ inside fits
  cases Except.ok.inj (isNew.symm.trans isStarted)
  obtain ⟨starts, _, rfl, empty⟩ := new_starts inside fits isNew
  refine (consumes_of_eq_ok valid consumed).upClosed ⟨starts.upClosed, ?_⟩
  intro id
  rw [empty]
  exact Iff.rfl

theorem intoSortedPairs_spec {Value : Type} {map : List (ℕ × Value)}
    (distinct : Distinct map) :
    (intoSortedPairs map).1.Pairwise (· < ·) ∧
      (intoSortedPairs map).1.length = (intoSortedPairs map).2.length ∧
      (∀ pair, pair ∈ (intoSortedPairs map).1.zip (intoSortedPairs map).2 ↔ pair ∈ map) ∧
      ∀ id, id ∈ (intoSortedPairs map).1 ↔ id ∈ map.map Prod.fst := by
  have perm := perm_insertionSort (fun pair other : ℕ × Value => pair.1 ≤ other.1) map
  have sorted := pairwise_insertionSort
    (fun pair other : ℕ × Value => pair.1 ≤ other.1) map
  unfold intoSortedPairs
  rw [unzip_eq_map]
  refine ⟨?_, by simp, ?_, ?_⟩
  · have nodup : ((map.insertionSort fun pair other => pair.1 ≤ other.1).map Prod.fst).Nodup :=
      (perm.map Prod.fst).nodup_iff.mpr distinct
    have ordered : ((map.insertionSort fun pair other => pair.1 ≤ other.1).map
        Prod.fst).Pairwise (· ≤ ·) := pairwise_map.mpr sorted
    exact (ordered.and nodup).imp fun both => lt_of_le_of_ne both.1 both.2
  · intro pair
    rw [zip_map', map_id'', perm.mem_iff]
    exact fun _ => rfl
  · intro id
    exact (perm.map Prod.fst).mem_iff

theorem evaluateSorted_returns {map : List (ℕ × C.Hash)} {proof : List C.Hash}
    (distinct : Distinct map) (notEmpty : map ≠ [])
    (inside : ∀ leaf ∈ map, leaf.1 < treeSize) :
    Returns (evaluateBatchProof (intoSortedPairs map).1 treeSize (intoSortedPairs map).2 proof) ↔
      treeSize ≤ 2 ^ 63 := by
  obtain ⟨sorted, length, _, members⟩ := intoSortedPairs_spec distinct
  constructor
  · intro returns
    by_contra large
    refine evaluateBatchProof_not_returns (Nat.lt_of_not_le large) length sorted ?_ ?_ returns
    · intro empty
      obtain ⟨leaf, member⟩ := exists_mem_of_ne_nil _ notEmpty
      have := (members leaf.1).mpr (mem_map_of_mem member)
      rw [empty] at this
      cases this
    · intro id isId
      obtain ⟨leaf, member, rfl⟩ := mem_map.mp ((members id).mp isId)
      exact inside leaf member
  · exact evaluateBatchProof_returns

theorem candidateRoot_returns {start count : ℕ} (result : WalkResult start treeSize count walk) :
    Returns (candidateRoot walk searchProof treeSize) ↔
      (walk.rest = [] → (searchProof.inclusion.mapM C.toHash).isSome → treeSize ≤ 2 ^ 63) := by
  have evaluated := fun proof => @evaluateSorted_returns C treeSize walk.leaves proof
    result.distinct result.notEmpty fun leaf member => (result.range leaf member).2
  simp only [candidateRoot, getHashProof, returns_bind, returns_ensure, ensure_eq_ok, returns_okOr,
    okOr_eq_ok, returns_mapFailure, evaluated, List.isEmpty_iff, true_and, forall_const,
    Option.isSome_iff_exists, forall_exists_index]

theorem evaluateBatchProof_single (leaf : C.Hash) :
    evaluateBatchProof [0] 1 [leaf] [] = .ok leaf := by
  have copath : (LogTree.batchCopath [0] 1 : Run LogError (List ℕ)) = .ok [] := by
    refine bind_eq_ok.mpr ⟨[0], rfl, ?_⟩
    refine bind_eq_ok.mpr ⟨0, rfl, ?_⟩
    exact bind_eq_ok.mpr ⟨[], if_pos rfl, rfl⟩
  simp only [evaluateBatchProof, bind_eq_ok, ensure_eq_ok, exists_const]
  refine ⟨rfl, .singleton _, 0, rfl, Nat.one_pos, [], copath, rfl, ?_⟩
  rw [zipWith_nil_left, merge_right]
  rfl

theorem candidateRoot_single :
    candidateRoot ⟨some (0, 0), [(0, leaf)], [(0, step)], []⟩ ⟨0, [step], []⟩ 1 = .ok leaf := by
  refine bind_eq_ok.mpr ⟨(), ensure_eq_ok.mpr rfl, ?_⟩
  refine bind_eq_ok.mpr ⟨[], rfl, ?_⟩
  exact mapFailure_eq_ok.mpr (evaluateBatchProof_single leaf)

theorem walkSearch_single {counter : UInt32}
    (evaluated : evaluateStep index 0 step = .ok (counter, leaf)) :
    walkSearch index none ⟨0, [step], []⟩ 1 =
      .ok ⟨some (0, 0), [(0, leaf)], [(0, step)], []⟩ := by
  refine bind_eq_ok.mpr ⟨⟨0, 1, 0, [0], [], true⟩, rfl, ?_⟩
  refine bind_eq_ok.mpr ⟨(some (0, 0), ⟨none, [(0, leaf)], [(0, step)], []⟩), ?_, rfl⟩
  refine bind_eq_ok.mpr ⟨(false, ⟨0, 1, 0, [0], [], true⟩), rfl, ?_⟩
  refine bind_eq_ok.mpr ⟨0, rfl, ?_⟩
  refine bind_eq_ok.mpr ⟨_, bind_eq_ok.mpr ⟨(counter, leaf), evaluated, rfl⟩, ?_⟩
  refine bind_eq_ok.mpr ⟨(true, ⟨0, 1, counter, [0], [(0, counter)], false⟩), ?_, ?_⟩
  · simp [ProofGuide.insert, ProofGuide.poll, ProofGuide.last, ProofGuide.inOrder, ensure, bind,
      Except.bind, pure, Except.pure, expect, isLeaf]
  · simp [result, bind, Except.bind, pure, Except.pure, Entries.insert, Option.filter]

end LegacySignal.KeyTransparency
