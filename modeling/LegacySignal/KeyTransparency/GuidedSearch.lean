import LegacySignal.KeyTransparency.Decided

/-!
# A search with the versions of a log

The guide is asked to go on until it is done, and every id it asks for is
answered with the version there. It asks for at most so many ids as the frontier
and one way down the tree have, and then it has found what is there.
-/

namespace LegacySignal.KeyTransparency

open FlatTree Run List

variable {start n : ℕ} {node : Node}

theorem height_le_log2 (inside : node.number < n) : node.height ≤ log2 n := by
  have factor := Nat.le_mul_of_pos_right (2 ^ node.height) (show 0 < 2 * node.place + 1 by omega)
  have := node.number_eq_mul
  exact (Nat.le_log2 (by omega)).mpr (by omega)

theorem Spine.length_le {nodes : List Node} (spine : Spine start n node nodes) :
    nodes.length ≤ node.height + 1 := by
  induction spine with
  | last => exact Nat.le_add_left 1 _
  | @next node _ _ inner _ within _ ih =>
    have lower := within.lower
    have height := Node.height_right inner
    rw [length_cons]
    omega

namespace ProofGuide

/-- A closure that inserts the version at the id that it is called with, and keeps the id. -/
def answer (versions : ℕ → UInt32) (guide : ProofGuide) (nextId : ℕ) (asked : List ℕ) :
    Verification (ProofGuide × List ℕ) :=
  pure (guide.insert nextId (versions nextId), asked ++ [nextId])

variable {guide after : ProofGuide} {version : Option UInt32} {versions : ℕ → UInt32}
  {asked : List ℕ} {pos next : ℕ}

/-- The ids are those of the frontier, or at most as many as are left above the last one. -/
inductive Room (guide : ProofGuide) : Prop where
  | frontier (isFrontier : guide.isFrontier = true) (few : guide.ids.length ≤ log2 guide.n + 1)
  | below {node : Node} (notFrontier : guide.isFrontier = false)
      (isLast : guide.ids.getLast? = some node.number)
      (few : guide.ids.length + node.height ≤ 2 * log2 guide.n + 2)

theorem Room.length_le (room : guide.Room) : guide.ids.length ≤ 2 * log2 guide.n + 2 := by
  cases room <;> omega

theorem Starts.room (starts : guide.Starts version) : guide.Room := by
  cases starts with
  | root notFrontier within isIds =>
    have lower : _ ≤ log2 guide.n := within.lower
    refine .below notFrontier (by rw [isIds]; rfl) ?_
    rw [isIds, length_singleton]
    omega
  | frontier atFrontier =>
    have lower : _ ≤ log2 guide.n := atFrontier.within.lower
    have length := atFrontier.spine.length_le
    refine .frontier atFrontier.isFrontier ?_
    rw [atFrontier.isIds, length_map]
    omega

theorem Moves.lower {ctr : UInt32} (moves : guide.Moves node ctr (some next)) :
    ∃ top : Node, top.number = next ∧ top.height < node.height := by
  cases moves with
  | right inner _ within =>
    have lower := within.lower
    have height := Node.height_right inner
    exact ⟨_, rfl, by omega⟩
  | left inner _ within =>
    have lower := within.lower
    have height := Node.height_left inner
    exact ⟨_, rfl, by omega⟩

theorem Polls.room (polls : guide.Polls false after) (valid : guide.Valid) (room : guide.Room) :
    after.Room := by
  cases polls with
  | incomplete => exact room
  | @next node _ _ _ looks moves =>
    obtain ⟨top, rfl, lower⟩ := moves.lower
    refine @Room.below _ top rfl getLast?_concat ?_
    simp only [ordered, length_append, length_singleton]
    cases room with
    | frontier isFrontier few =>
      have high := height_le_log2 (valid.range node.number looks.isId).2
      omega
    | below notFrontier isLast few =>
      obtain ⟨isNode, _⟩ := looks.chosen.of_notFrontier notFrontier
      cases Node.number_injective (Option.some.inj (isLast.symm.trans isNode))
      omega

/-- What a guide keeps whose ids were all answered with the versions. -/
structure Answered (guide : ProofGuide) (version : Option UInt32) (versions : ℕ → UInt32)
    (asked : List ℕ) : Prop where
  valid : guide.Valid
  stage : guide.Stage version
  room : guide.Room
  asked_eq : asked = guide.ids.take guide.sorted.length
  agrees : ∀ entry ∈ guide.sorted, entry.2 = versions entry.1

/-- The versions of a log never decrease. -/
def Monotone (versions : ℕ → UInt32) (pos n : ℕ) : Prop :=
  ∀ position later, pos ≤ position → position ≤ later → later < n →
    versions position ≤ versions later

theorem Answered.monotonic (answered : guide.Answered version versions asked)
    (monotone : Monotone versions guide.pos guide.n) :
    guide.inOrder.IsChain fun entry other => entry.2 ≤ other.2 := by
  apply isChain_iff_pairwise.mpr
  apply (pairwise_inOrder guide).imp_of_mem
  intro entry other isEntry isOther le
  have range := fun entry (member : entry ∈ guide.inOrder) => answered.valid.range entry.1
    (mem_of_mem_take (answered.valid.fetched.mem_iff.mp
      (mem_map_of_mem ((perm_inOrder guide).mem_iff.mp member))))
  rw [answered.agrees _ ((perm_inOrder guide).mem_iff.mp isEntry),
    answered.agrees _ ((perm_inOrder guide).mem_iff.mp isOther)]
  exact monotone _ _ (range entry isEntry).1 le (range other isOther).2

theorem Answered.insert (answered : guide.Answered version versions asked)
    (polls : guide.Polls false after) (isId : after.ids[after.sorted.length]? = some next)
    (inserted : (after.insert next (versions next)).Valid) :
    (after.insert next (versions next)).Answered version versions (asked ++ [next]) := by
  obtain ⟨⟨more, isIds⟩, perm⟩ := polls.ids
  have stage : after.Stage version := answered.stage.poll answered.valid polls
  have room := polls.room answered.valid answered.room
  refine ⟨inserted, stage.insert next _, ?_, ?_, ?_⟩
  · cases room with
    | frontier isFrontier few => exact .frontier isFrontier few
    | below notFrontier isLast few => exact .below notFrontier isLast few
  · rw [ProofGuide.insert, length_append, length_singleton, take_add_one, isId,
      answered.asked_eq, perm.length_eq, isIds,
      take_append_of_le_length answered.valid.count]
    rfl
  · intro entry member
    rcases mem_append.mp member with isOld | isNew
    · exact answered.agrees entry (perm.mem_iff.mp isOld)
    · rw [mem_singleton.mp isNew]

/-- The search has asked for few ids of the log, none of them twice, and has found the first
position with the version, or that there is none. -/
structure Search (pos n : ℕ) (version : Option UInt32) (versions : ℕ → UInt32)
    (result : Option (ℕ × ℕ)) (asked : List ℕ) : Prop where
  range : ∀ id ∈ asked, pos ≤ id ∧ id < n
  nodup : asked.Nodup
  few : asked.length ≤ 2 * log2 n + 2
  result : ∀ position, (∃ index, result = some (index, position)) ↔
    IsLeast {position | pos ≤ position ∧ position < n ∧
      versions position = version.getD (versions (n - 1))} position

theorem Answered.done (answered : guide.Answered version versions asked)
    (monotone : Monotone versions guide.pos guide.n) (polls : guide.Polls true after) :
    ∃ result, (after.result : Verification _) = .ok result ∧
      Search guide.pos guide.n version versions result asked := by
  have finished : after.Finished version := answered.stage.poll answered.valid polls
  obtain ⟨valid, isPos, isN, _, ended, _⟩ := polls.valid answered.valid
  obtain ⟨notFrontier, complete⟩ := ended rfl
  obtain ⟨_, perm⟩ := polls.ids
  have agrees : ∀ entry ∈ after.sorted, entry.2 = versions entry.1 := fun entry member =>
    answered.agrees entry (perm.mem_iff.mp member)
  obtain ⟨result, isResult⟩ : ∃ result, (after.result : Verification _) = .ok result := by
    unfold ProofGuide.result
    rw [if_neg (by simp [notFrontier])]
    exact ⟨_, rfl⟩
  have isWanted : after.version = version.getD (versions (guide.n - 1)) := by
    have searches := finished.searches
    cases version with
    | some version => exact searches
    | none =>
      rw [← isN]
      exact agrees _ searches
  have all : asked = guide.ids := by
    cases polls with
    | done looks => rw [answered.asked_eq, looks.complete, take_length]
  refine ⟨result, isResult, ?_, ?_, ?_, ?_⟩
  · rw [all]
    exact answered.valid.range
  · rw [all]
    exact answered.stage.nodup
  · rw [all]
    exact answered.room.length_le
  · have least := finished.result_iff valid isResult (by rw [isPos, isN]; exact monotone) agrees
    rw [isPos, isN, isWanted] at least
    exact least

theorem consume_spec {rounds : ℕ} (answered : guide.Answered version versions asked)
    (monotone : Monotone versions guide.pos guide.n)
    (enough : 2 * log2 guide.n + 2 < rounds + guide.sorted.length) :
    ∃ result more, Search guide.pos guide.n version versions result (asked ++ more) ∧
      ∀ extra, consume (answer versions) (rounds + extra) guide asked =
        .ok (result, asked ++ more) := by
  induction rounds generalizing guide asked with
  | zero =>
    have few := answered.room.length_le
    have count := answered.valid.count
    omega
  | succ rounds ih =>
    obtain ⟨done, after, polls, polled⟩ :=
      poll_spec answered.valid fun _ => answered.monotonic monotone
    cases done with
    | true =>
      obtain ⟨result, isResult, search⟩ := answered.done monotone polls
      refine ⟨result, [], by rwa [append_nil], fun extra => ?_⟩
      rw [Nat.add_right_comm, consume, polled]
      change (after.result >>= _) = _
      rw [isResult, append_nil]
      rfl
    | false =>
      obtain ⟨valid, isPos, isN, length, _, unfinished⟩ := polls.valid answered.valid
      obtain ⟨id, _, _, isId, isNext, inserted⟩ := nextId_spec valid (unfinished rfl)
      have sameN : (after.insert id (versions id)).n = guide.n := isN
      have samePos : (after.insert id (versions id)).pos = guide.pos := isPos
      obtain ⟨result, more, search, consumed⟩ := ih (answered.insert polls isId (inserted _))
        (by rwa [samePos, sameN])
        (by rw [sameN, ProofGuide.insert, length_append, length, length_singleton]; omega)
      rw [append_assoc, singleton_append] at search consumed
      rw [samePos, sameN] at search
      refine ⟨result, id :: more, search, fun extra => ?_⟩
      rw [Nat.add_right_comm, consume, polled]
      change (after.nextId >>= _) = _
      rw [isNext]
      exact consumed extra

/-- In a log whose versions never decrease, the loop ends and has searched it. -/
theorem consume_searches (pos_lt : pos < n) (fits : n ≤ 2 ^ 62) (version : Option UInt32)
    (monotone : Monotone versions pos n) :
    ∃ guide result asked, (new version pos n : Verification ProofGuide) = .ok guide ∧
      (∀ rounds, 2 * log2 n + 2 < rounds →
        consume (answer versions) rounds guide [] = .ok (result, asked)) ∧
      Search pos n version versions result asked := by
  have small : n < 2 ^ 64 := by omega
  obtain ⟨guide, valid, _, _, _, isNew⟩ := @new_valid version pos n pos_lt small
  have isNew : (new version pos n : Verification ProofGuide) = .ok guide := isNew
  obtain ⟨starts, rfl, rfl, empty⟩ := new_starts pos_lt small isNew
  have answered : guide.Answered version versions [] := by
    refine ⟨valid, starts.stage, starts.room, ?_, ?_⟩
    · rw [empty]
      rfl
    · rw [empty]
      exact nofun
  obtain ⟨result, asked, search, consumed⟩ :=
    @consume_spec guide version versions [] (2 * log2 guide.n + 3) answered monotone (by omega)
  refine ⟨guide, result, asked, isNew, fun rounds enough => ?_, search⟩
  obtain ⟨extra, rfl⟩ := Nat.exists_eq_add_of_le (show 2 * log2 guide.n + 3 ≤ rounds by omega)
  exact consumed extra

/-- A log of three entries in which the version goes up at the last one. -/
theorem consume_searches_three :
    Monotone (fun position => if position < 2 then 0 else 1) 0 3 ∧
      ∃ guide result asked, (new (some 1) 0 3 : Verification ProofGuide) = .ok guide ∧
        consume (answer fun position => if position < 2 then 0 else 1) 5 guide [] =
          .ok (result, asked) ∧ ∃ index, result = some (index, 2) := by
  have monotone : Monotone (fun position => if position < 2 then 0 else 1) 0 3 := by
    intro position later _ le _
    dsimp only
    split_ifs
    · decide
    · decide
    · omega
    · decide
  obtain ⟨guide, result, asked, isNew, consumed, search⟩ :=
    consume_searches (by decide) (by decide) (some 1) monotone
  refine ⟨monotone, guide, result, asked, isNew, consumed 5 (by decide), (search.result 2).mpr ?_⟩
  refine ⟨by decide, ?_⟩
  rintro position ⟨_, _, same⟩
  by_contra small
  rw [if_pos (by omega)] at same
  exact absurd same (by decide)

end ProofGuide

end LegacySignal.KeyTransparency
