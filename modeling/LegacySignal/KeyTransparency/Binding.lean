import LegacySignal.KeyTransparency.Subtrees

/-!
# What a root says about the leaves

The root calculator folds nodes that make up the whole log into the hash of a
tree in which every interval of leaves is split at the greatest power of two
below its length. Where hashes do not collide, the root fixes the hash of every
node that went into it.
-/

namespace LegacySignal.KeyTransparency

open FlatTree Run LogTree List
open Result (bind_eq_ok)

variable {C : Crypto}

/-- The node for the leaves from `a` up to `b` is made from the node for those from `c` up
to `d`. -/
inductive Within : ℕ → ℕ → NodeData C → ℕ → ℕ → NodeData C → Prop where
  | here (a b : ℕ) (node : NodeData C) : Within a b node a b node
  | left {a b c d : ℕ} {left target : NodeData C} (right : NodeData C) (several : a + 1 < b)
      (within : Within a (split a b) left c d target) :
      Within a b (treeHash left right) c d target
  | right {a b c d : ℕ} {right target : NodeData C} (left : NodeData C) (several : a + 1 < b)
      (within : Within (split a b) b right c d target) :
      Within a b (treeHash left right) c d target

namespace Within

variable {a b c d e f : ℕ} {node middle target : NodeData C}

theorem trans (upper : Within a b node c d middle) (lower : Within c d middle e f target) :
    Within a b node e f target := by
  induction upper with
  | here => exact lower
  | left right several _ ih => exact .left right several (ih lower)
  | right left several _ ih => exact .right left several (ih lower)

theorem range (within : Within a b node c d target) (notEmpty : a < b) :
    a ≤ c ∧ c < d ∧ d ≤ b := by
  induction within with
  | here => exact ⟨le_rfl, notEmpty, le_rfl⟩
  | left right several _ ih =>
    have := split_range several
    have := ih (by omega)
    omega
  | right left several _ ih =>
    have := split_range several
    have := ih (by omega)
    omega

end Within

def Crypto.CollisionFree (C : Crypto) : Prop := Function.Injective C.sha256

def TreeHashInjective (C : Crypto) : Prop :=
  Function.Injective fun pair : NodeData C × NodeData C => treeHash pair.1 pair.2

theorem TreeHashInjective.inj (injective : TreeHashInjective C)
    {left right left' right' : NodeData C} (same : treeHash left right = treeHash left' right') :
    left = left' ∧ right = right' :=
  Prod.mk.inj (@injective (left, right) (left', right') same)

theorem treeHash_injective (collisionFree : C.CollisionFree) : TreeHashInjective C := by
  intro ⟨left, right⟩ ⟨left', right'⟩ same
  have inputs := collisionFree (congrArg NodeData.value same)
  apply Prod.mk.injEq .. |>.mpr
  obtain ⟨interior, value⟩ := left
  obtain ⟨otherInterior, otherValue⟩ := left'
  obtain ⟨interiorRight, valueRight⟩ := right
  obtain ⟨otherInteriorRight, otherValueRight⟩ := right'
  simp only [NodeData.marshal, cons_append, nil_append, cons.injEq,
    Symbol.byte.injEq, Symbol.hash.injEq, and_true] at inputs
  obtain ⟨flag, rfl, flagRight, rfl⟩ := inputs
  constructor
  · cases interior <;> cases otherInterior <;> simp_all
  · cases interiorRight <;> cases otherInteriorRight <;> simp_all

theorem Within.unique (injective : TreeHashInjective C) {a b c d : ℕ}
    {node target other : NodeData C} (first : Within a b node c d target)
    (second : Within a b node c d other) (notEmpty : a < b) : target = other := by
  induction first generalizing other with
  | here a b node =>
    -- The interval itself is below no proper part of it.
    cases second with
    | here => rfl
    | left right several within =>
      have := split_range several
      have := within.range (by omega)
      omega
    | right left several within =>
      have := split_range several
      have := within.range (by omega)
      omega
  | @left a b c d left target right several within ih =>
    have bounds := split_range several
    have range := within.range bounds.1
    generalize isNode : treeHash left right = node at second
    cases second with
    | here => omega
    | left _ _ second =>
      obtain ⟨rfl, _⟩ := injective.inj isNode
      exact ih second bounds.1
    | right _ _ second =>
      have := second.range bounds.2
      omega
  | @right a b c d right target left several within ih =>
    have bounds := split_range several
    have range := within.range bounds.2
    generalize isNode : treeHash left right = node at second
    cases second with
    | here => omega
    | left _ _ second =>
      have := second.range bounds.1
      omega
    | right _ _ second =>
      obtain ⟨_, rfl⟩ := injective.inj isNode
      exact ih second bounds.2

/-- What holds of the nodes for two halves holds of the node for both. -/
def Combines (holds : ℕ → ℕ → NodeData C → Prop) : Prop :=
  ∀ a b left right, a + 1 < b → holds a (split a b) left → holds (split a b) b right →
    holds a b (treeHash left right)

/-- The chain from level `j` on has a node for each one in the binary number `q`, and it holds of
each of them for its leaves. -/
def Represents (holds : ℕ → ℕ → NodeData C → Prop) : ℕ → ℕ → Chain C → Prop
  | _, q, [] => q = 0
  | j, q, none :: rest => q % 2 = 0 ∧ Represents holds (j + 1) (q / 2) rest
  | j, q, some node :: rest =>
    q % 2 = 1 ∧ holds (2 ^ j * (q - 1)) (2 ^ j * q) node ∧ Represents holds (j + 1) (q / 2) rest

section chain

variable {holds : ℕ → ℕ → NodeData C → Prop} {j q p n : ℕ} {chain : Chain C} {acc : NodeData C}
  {h : ℕ}

theorem Combines.siblings (combines : Combines holds) {left right : NodeData C} (odd : q % 2 = 1)
    (after : 2 ^ j * q < n) (upTo : n ≤ 2 ^ j * (q + 1))
    (holdsLeft : holds (2 ^ j * (q - 1)) (2 ^ j * q) left)
    (holdsRight : holds (2 ^ j * q) n right) :
    holds (2 ^ (j + 1) * (q / 2)) n (treeHash left right) := by
  have start : 2 ^ (j + 1) * (q / 2) = 2 ^ j * (q - 1) := by
    rw [pow_succ, mul_assoc]
    congr 1
    omega
  have middle : 2 ^ j * q = 2 ^ j * (q - 1) + 2 ^ j := by
    conv_lhs => rw [show q = q - 1 + 1 by omega, mul_add, mul_one]
  have finish : 2 ^ j * (q + 1) = 2 ^ j * q + 2 ^ j := by rw [mul_add, mul_one]
  have positive := Nat.two_pow_pos j
  have isSplit : split (2 ^ j * (q - 1)) n = 2 ^ j * q := by
    rw [middle]
    exact split_eq (by omega) (by omega)
  rw [start]
  apply combines _ _ _ _ (by omega)
  · rw [isSplit]
    exact holdsLeft
  · rw [isSplit]
    exact holdsRight

theorem Represents.carry (combines : Combines holds) (represents : Represents holds j q chain)
    (holdsAcc : holds (2 ^ j * q) (2 ^ j * (q + 1)) acc) :
    Represents holds j (q + 1) (chain.carry acc) := by
  induction chain generalizing j q acc with
  | nil =>
    cases represents
    exact ⟨rfl, by simpa using holdsAcc, rfl⟩
  | cons first rest ih =>
    cases first with
    | none =>
      obtain ⟨even, represents⟩ := represents
      refine ⟨by omega, by simpa using holdsAcc, ?_⟩
      rwa [show (q + 1) / 2 = q / 2 by omega]
    | some node =>
      obtain ⟨odd, holdsNode, represents⟩ := represents
      refine ⟨by omega, ?_⟩
      rw [show (q + 1) / 2 = q / 2 + 1 by omega]
      refine ih represents ?_
      have whole : 2 ^ (j + 1) * (q / 2 + 1) = 2 ^ j * (q + 1) := by
        rw [pow_succ, mul_assoc]
        congr 1
        omega
      have positive := Nat.two_pow_pos j
      rw [whole]
      exact combines.siblings odd (by rw [mul_add]; omega) le_rfl holdsNode holdsAcc

theorem represents_replicate (count : ℕ) :
    Represents holds j 0 (replicate count none : Chain C) := by
  induction count generalizing j with
  | zero => rfl
  | succ count ih => exact ⟨rfl, ih⟩

theorem Represents.padded (represents : Represents holds j q chain) (count : ℕ) :
    Represents holds j q (chain ++ replicate count none) := by
  induction chain generalizing j q with
  | nil =>
    cases represents
    exact represents_replicate count
  | cons first rest ih =>
    cases first with
    | none => exact ⟨represents.1, ih represents.2⟩
    | some node => exact ⟨represents.1, represents.2.1, ih represents.2.2⟩

/-- A multiple of `2 ^ h` has no node below level `h`. -/
theorem Represents.drop (represents : Represents holds j (2 ^ h * p) chain)
    (enough : h ≤ chain.length) :
    chain.take h = replicate h none ∧ Represents holds (j + h) p (chain.drop h) := by
  induction h generalizing j chain with
  | zero => simpa using represents
  | succ h ih =>
    have even : 2 ^ (h + 1) * p = 2 * (2 ^ h * p) := by ring
    rw [even] at represents
    cases chain with
    | nil => simp at enough
    | cons first rest =>
      cases first with
      | some node =>
        have := represents.1
        omega
      | none =>
        obtain ⟨_, represents⟩ := represents
        rw [Nat.mul_div_cancel_left _ (by decide)] at represents
        obtain ⟨isNone, dropped⟩ := ih represents (by simpa using enough)
        refine ⟨?_, ?_⟩
        · rw [take_succ_cons, isNone, replicate_succ]
        · rwa [drop_succ_cons, show j + (h + 1) = j + 1 + h by omega]

theorem Represents.prepend (represents : Represents holds (j + h) p chain) :
    Represents holds j (2 ^ h * p) (replicate h none ++ chain) := by
  induction h generalizing j with
  | zero => simpa using represents
  | succ h ih =>
    have even : 2 ^ (h + 1) * p = 2 * (2 ^ h * p) := by ring
    rw [even, replicate_succ, cons_append]
    refine ⟨by omega, ?_⟩
    rw [Nat.mul_div_cancel_left _ (by decide)]
    exact ih (by rwa [show j + 1 + h = j + (h + 1) by omega])

theorem Represents.insert_eq (represents : Represents holds 0 (2 ^ h * p) chain) (value : C.Hash) :
    ∃ upper : Chain C, Represents holds h p upper ∧
      chain.insert h value = replicate h none ++ upper.carry ⟨h != 0, value⟩ := by
  obtain ⟨isNone, dropped⟩ := (represents.padded (h + 1 - chain.length)).drop
    (by rw [length_append, length_replicate]; omega)
  rw [Nat.zero_add] at dropped
  refine ⟨_, dropped, ?_⟩
  rw [Chain.insert, isNone]

theorem Represents.insert (combines : Combines holds) {value : C.Hash}
    (represents : Represents holds 0 (2 ^ h * p) chain)
    (holdsValue : holds (2 ^ h * p) (2 ^ h * (p + 1)) ⟨h != 0, value⟩) :
    Represents holds 0 (2 ^ h * (p + 1)) (chain.insert h value) := by
  obtain ⟨upper, isUpper, inserted⟩ := represents.insert_eq value
  rw [inserted]
  apply Represents.prepend
  rw [Nat.zero_add]
  exact isUpper.carry combines holdsValue

theorem root_carry (h : ℕ) (chain : Chain C) (acc : NodeData C) :
    (replicate h none ++ Chain.carry chain acc : Chain C).root =
      .ok (Chain.fold acc chain).value := by
  induction chain generalizing h acc with
  | nil => cases h <;> simp [Chain.root, Chain.carry, Chain.fold, replicate_succ] <;> rfl
  | cons first rest ih =>
    cases first with
    | none => cases h <;> simp [Chain.root, Chain.carry, Chain.fold, replicate_succ] <;> rfl
    | some node =>
      have moved := ih (h + 1) (treeHash node acc)
      rw [replicate_succ'] at moved
      simpa [Chain.carry, Chain.fold] using moved

theorem Represents.fold (combines : Combines holds) (represents : Represents holds j q chain)
    (after : 2 ^ j * q < n) (upTo : n ≤ 2 ^ j * (q + 1)) (holdsAcc : holds (2 ^ j * q) n acc) :
    holds 0 n (Chain.fold acc chain) := by
  induction chain generalizing j q acc with
  | nil =>
    cases represents
    rw [Nat.mul_zero] at holdsAcc
    exact holdsAcc
  | cons first rest ih =>
    have wider : 2 ^ j * (q + 1) ≤ 2 ^ (j + 1) * (q / 2 + 1) := by
      rw [pow_succ, mul_assoc]
      exact Nat.mul_le_mul_left _ (by omega)
    cases first with
    | none =>
      obtain ⟨even, represents⟩ := represents
      have start : 2 ^ (j + 1) * (q / 2) = 2 ^ j * q := by
        rw [pow_succ, mul_assoc]
        congr 1
        omega
      exact ih represents (by omega) (by omega) (by rwa [start])
    | some node =>
      obtain ⟨odd, holdsNode, represents⟩ := represents
      have before : 2 ^ (j + 1) * (q / 2) ≤ 2 ^ j * q := by
        rw [pow_succ, mul_assoc]
        exact Nat.mul_le_mul_left _ (by omega)
      exact ih represents (by omega) (by omega)
        (combines.siblings odd after upTo holdsNode holdsAcc)

end chain

def Item.start (item : Item C) : ℕ := 2 ^ item.level * (item.id / 2 ^ (item.level + 1))

def Item.stop (item : Item C) : ℕ := 2 ^ item.level * (item.id / 2 ^ (item.level + 1) + 1)

def Item.node (item : Item C) : NodeData C := ⟨item.level != 0, item.value⟩

/-- The items follow on each other from the leaf `s` up to `n`. -/
inductive Tiling (n : ℕ) : ℕ → List (Item C) → Prop where
  | last {item : Item C} (before : item.start < n) (upTo : n ≤ item.stop) :
      Tiling n item.start [item]
  | next {item : Item C} {rest : List (Item C)} (before : item.stop < n)
      (tiling : Tiling n item.stop rest) : Tiling n item.start (item :: rest)

variable {n s : ℕ} {items : List (Item C)}

theorem Tiling.root {holds : ℕ → ℕ → NodeData C → Prop} (combines : Combines holds)
    {chain : Chain C} (tiling : Tiling n s items) (represents : Represents holds 0 s chain)
    (holdsItems : ∀ item ∈ items, holds item.start (min item.stop n) item.node) :
    ∃ node, (insertAll chain items).root = .ok node.value ∧ holds 0 n node := by
  induction tiling generalizing chain with
  | @last item before upTo =>
    obtain ⟨upper, isUpper, inserted⟩ := represents.insert_eq item.value
    have holdsItem := holdsItems item (mem_singleton_self item)
    rw [Nat.min_eq_right upTo] at holdsItem
    refine ⟨_, ?_, isUpper.fold combines before upTo holdsItem⟩
    change (Chain.insert chain item.level item.value).root = _
    rw [inserted]
    exact root_carry _ _ _
  | @next item rest before tiling ih =>
    have holdsItem := holdsItems item mem_cons_self
    rw [Nat.min_eq_left before.le] at holdsItem
    exact ih (represents.insert combines holdsItem)
      fun other member => holdsItems other (.tail _ member)

def Item.Spans (item : Item C) (entry : ℕ) : Prop := item.start ≤ entry ∧ entry < item.stop

instance (item : Item C) (entry : ℕ) : Decidable (item.Spans entry) :=
  inferInstanceAs (Decidable (_ ∧ _))

structure Item.For (n : ℕ) (item : Item C) (node : Node) : Prop where
  id_eq : item.id = node.number
  level_eq : item.level = node.height
  inTree : InTree n node

namespace Item.For

variable {item : Item C} {node : Node}

section

variable (isFor : item.For n node)

include isFor

theorem place_eq : item.id / 2 ^ (item.level + 1) = node.place := by
  have positive := Nat.two_pow_pos node.height
  have number := node.number_eq_mul
  rw [isFor.id_eq, isFor.level_eq]
  have double : 2 ^ (node.height + 1) = 2 * 2 ^ node.height := by ring
  have whole : 2 ^ node.height * (2 * node.place + 1) =
      2 ^ (node.height + 1) * node.place + 2 ^ node.height := by ring
  rw [Nat.div_eq_iff (Nat.two_pow_pos _)]
  constructor
  · rw [mul_comm]
    omega
  · have upper : node.place * 2 ^ (node.height + 1) = 2 ^ (node.height + 1) * node.place :=
      mul_comm _ _
    omega

theorem start_eq : item.start = 2 ^ node.height * node.place := by
  rw [Item.start, isFor.place_eq, isFor.level_eq]

theorem stop_eq : item.stop = 2 ^ node.height * node.place + 2 ^ node.height := by
  rw [Item.stop, isFor.place_eq, isFor.level_eq, mul_add, mul_one]

theorem id_add_one : item.id + 1 = 2 * item.start + 2 ^ item.level := by
  have number := node.number_eq_mul
  have whole : 2 ^ node.height * (2 * node.place + 1) =
      2 * (2 ^ node.height * node.place) + 2 ^ node.height := by ring
  rw [isFor.start_eq, isFor.level_eq, isFor.id_eq]
  omega

theorem start_lt : item.start < n := by
  have := isFor.id_add_one
  have inTree := isFor.inTree
  unfold InTree at inTree
  rw [← isFor.id_eq] at inTree
  have := Nat.two_pow_pos item.level
  omega

theorem start_lt_stop : item.start < item.stop := by
  have := isFor.start_eq
  have := isFor.stop_eq
  have := Nat.two_pow_pos node.height
  omega

theorem spans_iff (entry : ℕ) : item.Spans entry ↔ LogTree.Spans node entry := by
  unfold Item.Spans LogTree.Spans
  rw [isFor.start_eq, isFor.stop_eq, Nat.div_eq_iff (Nat.two_pow_pos _), mul_comm]
  have := Nat.two_pow_pos node.height
  omega

theorem interior_eq : (item.level != 0) = decide (min item.stop n ≠ item.start + 1) := by
  have isStart := isFor.start_eq
  have isStop := isFor.stop_eq
  have inTree := isFor.inTree
  rw [isFor.level_eq]
  obtain ⟨height, place⟩ := node
  cases height with
  | zero =>
    have := isFor.start_lt
    simp only [pow_zero, one_mul] at isStart isStop
    have : min item.stop n = item.start + 1 := by omega
    simp [this]
  | succ height =>
    rw [inTree_succ] at inTree
    have positive := Nat.two_pow_pos height
    have middle : 2 ^ height * (2 * place + 1) = 2 ^ (height + 1) * place + 2 ^ height := by ring
    have double : 2 ^ (height + 1) = 2 * 2 ^ height := by ring
    dsimp only at isStart isStop
    have : min item.stop n ≠ item.start + 1 := by omega
    simp [this]

end

end Item.For

namespace Tiling

theorem le_start (tiling : Tiling n s items) (areFor : ∀ item ∈ items, ∃ node, item.For n node) :
    ∀ item ∈ items, s ≤ item.start := by
  induction tiling with
  | last =>
    intro item member
    cases mem_singleton.mp member
    exact le_rfl
  | @next item rest before _ ih =>
    obtain ⟨node, isFor⟩ := areFor item mem_cons_self
    have notEmpty := isFor.start_lt_stop
    intro other member
    rcases mem_cons.mp member with rfl | member
    · exact le_rfl
    · have := ih (fun item isItem => areFor item (.tail _ isItem)) other member
      omega

theorem eq_of_spans (tiling : Tiling n s items)
    (areFor : ∀ item ∈ items, ∃ node, item.For n node) {entry : ℕ} {item other : Item C}
    (isItem : item ∈ items) (isOther : other ∈ items) (spans : item.Spans entry)
    (otherSpans : other.Spans entry) : item = other := by
  induction tiling with
  | last =>
    rw [mem_singleton.mp isItem, mem_singleton.mp isOther]
  | @next first rest before tiling ih =>
    have restFor : ∀ item ∈ rest, ∃ node, item.For n node :=
      fun item isItem => areFor item (.tail _ isItem)
    have later := tiling.le_start restFor
    have stops := spans.2
    have otherStops := otherSpans.2
    have starts := spans.1
    have otherStarts := otherSpans.1
    rcases mem_cons.mp isItem with rfl | inRest
    · rcases mem_cons.mp isOther with rfl | otherInRest
      · rfl
      · have := later other otherInRest
        omega
    · rcases mem_cons.mp isOther with rfl | otherInRest
      · have := later item inRest
        omega
      · exact ih restFor inRest otherInRest

def Shows (n : ℕ) (target : Item C) (a b : ℕ) (node : NodeData C) : Prop :=
  node.interior = decide (b ≠ a + 1) ∧
    (a ≤ target.start → target.start < b →
      Within a b node target.start (min target.stop n) target.node)

theorem combines_shows (n : ℕ) (target : Item C) : Combines (Shows n target) := by
  intro a b left right several holdsLeft holdsRight
  refine ⟨?_, ?_⟩
  · have : b ≠ a + 1 := by omega
    simp [treeHash, this]
  · intro le lt
    by_cases isLeft : target.start < split a b
    · exact .left right several (holdsLeft.2 le isLeft)
    · exact .right left several (holdsRight.2 (by omega) lt)

theorem within (tiling : Tiling n 0 items) (areFor : ∀ item ∈ items, ∃ node, item.For n node)
    {root : C.Hash} (isRoot : (insertAll [] items).root = .ok root) {target : Item C}
    (member : target ∈ items) :
    Within 0 n ⟨decide (n ≠ 1), root⟩ target.start (min target.stop n) target.node := by
  obtain ⟨node, targetFor⟩ := areFor target member
  have inside := targetFor.start_lt
  have represents : Represents (Shows n target) 0 0 ([] : Chain C) := rfl
  obtain ⟨node, calculated, shows⟩ := tiling.root (combines_shows n target) represents (by
    intro item isItem
    obtain ⟨itemNode, itemFor⟩ := areFor item isItem
    refine ⟨itemFor.interior_eq, ?_⟩
    intro le lt
    have same : item = target := by
      refine tiling.eq_of_spans areFor isItem member ⟨le, ?_⟩ ⟨le_rfl, targetFor.start_lt_stop⟩
      exact lt.trans_le (Nat.min_le_left _ _)
    subst same
    exact .here _ _ _)
  have sameRoot : node.value = root := Except.ok.inj (calculated.symm.trans isRoot)
  have isNode : node = ⟨decide (n ≠ 1), root⟩ := by
    rw [← sameRoot]
    obtain ⟨interior, value⟩ := node
    have flag := shows.1
    rw [Nat.zero_add] at flag
    exact congrArg (NodeData.mk · value) flag
  rw [← isNode]
  exact shows.2 (Nat.zero_le _) inside

end Tiling

/-- Sorted items of which exactly one stands for each leaf follow on each other. -/
theorem tiling_of_count (before : s < n) (areFor : ∀ item ∈ items, ∃ node, item.For n node)
    (sorted : items.Pairwise fun item other => item.id ≤ other.id)
    (none : ∀ entry < s, items.countP (fun item => item.Spans entry) = 0)
    (once : ∀ entry, s ≤ entry → entry < n → items.countP (fun item => item.Spans entry) = 1) :
    Tiling n s items := by
  induction items generalizing s with
  | nil =>
    have := once s le_rfl before
    cases this
  | cons item rest ih =>
    obtain ⟨node, isFor⟩ := areFor item mem_cons_self
    have notEmpty := isFor.start_lt_stop
    have inside := isFor.start_lt
    have counts : ∀ entry, (item :: rest).countP (fun item => item.Spans entry) =
        rest.countP (fun item => item.Spans entry) + if item.Spans entry then 1 else 0 := by
      intro entry
      rw [countP_cons]
      simp only [decide_eq_true_eq]
    have s_le : s ≤ item.start := by
      by_contra early
      have := none item.start (by omega)
      rw [counts, if_pos ⟨le_rfl, notEmpty⟩] at this
      omega
    -- The first item is the one for the leaf `s`: any other starts later.
    have isFirst : item.start = s := by
      by_contra later
      have here := once s le_rfl before
      rw [counts, if_neg (fun spans => later (by have := spans.1; omega))] at here
      obtain ⟨other, member, spans⟩ := countP_pos_iff.mp
        (show 0 < rest.countP (fun item => item.Spans s) by omega)
      simp only [decide_eq_true_eq] at spans
      obtain ⟨otherNode, otherFor⟩ := areFor other (.tail _ member)
      have le := rel_of_pairwise_cons sorted member
      have otherStop := otherFor.stop_eq
      have otherStart := otherFor.start_eq
      have otherLevel := otherFor.level_eq
      have spansStart := spans.1
      have spansStop := spans.2
      have first := isFor.id_add_one
      have second := otherFor.id_add_one
      rw [otherLevel] at second
      have positive := Nat.two_pow_pos item.level
      have startEq : other.start = s := by
        by_contra earlier
        have := none other.start (by omega)
        rw [counts] at this
        have isCounted : 0 < rest.countP (fun item => item.Spans other.start) :=
          countP_pos_iff.mpr ⟨other, member, by
            simp only [decide_eq_true_eq]
            exact ⟨le_rfl, otherFor.start_lt_stop⟩⟩
        omega
      have overlap : item.start < other.stop := by omega
      have twice := once item.start s_le inside
      rw [counts, if_pos ⟨le_rfl, notEmpty⟩] at twice
      have isCounted : 0 < rest.countP (fun item' => item'.Spans item.start) :=
        countP_pos_iff.mpr ⟨other, member, by
          simp only [decide_eq_true_eq]
          exact ⟨by omega, overlap⟩⟩
      omega
    subst isFirst
    by_cases more : item.stop < n
    · refine .next more (ih more (fun other member => areFor other (.tail _ member)) sorted.tail
        ?_ ?_)
      · intro entry lt
        by_cases early : entry < item.start
        · have := none entry early
          rw [counts] at this
          omega
        · have := once entry (by omega) (by omega)
          rw [counts, if_pos ⟨by omega, lt⟩] at this
          omega
      · intro entry le lt
        have := once entry (by omega) lt
        rwa [counts, if_neg (fun spans => by have := spans.2; omega), Nat.add_zero] at this
    · -- Nothing can follow on the end of the log.
      cases rest with
      | nil => exact .last inside (by omega)
      | cons other rest =>
        obtain ⟨otherNode, otherFor⟩ := areFor other (.tail _ mem_cons_self)
        have otherInside := otherFor.start_lt
        have isCounted : 0 < (other :: rest).countP (fun item => item.Spans other.start) :=
          countP_pos_iff.mpr ⟨other, mem_cons_self, by
            simp only [decide_eq_true_eq]
            exact ⟨le_rfl, otherFor.start_lt_stop⟩⟩
        by_cases early : other.start < item.start
        · have := none other.start early
          rw [counts] at this
          omega
        · have := once other.start (by omega) otherInside
          rw [counts, if_pos ⟨by omega, by omega⟩] at this
          omega

/-- The items are nodes of the tree, of which exactly one stands for each leaf. -/
structure Tiles (n : ℕ) (items : List (Item C)) : Prop where
  areFor : ∀ item ∈ items, ∃ node, item.For n node
  sorted : items.Pairwise fun item other => item.id ≤ other.id
  once : ∀ entry < n, items.countP (fun item => item.Spans entry) = 1

namespace Tiles

theorem tiling (tiles : Tiles n items) (positive : 0 < n) : Tiling n 0 items :=
  tiling_of_count positive tiles.areFor tiles.sorted (fun _ lt => absurd lt (Nat.not_lt_zero _))
    fun entry _ lt => tiles.once entry lt

theorem within (tiles : Tiles n items) (positive : 0 < n) {root : C.Hash}
    (isRoot : (insertAll [] items).root = .ok root) {target : Item C} (member : target ∈ items) :
    Within 0 n ⟨decide (n ≠ 1), root⟩ target.start (min target.stop n) target.node :=
  (tiles.tiling positive).within tiles.areFor isRoot member

end Tiles

theorem merge_sorted {entries others : List (Item C)}
    (entriesSorted : entries.Pairwise fun item other => item.id ≤ other.id)
    (othersSorted : others.Pairwise fun item other => item.id ≤ other.id) :
    (entries.merge others fun entry other => entry.id < other.id).Pairwise
      fun item other => item.id ≤ other.id := by
  induction entries generalizing others with
  | nil => rwa [nil_merge]
  | cons entry entries ih =>
    induction others with
    | nil => rwa [merge_right]
    | cons other others othersIh =>
      obtain ⟨entryLe, entriesTail⟩ := pairwise_cons.mp entriesSorted
      obtain ⟨otherLe, othersTail⟩ := pairwise_cons.mp othersSorted
      by_cases less : entry.id < other.id
      · rw [cons_merge_cons_pos _ _ _ (decide_eq_true less)]
        refine pairwise_cons.mpr ⟨?_, ih entriesTail othersSorted⟩
        intro item member
        rcases mem_merge.mp member with isEntry | isOther
        · exact entryLe item isEntry
        · rcases mem_cons.mp isOther with rfl | isOther
          · exact less.le
          · exact less.le.trans (otherLe item isOther)
      · rw [cons_merge_cons_neg _ _ _ (by simpa using less)]
        refine pairwise_cons.mpr ⟨?_, othersIh othersTail⟩
        intro item member
        have le : other.id ≤ entry.id := by omega
        rcases mem_merge.mp member with isEntry | isOther
        · rcases mem_cons.mp isEntry with rfl | isEntry
          · exact le
          · exact le.trans (entryLe item isEntry)
        · exact otherLe item isOther

def Item.ofEntry (x : ℕ) (value : C.Hash) : Item C := ⟨2 * x, 0, value⟩

def Item.ofNode (id : ℕ) (value : C.Hash) : Item C := ⟨id, KeyTransparency.level id, value⟩

section batch

variable {entries ids : List ℕ} {nodes : List Node} {values proof : List C.Hash}
  {make : ℕ → C.Hash → Item C}

theorem ofEntry_for {x : ℕ} (inside : x < n) (value : C.Hash) :
    (Item.ofEntry x value).For n ⟨0, x⟩ :=
  ⟨(number_leaf x).symm, rfl, inTree_zero.mpr inside⟩

theorem ofNode_for (fits : n ≤ 2 ^ 63) {node : Node} (inTree : InTree n node)
    (value : C.Hash) : (Item.ofNode node.number value).For n node :=
  ⟨rfl, level_inTree fits inTree, inTree⟩

theorem countP_ofEntry (sameLength : entries.length = values.length)
    (inside : ∀ x ∈ entries, x < n) (entry : ℕ) :
    (zipWith Item.ofEntry entries values).countP (fun item => item.Spans entry) =
      entries.count entry := by
  induction entries generalizing values with
  | nil => simp
  | cons x rest ih =>
    obtain ⟨value, others, rfl⟩ := exists_cons_of_length_eq_add_one sameLength.symm
    have spans : (Item.ofEntry x value).Spans entry ↔ x = entry := by
      rw [(ofEntry_for (inside x mem_cons_self) value).spans_iff]
      simp [LogTree.Spans, eq_comm]
    rw [zipWith_cons_cons, countP_cons, count_cons,
      ih (by simpa using sameLength) fun other member => inside other (.tail _ member)]
    simp [spans]

theorem countP_ofNode (fits : n ≤ 2 ^ 63) (sameLength : nodes.length = values.length)
    (inTree : ∀ node ∈ nodes, InTree n node) (entry : ℕ) :
    (zipWith Item.ofNode (nodes.map Node.number) values).countP
        (fun item => item.Spans entry) = spanned nodes entry := by
  induction nodes generalizing values with
  | nil => rfl
  | cons node rest ih =>
    obtain ⟨value, others, rfl⟩ := exists_cons_of_length_eq_add_one sameLength.symm
    have spans := (ofNode_for fits (inTree node mem_cons_self) value).spans_iff entry
    unfold spanned at ih ⊢
    rw [map_cons, zipWith_cons_cons, countP_cons, countP_cons,
      ih (by simpa using sameLength) fun other member => inTree other (.tail _ member)]
    simp [spans]

theorem zipWith_sorted (weight : ℕ → ℕ) (isWeight : ∀ id value, (make id value).id = weight id)
    (sorted : ids.Pairwise fun id other => weight id ≤ weight other) :
    (zipWith make ids values).Pairwise fun item other => item.id ≤ other.id := by
  induction ids generalizing values with
  | nil => simp
  | cons id rest ih =>
    obtain ⟨le, tail⟩ := pairwise_cons.mp sorted
    cases values with
    | nil => simp
    | cons value values =>
      rw [zipWith_cons_cons]
      refine pairwise_cons.mpr ⟨?_, ih tail⟩
      intro item member
      obtain ⟨index, bound, rfl⟩ := getElem_of_mem member
      rw [getElem_zipWith, isWeight, isWeight]
      exact le _ (getElem_mem _)

theorem mem_zipWith {item : Item C} :
    item ∈ zipWith make ids values ↔ ∃ pair ∈ ids.zip values, make pair.1 pair.2 = item := by
  rw [← map_uncurry_zip_eq_zipWith, mem_map]
  rfl

theorem batch_tiles (fits : n ≤ 2 ^ 63) (sameLength : entries.length = values.length)
    (sorted : entries.Pairwise (· < ·)) (inside : ∀ x ∈ entries, x < n)
    (proofLength : nodes.length = proof.length)
    (inTree : ∀ node ∈ nodes, InTree n node)
    (nodesSorted : nodes.Pairwise fun node other => node.number ≤ other.number)
    (once : ∀ entry < n, entries.count entry + spanned nodes entry = 1) :
    Tiles n ((zipWith Item.ofEntry entries values).merge
      (zipWith Item.ofNode (nodes.map Node.number) proof)
      fun entry other => entry.id < other.id) where
  areFor := by
    intro item member
    rcases mem_merge.mp member with isEntry | isNode
    · obtain ⟨pair, isPair, rfl⟩ := mem_zipWith.mp isEntry
      exact ⟨_, ofEntry_for (inside _ (of_mem_zip isPair).1) _⟩
    · obtain ⟨pair, isPair, rfl⟩ := mem_zipWith.mp isNode
      obtain ⟨node, isNode, same⟩ := mem_map.mp (of_mem_zip isPair).1
      rw [← same]
      exact ⟨node, ofNode_for fits (inTree node isNode) _⟩
  sorted := by
    apply merge_sorted
    · apply zipWith_sorted (fun x => 2 * x) fun _ _ => rfl
      exact sorted.imp fun lt => by omega
    · apply zipWith_sorted id fun _ _ => rfl
      rw [pairwise_map]
      exact nodesSorted
  once := by
    intro entry lt
    rw [(merge_perm_append _).countP_eq, countP_append, countP_ofEntry sameLength inside,
      countP_ofNode fits proofLength inTree]
    exact once entry lt

theorem evaluateBatchProof_within {root : C.Hash}
    (evaluated : evaluateBatchProof entries n values proof = .ok root) :
    0 < n ∧ ∀ pair ∈ entries.zip values,
      Within 0 n ⟨decide (n ≠ 1), root⟩ pair.1 (pair.1 + 1) ⟨false, pair.2⟩ := by
  have returns := returns_of_eq_ok evaluated
  obtain ⟨_, sameLength, evaluated⟩ := bind_eq_ok.mp evaluated
  obtain ⟨_, isChain, evaluated⟩ := bind_eq_ok.mp evaluated
  obtain ⟨last, isLast, evaluated⟩ := bind_eq_ok.mp evaluated
  obtain ⟨_, lastInside, evaluated⟩ := bind_eq_ok.mp evaluated
  have sameLength := ensure_eq_ok.mp sameLength
  have isLast := okOr_eq_ok.mp isLast
  have lastInside := ensure_eq_ok.mp lastInside
  obtain ⟨sorted, inside⟩ := isChain_lt_last (ensure_eq_ok.mp isChain) isLast lastInside
  have notEmpty : entries ≠ [] := by
    rintro rfl
    cases isLast
  have fits : n ≤ 2 ^ 63 := by
    by_contra large
    exact evaluateBatchProof_not_returns (Nat.lt_of_not_le large) sameLength sorted notEmpty inside
      returns
  obtain ⟨nodes, isCopath, siblings, nodesSorted, once⟩ :=
    @batchCopath_spec LogError n entries fits notEmpty sorted inside
  have inTree := fun node isNode => (siblings node isNode).inTree
  rw [isCopath] at evaluated
  obtain ⟨_, ⟨⟩, evaluated⟩ := bind_eq_ok.mp evaluated
  obtain ⟨_, proofLength, evaluated⟩ := bind_eq_ok.mp evaluated
  have proofLength := ensure_eq_ok.mp proofLength
  rw [length_map] at proofLength
  have tiles := batch_tiles fits sameLength sorted inside proofLength.symm inTree nodesSorted once
  have positive : 0 < n := by omega
  refine ⟨positive, fun pair isPair => ?_⟩
  have pairInside := inside pair.1 (of_mem_zip isPair).1
  have within := tiles.within positive evaluated
    (mem_merge.mpr (.inl (mem_zipWith.mpr ⟨pair, isPair, rfl⟩)))
  have isFor := ofEntry_for pairInside pair.2
  rw [isFor.start_eq, isFor.stop_eq] at within
  simp only [pow_zero, one_mul] at within
  rw [Nat.min_eq_left (by omega)] at within
  exact within

end batch

end LegacySignal.KeyTransparency
