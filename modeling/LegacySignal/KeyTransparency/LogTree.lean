import LegacySignal.KeyTransparency.Config
import LegacySignal.KeyTransparency.ImplicitTree

/-!
# The log tree

`log.rs`: a tree of hashes over the entries of the log, in which every inner
node has two children. The nodes are numbered as those of the implicit tree,
with the entries at the leaves. A batch proof gives the root from some entries
and the nodes on their copath, and a consistency proof compares the roots of
two logs, of which the one continues the other.

Arithmetic that does not fit into a `u64` is a panic here, as in a build with
overflow checks. A build without them wraps instead, which makes a difference
only for more than `2 ^ 63` entries or for a walk that leaves its tree.
-/

namespace LegacySignal.KeyTransparency

open FlatTree Run

variable {Failure : Type}

def u64 (value : ℕ) : Run Failure ℕ :=
  if value < 2 ^ 64 then pure value else panicked "attempt to compute with overflow"

namespace LogTree

def nodeWidth (n : ℕ) : Run Failure ℕ :=
  match n with
  | 0 => pure 0
  | n + 1 => u64 (2 * n + 1)

def root (n : ℕ) : Run Failure ℕ := do
  let width ← nodeWidth n
  pure (1 <<< log2 width - 1)

def left (x : ℕ) : Run Failure ℕ := leftStep x

def descend (width : ℕ) : ℕ → ℕ → Run Failure ℕ
  | 0, _ => .error .endless
  | rounds + 1, r => if width ≤ r then do descend width rounds (← left r) else pure r

def right (x n : ℕ) : Run Failure ℕ := do
  let r ← rightStep x
  let width ← nodeWidth n
  descend width rounds r

def parent (x n : ℕ) : Run Failure ℕ := do
  if x = (← root n) then panicked "root node has no parent"
  else
    let width ← nodeWidth n
    climb width rounds (← parentStep x)

def sibling (x n : ℕ) : Run Failure ℕ := do
  let p ← parent x n
  if x < p then right p n else left p

def isFullSubtree (x n : ℕ) : Run Failure Bool :=
  match n with
  | 0 => panicked "attempt to subtract with overflow"
  | n + 1 => do
      let rightmost ← u64 (2 * n)
      let expected ← u64 (x + 1 <<< level x)
      pure (expected - 1 ≤ rightmost)

/-- The list of full subtrees that `x` consists of, of at most so many levels. -/
def fullSubtrees (n : ℕ) : ℕ → ℕ → Run Failure (List ℕ)
  | 0, _ => .error .endless
  | rounds + 1, x => do
      if ← isFullSubtree x n then pure [x]
      else
        let next ← right x n
        let first ← left x
        pure (first :: (← fullSubtrees n rounds next))

/-- The recursion of `consistency_proof`, with a bound on its depth. -/
def subProof : ℕ → ℕ → ℕ → Bool → Run Failure (List ℕ)
  | 0, _, _, _ => .error .endless
  | rounds + 1, m, n, b =>
    if m = n then
      if b then pure []
      else do pure [← root m]
    else do
      let k := 1 <<< log2 n
      let k := if k = n then k / 2 else k
      if m ≤ k then
        let output ← subProof rounds m k b
        pure (output ++ [← right (← root n) n])
      else
        let first ← left (← root n)
        let output ← subProof rounds (m - k) (n - k) false
        pure (first :: (← output.mapM fun x => u64 (x + 2 * k)))

/-- The node ids of a consistency proof between `m` and `n`, as in RFC 6962. In every call `n` is
smaller. -/
def consistencyProof (m n : ℕ) : Run Failure (List ℕ) := subProof (n + 1) m n true

/-- One round of `batch_copath`: the nodes of the next level, and the nodes that are needed. -/
def copathLevel (n : ℕ) : List ℕ → List ℕ → List ℕ → Run Failure (List ℕ × List ℕ)
  | [], nextLevel, out => pure (nextLevel, out)
  | [x], nextLevel, out => do
      let isLater ← match nextLevel with
        | [] => pure false
        | first :: _ => do pure (decide (level first < level (← parent x n)))
      if isLater then pure (nextLevel ++ [x], out)
      else
        let other ← sibling x n
        pure (nextLevel ++ [← parent x n], out ++ [other])
  | x :: y :: nodes, nextLevel, out => do
      let p ← parent x n
      if (← right p n) = y then copathLevel n nodes (nextLevel ++ [p]) out
      else
        let other ← sibling x n
        copathLevel n (y :: nodes) (nextLevel ++ [p]) (out ++ [other])

def copathLoop (n top : ℕ) : ℕ → List ℕ → List ℕ → Run Failure (List ℕ)
  | 0, _, _ => .error .endless
  | rounds + 1, nodes, out =>
    if nodes = [top] then pure out
    else do
      let (nodes, out) ← copathLevel n nodes [] out
      copathLoop n top rounds nodes out

def batchCopath (leaves : List ℕ) (n : ℕ) : Run Failure (List ℕ) := do
  let nodes ← leaves.mapM fun x => u64 (2 * x)
  let out ← copathLoop n (← root n) rounds (nodes.insertionSort (· ≤ ·)) []
  pure (out.insertionSort (· ≤ ·))

end LogTree

inductive LogError where
  | emptyChain
  | malformedChain
  | invalidInput (message : String)
  | malformedProof
  | proofMismatch (message : String)
  | unexpected (message : String)

def LogError.toError : LogError → Error
  | emptyChain => .verificationFailed "Empty chain"
  | malformedChain => .verificationFailed "Malformed chain"
  | invalidInput message => .verificationFailed ("Invalid input: " ++ message)
  | malformedProof => .verificationFailed "Malformed proof"
  | proofMismatch message => .verificationFailed ("Proof mismatch: " ++ message)
  | unexpected message => .verificationFailed ("Unexpected error: " ++ message)

variable {C : Crypto}

structure NodeData (C : Crypto) where
  interior : Bool
  value : C.Hash

def NodeData.marshal (node : NodeData C) : List (Symbol C.Hash) :=
  [.byte (if node.interior then 1 else 0), .hash node.value]

def treeHash (left right : NodeData C) : NodeData C where
  interior := true
  value := C.sha256 (left.marshal ++ right.marshal)

/-- `SimpleRootCalculator`: at most one pending node for each level. -/
abbrev Chain (C : Crypto) := List (Option (NodeData C))

namespace Chain

/-- The loop of `insert`: as long as a level is taken, both nodes go to the next level as one. -/
def carry : Chain C → NodeData C → Chain C
  | [], acc => [some acc]
  | none :: rest, acc => some acc :: rest
  | some node :: rest, acc => none :: carry rest (treeHash node acc)

def insert (chain : Chain C) (level : ℕ) (value : C.Hash) : Chain C :=
  let padded := chain ++ List.replicate (level + 1 - chain.length) none
  padded.take level ++ carry (padded.drop level) ⟨level != 0, value⟩

def fold (acc : NodeData C) (rest : Chain C) : NodeData C :=
  rest.foldl (fun acc node => node.elim acc (treeHash · acc)) acc

def root (chain : Chain C) : Run LogError C.Hash :=
  match chain with
  | [] => fail .emptyChain
  | _ =>
    match chain.dropWhile Option.isNone with
    | some first :: rest => pure (fold first rest).value
    | _ => fail .malformedChain

end Chain

/-- An entry or a node of the proof: its id, its level and its hash. -/
structure Item (C : Crypto) where
  id : ℕ
  level : ℕ
  value : C.Hash

def insertAll (chain : Chain C) (items : List (Item C)) : Chain C :=
  items.foldl (fun chain item => chain.insert item.level item.value) chain

def evaluateBatchProof (x : List ℕ) (n : ℕ) (values proof : List C.Hash) :
    Run LogError C.Hash := do
  ensure (x.length = values.length) (.invalidInput "expected same number of indices and values")
  ensure (x.IsChain (· < ·)) (.invalidInput "input entries must be in sorted order")
  let last ← okOr x.getLast?
    (.invalidInput "can not evaluate empty batch inclusion proof")
  ensure (last < n) (.invalidInput "leaf ids can not be larger than tree size")
  let copath ← LogTree.batchCopath x n
  ensure (proof.length = copath.length) .malformedProof
  let entries : List (Item C) := List.zipWith (fun x value => ⟨2 * x, 0, value⟩) x values
  let others : List (Item C) := List.zipWith (fun id value => ⟨id, level id, value⟩) copath proof
  (insertAll [] (entries.merge others fun entry other => entry.id < other.id)).root

def verifyConsistencyProof (m n : ℕ) (proof : List C.Hash) (mRoot nRoot : C.Hash) :
    Run LogError Unit := do
  ensure (m ≠ 0 ∧ m < n) (.invalidInput "m must be within [0, n)")
  let ids ← LogTree.consistencyProof m n
  ensure (proof.length = ids.length) .malformedProof
  let nodes : List (Item C) := List.zipWith (fun id value => ⟨id, level id, value⟩) ids proof
  let top ← LogTree.root m
  let path ← LogTree.fullSubtrees m rounds top
  if path.length = 1 then
    -- Then `m` is a power of two, and there is nothing to verify.
    secondRoot (Chain.insert [] (level top) mRoot) nodes
  else
    let chain ← checkPath path nodes []
    if mRoot = (← chain.root) then secondRoot chain (nodes.drop path.length)
    else fail (.proofMismatch "first root does not match proof")
where
  /-- The loop over the full subtrees of the first tree. -/
  checkPath : List ℕ → List (Item C) → Chain C → Run LogError (Chain C)
    | [], _, chain => pure chain
    | _ :: _, [], _ => panicked "index out of bounds"
    | elem :: path, node :: nodes, chain =>
      if node.id = elem then checkPath path nodes (chain.insert node.level node.value)
      else fail (.unexpected "id does not match path")
  secondRoot (chain : Chain C) (rest : List (Item C)) : Run LogError Unit := do
    if nRoot = (← (insertAll chain rest).root) then pure ()
    else fail (.proofMismatch "second root does not match proof")

end LegacySignal.KeyTransparency
