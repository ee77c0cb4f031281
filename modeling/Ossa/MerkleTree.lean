import Mathlib.Data.Nat.Log
import Ossa.Hash
import Ossa.Loop

/-!
The merkle tree of `util/merkle_tree.rs`.

The nodes are kept in one vector, in breadth-first order with the root at index 0. Counts and
indices are natural numbers: the vector of nodes is held in memory, so twice its length stays
far below the bound of a `u64`.
-/

namespace Ossa.Util

open Ossa.Loop

/-- Binary merkle tree: the flattened BFS representation. -/
structure MerkleTree (N : Type) where
  nodes : List N
  deriving DecidableEq

inductive Potential (T : Type)
  | none
  | unverified (value : T)
  | verified (value : T)
  deriving DecidableEq

def nodeCountForLeafCount (leafCount : ℕ) : Exec ℕ :=
  if leafCount = 0 then .error .overflow else .ok (2 * leafCount - 1)

-- No tree is without leaves, so the subtraction does not overflow.
def isLeaf (leafCount index : ℕ) : Bool := decide (leafCount - 1 ≤ index)

/-- `leaf_count.next_power_of_two().ilog2()`: the layer that holds the deepest leaves. -/
def bottomLayer (leafCount : ℕ) : ℕ := Nat.clog 2 leafCount

namespace Potential

variable {T : Type}

def isNone : Potential T → Bool
  | .none => true
  | _ => false

/-- The value of a verified node. -/
def verified? : Potential T → Option T
  | .verified value => some value
  | _ => Option.none

end Potential

namespace MerkleTree

section Complete

variable {H : Type} [Hash H]

/-- The value of one node in `from_leaves`, with the leaves that are left. -/
def nextNode (leafCount i : ℕ) (nodes : List (Option H)) (leaves : List H) : Exec (H × List H) :=
  if isLeaf leafCount i then
    match leaves with
    | [] => .error .unwrap
    | leaf :: leaves => .ok (leaf, leaves)
  else do
    let left ← index nodes (2 * i + 1) >>= orFault .unwrap
    let right ← index nodes (2 * i + 2) >>= orFault .unwrap
    pure (hashPair left right, leaves)

def fillNode (leafCount : ℕ) (w : List (Option H) × List H) (i : ℕ) :
    Exec (List (Option H) × List H) := do
  let next ← nextNode leafCount i w.1 w.2
  let nodes ← assign w.1 i (some next.1)
  pure (nodes, next.2)

def fillLayer (leafCount capacity : ℕ) (w : List (Option H) × List H) (layer : ℕ) :
    Exec (List (Option H) × List H) :=
  let start := 2 ^ layer - 1
  let stop := min (2 ^ (layer + 1) - 1) capacity
  (List.range' start (stop - start)).foldlM (fillNode leafCount) w

/-- Build the tree from the bottom up. -/
def fromLeaves (leaves : List H) : Exec (MerkleTree H) :=
  if leaves.isEmpty then .error (.panic "Precondition violated: Leaves must be non-empty.")
  else do
    let leafCount := leaves.length
    let capacity ← nodeCountForLeafCount leafCount
    let w ← (List.range (bottomLayer leafCount + 1)).reverse.foldlM (fillLayer leafCount capacity)
      (List.replicate capacity none, leaves)
    let nodes ← orFault (.unreachable "Failed to initialize MerkleTree") (w.1.mapM id)
    pure ⟨nodes⟩

def fromChunks (chunks : List (List UInt8)) : Exec (MerkleTree H) :=
  let leaves := chunks.map digest
  if leaves.isEmpty then fromLeaves [digest []] else fromLeaves leaves

end Complete

variable {N : Type}

def merkleRoot (t : MerkleTree N) : Exec N := index t.nodes 0

/-- Gets the node at the given index. -/
def get (t : MerkleTree N) (index : ℕ) : Option N := t.nodes[index]?

def leafCount (t : MerkleTree N) : ℕ := (t.nodes.length + 1) / 2

def indexForLeaf (t : MerkleTree N) (leafIndex : ℕ) : Exec ℕ :=
  if leafIndex < t.leafCount then
    let start := 2 ^ bottomLayer t.leafCount - 1
    let index := start + leafIndex
    .ok (if t.nodes.length ≤ index then index - t.leafCount else index)
  else .error .assertion

def newWithCapacity (merkleRoot : N) (leafCount : ℕ) : Exec (MerkleTree (Potential N)) := do
  let capacity ← nodeCountForLeafCount leafCount
  let nodes ← assign (List.replicate capacity .none) 0 (.verified merkleRoot)
  pure ⟨nodes⟩

def missingIndices (t : MerkleTree (Potential N)) : List ℕ :=
  t.nodes.zipIdx.filterMap fun h => if h.1.isNone then some h.2 else none

/-- Tries to complete the merkle tree by checking if all nodes have been verified. -/
def tryComplete (t : MerkleTree (Potential N)) : Option (MerkleTree N) :=
  (t.nodes.mapM Potential.verified?).map .mk

section Partial

variable {H : Type} [Hash H] [DecidableEq H]

def validateChunk (t : MerkleTree H) (leafIndex : ℕ) (chunk : List UInt8) : Exec Bool := do
  let i ← t.indexForLeaf leafIndex
  let expectedHash ← index t.nodes i
  pure (decide (expectedHash = digest chunk))

/-- Replace both children of a node. -/
def setChildren (t : MerkleTree (Potential H)) (index : ℕ) (left right : Potential H) :
    MerkleTree (Potential H) :=
  ⟨(t.nodes.set (2 * index + 1) left).set (2 * index + 2) right⟩

/-- Precondition: Child nodes must not be verified. The fuel bounds the depth of the recursion,
which ends at a leaf. -/
def validateChildren (t : MerkleTree (Potential H)) (i : ℕ) : (fuel : ℕ) →
    Exec (MerkleTree (Potential H) × Option Bool)
  | 0 => .error .outOfFuel
  | fuel + 1 =>
    if isLeaf t.leafCount i then .ok (t, none)
    else do
      match ← index t.nodes i with
      | .verified expectedHash =>
        let left ← index t.nodes (2 * i + 1)
        let right ← index t.nodes (2 * i + 2)
        match left, right with
        | .none, _ => pure (t, none)
        | _, .none => pure (t, none)
        | .unverified left, .unverified right =>
          if expectedHash = hashPair left right then
            let t := t.setChildren i (.verified left) (.verified right)
            -- Recursively check children if valid.
            let (t, _) ← t.validateChildren (2 * i + 1) fuel
            let (t, _) ← t.validateChildren (2 * i + 2) fuel
            pure (t, some true)
          else pure (t.setChildren i .none .none, some false)
        | _, _ => .error (.unreachable ("Invariant: Sibling nodes must both be verified. " ++
            "Precondition: Child nodes must not be verified."))
      | _ => pure (t, none)

/-- Sets the potential value for the node in the merkle tree. Returns false if the proposed
value is invalid. -/
def set (t : MerkleTree (Potential H)) (index : ℕ) (potentialValue : H) :
    Exec (MerkleTree (Potential H) × Bool) :=
  match t.nodes[index]? with
  | none => .ok (t, false)
  -- Keep the old value, but don't penalize them either way.
  | some (.unverified _) => .ok (t, true)
  | some (.verified prev) => .ok (t, decide (prev = potentialValue))
  | some .none =>
    if index = 0 then
      .error (.unreachable "We always initialize the root so we will have already returned.")
    else do
      let t : MerkleTree (Potential H) := ⟨t.nodes.set index (.unverified potentialValue)⟩
      let (t, valid) ← t.validateChildren ((index - 1) / 2) t.nodes.length
      pure (t, valid.getD true)

end Partial

end MerkleTree

end Ossa.Util
