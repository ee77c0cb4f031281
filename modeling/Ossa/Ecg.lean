import Ossa.Collections
import Ossa.Dag
import Ossa.Loop

/-!
The eventual consistency graph: the headers a replica has accepted, as `store/ecg.rs` keeps
them.

Four structures are kept in step: the graph itself, the headers without parents, the headers
no header lists as a parent, and the information on each header. `State` of the source only
adds a phantom type to `UntypedState`, so its operations are given on `UntypedState`.
-/

namespace Ossa.Ecg

open Ossa.Loop Ossa.Collections Ossa.Dag

/-- What a header must offer. -/
class ECGHeader (Header : Type) (HeaderId : outParam Type) where
  getParentIds : Header → List HeaderId
  getHeaderId : Header → HeaderId
  validateHeader : Header → HeaderId → Bool

export ECGHeader (getParentIds getHeaderId validateHeader)

abbrev RawECGBody := List UInt8

structure NodeInfo (Header : Type) where
  graphIndex : ℕ
  depth : ℕ
  header : Header
  operations : RawECGBody

structure UntypedState (HeaderId Header : Type) [LinearOrder HeaderId] where
  dependencyGraph : StableDag HeaderId
  rootNodes : BTreeSet HeaderId
  nodeInfoMap : BTreeMap HeaderId (NodeInfo Header)
  tips : BTreeSet HeaderId

variable {HeaderId Header : Type} [LinearOrder HeaderId]

namespace UntypedState

def new : UntypedState HeaderId Header where
  dependencyGraph := .new
  rootNodes := ∅
  nodeInfoMap := ∅
  tips := ∅

variable (s : UntypedState HeaderId Header)

def contains (h : HeaderId) : Bool := s.nodeInfoMap.contains h

def getNode (h : HeaderId) : Option (NodeInfo Header) := s.nodeInfoMap[h]?

def getHeader (h : HeaderId) : Option Header := (s.getNode h).map NodeInfo.header

def getHeaderDepth (h : HeaderId) : Option ℕ := (s.getNode h).map NodeInfo.depth

def isRootNode (h : HeaderId) : Bool := s.rootNodes.contains h

/-- The header behind a node of the graph, with its depth. -/
def withDepth (i : ℕ) : Option (ℕ × HeaderId) := do
  let h ← s.dependencyGraph.nodeWeight i
  let depth ← s.getHeaderDepth h
  pure (depth, h)

def getParents (h : HeaderId) : Option (List HeaderId) := do
  let info ← s.getNode h
  (s.dependencyGraph.parents info.graphIndex).mapM s.dependencyGraph.nodeWeight

def getParentsWithDepth (h : HeaderId) : Option (List (ℕ × HeaderId)) := do
  let info ← s.getNode h
  (s.dependencyGraph.parents info.graphIndex).mapM s.withDepth

def getChildrenWithDepth (h : HeaderId) : Option (List (ℕ × HeaderId)) := do
  let info ← s.getNode h
  (s.dependencyGraph.children info.graphIndex).mapM s.withDepth

/-- All root nodes have depth 1. -/
def getRootNodesWithDepth : List (ℕ × HeaderId) := s.rootNodes.toList.map fun h => (1, h)

/-- The least depth of the parents. The source starts its minimum at `u64::MAX`, which no
stored depth exceeds. -/
def minDepth (infos : List (NodeInfo Header)) : ℕ := (infos.map NodeInfo.depth).min?.getD 0

variable [ECGHeader Header HeaderId]

/-- The part of `insert_header` that looks the parents up and updates the roots and tips.
It answers the graph indices of the parents and the depth of the new header. -/
def linkParents (headerId : HeaderId) (parents : List HeaderId) :
    UntypedState HeaderId Header × Option (List ℕ × ℕ) :=
  if parents.isEmpty then
    if s.rootNodes.contains headerId then (s, none)
    else ({ s with rootNodes := s.rootNodes.insert headerId, tips := s.tips.insert headerId },
      some ([], 1))
  else
    match parents.mapM s.getNode with
    | some infos =>
      ({ s with tips := (parents.foldl Std.ExtTreeSet.erase s.tips).insert headerId },
        some (infos.map NodeInfo.graphIndex, minDepth infos + 1))
    -- They sent us a header when we don't know the parent.
    | none => (s, none)

/-- The part of `insert_header` that adds the node and its edges. -/
def insertNode (headerId : HeaderId) (header : Header) (operations : RawECGBody)
    (parentIdxs : List ℕ) (depth : ℕ) : UntypedState HeaderId Header × Bool :=
  let (graph, graphIndex) := s.dependencyGraph.addNode headerId
  let s := { s with dependencyGraph := graph }
  if s.nodeInfoMap.contains headerId then (s, false)
  else
    let info : NodeInfo Header := ⟨graphIndex, depth, header, operations⟩
    let s := { s with nodeInfoMap := s.nodeInfoMap.insert headerId info }
    match s.dependencyGraph.addEdges (parentIdxs.map fun i => (i, graphIndex)) with
    | none => (s, false)
    | some graph => ({ s with dependencyGraph := graph }, true)

def insertHeader (header : Header) (operations : RawECGBody) :
    UntypedState HeaderId Header × Bool :=
  let headerId := getHeaderId header
  if !validateHeader header headerId then (s, false)
  else if s.contains headerId then (s, false)
  else
    match s.linkParents headerId (getParentIds header) with
    | (s, none) => (s, false)
    | (s, some (parentIdxs, depth)) => s.insertNode headerId header operations parentIdxs depth

/-! ### Ancestors -/

/-- Queue a node that was not visited yet. -/
def visit (w : List ℕ × BTreeSet ℕ) (pid : ℕ) : List ℕ × BTreeSet ℕ :=
  if w.2.contains pid then w else (w.1 ++ [pid], w.2.insert pid)

/-- One iteration of the search of `is_ancestor_of`, on its queue and the nodes it visited. -/
def ancestorBody (anid : ℕ) : List ℕ × BTreeSet ℕ → Exec (Flow (List ℕ × BTreeSet ℕ) Bool)
  | ([], _) => .ok (.done false)
  | (nid :: queue, visited) =>
    if nid = anid then .ok (.done true)
    else .ok (.next ((s.dependencyGraph.parents nid).foldl visit (queue, visited)))

/-- Breadth-first search for `ancestor` from `descendent`; `none` if either is not in the
graph. No node is queued twice, so the number of nodes bounds the number of iterations. -/
def isAncestorOf (ancestor descendent : HeaderId) : Exec (Option Bool) :=
  match s.getNode ancestor, s.getNode descendent with
  | some a, some d => do
    let found ← loop (s.ancestorBody a.graphIndex) (s.dependencyGraph.nodes.length + 1)
      ([d.graphIndex], (∅ : BTreeSet ℕ).insert d.graphIndex)
    pure (some found)
  | _, _ => pure none

end UntypedState

/-! ### The headers of `store/ecg/v0.rs` -/

namespace V0

/-- For testing, just have the header store the parent ids. -/
structure TestHeader where
  headerId : ℕ
  parentIds : List ℕ
  deriving DecidableEq

instance : ECGHeader TestHeader ℕ where
  getParentIds := TestHeader.parentIds
  getHeaderId := TestHeader.headerId
  validateHeader _ _ := true

end V0

end Ossa.Ecg
