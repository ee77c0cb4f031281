import Mathlib.Data.List.InsertIdx
import Mathlib.Data.List.Nodup
import Ossa.Crdt

/-!
The causal tree of `ossa-crdt/text/causal_tree.rs`.

An operation hangs a new atom under the atom it names. The children of an atom are kept in order,
and the place of a new child is found by a binary search.
-/

namespace Ossa.Crdt

open Ossa.Loop

/-- `im::Vector::binary_search_by`, as a function of what the comparator answers at each entry: on
a sorted vector it finds an equal entry, or the index at which a new one keeps the order. -/
class BinarySearch where
  binarySearchBy : List Ordering → Except ℕ ℕ
  absent : ∀ m n, binarySearchBy (.replicate m .lt ++ .replicate n .gt) = .error m
  found : ∀ m k n, 0 < k → ∃ i, m ≤ i ∧ i < m + k ∧
    binarySearchBy (.replicate m .lt ++ .replicate k .eq ++ .replicate n .gt) = .ok i

export BinarySearch (binarySearchBy)

inductive Letter (A : Type)
  | letter (a : A)
  | delete
  /-- Root node. Should only be used as the initial node on creation. -/
  | root
  deriving DecidableEq

structure Atom (T A : Type) where
  id : T
  letter : Letter A
  deriving DecidableEq

inductive CausalTree (T A : Type)
  | node (atom : Atom T A) (children : List (CausalTree T A))

def CausalTree.atom {T A : Type} : CausalTree T A → Atom T A
  | node atom _ => atom

def CausalTree.children {T A : Type} : CausalTree T A → List (CausalTree T A)
  | node _ children => children

lemma CausalTree.ext {T A : Type} {t t' : CausalTree T A} (ha : t.atom = t'.atom)
    (hc : t.children = t'.children) : t = t' := by
  cases t
  cases t'
  exact congrArg₂ CausalTree.node ha hc

structure CausalTreeOp (T A : Type) where
  parentId : T
  atom : Atom T A
  deriving DecidableEq

variable {T A : Type} [LinearOrder T]

def compareAtom (st : CausalState T) : Atom T A → Atom T A → Exec Ordering
  | ⟨id1, .root⟩, ⟨id2, .root⟩ => compareWithTiebreak st id1 id2
  | ⟨_, _⟩, ⟨_, .root⟩ => .ok .lt
  | ⟨_, .root⟩, ⟨_, _⟩ => .ok .gt
  | ⟨id1, .delete⟩, ⟨id2, .delete⟩ => compareWithTiebreak st id1 id2
  | ⟨_, _⟩, ⟨_, .delete⟩ => .ok .lt
  | ⟨_, .delete⟩, ⟨_, _⟩ => .ok .gt
  | ⟨id1, _⟩, ⟨id2, _⟩ => compareWithTiebreak st id1 id2

variable [BinarySearch]

def insertAtom (st : CausalState T) (children : List (CausalTree T A)) (atom : Atom T A) :
    Exec (List (CausalTree T A)) := do
  let answers ← children.mapM fun ct => compareAtom st ct.atom atom
  match binarySearchBy answers with
  | .error index =>
    if index ≤ children.length then pure (children.insertIdx index (.node atom []))
    else throw .outOfBounds
  | .ok _ => throw (.unreachable
      "Precondition of `apply` violated: Applied `logical_time`s must be unique.")

mutual

def insertInWeave (st : CausalState T) (weave : CausalTree T A) (op : CausalTreeOp T A) :
    Exec (CausalTree T A × Option (CausalTreeOp T A)) :=
  match weave with
  | .node atom children =>
    if atom.id = op.parentId then do
      let children ← insertAtom st children op.atom
      pure (.node atom children, none)
    else do
      let r ← insertInWeaveChildren st children (some op)
      pure (.node atom r.1, r.2)

/-- The operation is handed from child to child until one of them takes it. -/
def insertInWeaveChildren (st : CausalState T) (children : List (CausalTree T A))
    (opM : Option (CausalTreeOp T A)) :
    Exec (List (CausalTree T A) × Option (CausalTreeOp T A)) :=
  match children with
  | [] => .ok ([], opM)
  | child :: children =>
    match opM with
    | some op => do
      let r ← insertInWeave st child op
      let rest ← insertInWeaveChildren st children r.2
      pure (r.1 :: rest.1, rest.2)
    | none => do
      let rest ← insertInWeaveChildren st children none
      pure (child :: rest.1, rest.2)

end

instance : CRDT (CausalTree T A) (CausalTreeOp T A) T where
  apply st self op := do
    let r ← insertInWeave st self op
    if r.2.isSome then
      throw (.unreachable ("Precondition of `apply` violated: " ++
        "Operation must only be applied when all of its parents have been applied."))
    else pure r.1

/-! ### Nodes of a forest -/

section Forest

omit [BinarySearch] [LinearOrder T]

/-- A forest is empty, or a first tree with its children and the trees after it. -/
@[elab_as_elim]
theorem forest_induct {P : List (CausalTree T A) → Prop} (nil : P [])
    (cons : ∀ atom children rest, P children → P rest → P (.node atom children :: rest)) :
    ∀ ts, P ts
  | [] => nil
  | .node atom children :: rest =>
    cons atom children rest (forest_induct nil cons children) (forest_induct nil cons rest)

/-- The ids of all atoms of a forest. -/
def forestIds : List (CausalTree T A) → List T
  | [] => []
  | .node atom children :: rest => atom.id :: forestIds children ++ forestIds rest

/-- The children of the node with id `p` are `cs`. -/
inductive ChildrenAt (p : T) (cs : List (CausalTree T A)) : List (CausalTree T A) → Prop
  | here {atom rest} : atom.id = p → ChildrenAt p cs (.node atom cs :: rest)
  | inside {atom children rest} : ChildrenAt p cs children →
      ChildrenAt p cs (.node atom children :: rest)
  | later {t rest} : ChildrenAt p cs rest → ChildrenAt p cs (t :: rest)

variable {p : T} {cs cs' ts : List (CausalTree T A)}

lemma ChildrenAt.mem_ids (h : ChildrenAt p cs ts) : p ∈ forestIds ts := by
  induction h with
  | here hid => simp [forestIds, hid]
  | inside _ ih => simp [forestIds, ih]
  | @later t rest _ ih =>
    cases t
    simp [forestIds, ih]

lemma exists_childrenAt (h : p ∈ forestIds ts) : ∃ cs, ChildrenAt p cs ts := by
  induction ts using forest_induct with
  | nil => simp [forestIds] at h
  | cons atom children rest ihc ihr =>
    simp only [forestIds, List.cons_append, List.mem_cons, List.mem_append] at h
    rcases h with rfl | h | h
    · exact ⟨children, .here rfl⟩
    · obtain ⟨cs, hcs⟩ := ihc h
      exact ⟨cs, .inside hcs⟩
    · obtain ⟨cs, hcs⟩ := ihr h
      exact ⟨cs, .later hcs⟩

lemma mem_forestIds_of_mem {t : CausalTree T A} (h : t ∈ ts) : t.atom.id ∈ forestIds ts := by
  induction ts using forest_induct with
  | nil => cases h
  | cons atom children rest _ ihr =>
    rcases List.mem_cons.mp h with rfl | h
    · simp [forestIds, CausalTree.atom]
    · simp [forestIds, ihr h]

lemma nodup_forestIds_cons {atom : Atom T A} {children rest : List (CausalTree T A)} :
    (forestIds (.node atom children :: rest)).Nodup ↔
      (atom.id ∉ forestIds children ∧ atom.id ∉ forestIds rest) ∧ (forestIds children).Nodup ∧
        (forestIds rest).Nodup ∧ ∀ i ∈ forestIds children, i ∉ forestIds rest := by
  rw [forestIds, List.cons_append, List.nodup_cons, List.nodup_append', List.mem_append, not_or]
  exact Iff.rfl

/-- Distinct ids: one node, one list of children. -/
lemma ChildrenAt.unique (hn : (forestIds ts).Nodup) (h : ChildrenAt p cs ts)
    (h' : ChildrenAt p cs' ts) : cs = cs' := by
  induction h with
  | here hid =>
    obtain ⟨⟨hc, hr⟩, -⟩ := nodup_forestIds_cons.mp hn
    cases h' with
    | here => rfl
    | inside h' => exact absurd (hid ▸ h'.mem_ids) hc
    | later h' => exact absurd (hid ▸ h'.mem_ids) hr
  | inside h ih =>
    obtain ⟨⟨hc, -⟩, hnc, -, hdisj⟩ := nodup_forestIds_cons.mp hn
    cases h' with
    | here hid => exact absurd (hid ▸ h.mem_ids) hc
    | inside h' => exact ih hnc h'
    | later h' => exact absurd h'.mem_ids (hdisj p h.mem_ids)
  | @later t rest h ih =>
    obtain ⟨atom, children⟩ := t
    obtain ⟨⟨-, hr⟩, -, hnr, hdisj⟩ := nodup_forestIds_cons.mp hn
    cases h' with
    | here hid => exact absurd (hid ▸ h.mem_ids) hr
    | inside h' => exact absurd h.mem_ids (hdisj p h'.mem_ids)
    | later h' => exact ih hnr h'

end Forest

/-! ### Other children for one node -/

section Replace

omit [BinarySearch]

/-- Give the node with id `p` the children `cs`. -/
def replaceAt (p : T) (cs : List (CausalTree T A)) : List (CausalTree T A) → List (CausalTree T A)
  | [] => []
  | .node atom children :: rest =>
    (if atom.id = p then .node atom cs else .node atom (replaceAt p cs children)) ::
      replaceAt p cs rest

variable {p : T} {cs cs' ts : List (CausalTree T A)}

lemma replaceAt_of_not_mem (h : p ∉ forestIds ts) : replaceAt p cs ts = ts := by
  induction ts using forest_induct with
  | nil => simp [replaceAt]
  | cons atom children rest ihc ihr =>
    simp only [forestIds, List.cons_append, List.mem_cons, List.mem_append, not_or] at h
    obtain ⟨hne, hc, hr⟩ := h
    rw [replaceAt, if_neg (Ne.symm hne), ihc hc, ihr hr]

lemma map_atom_replaceAt : (replaceAt p cs ts).map CausalTree.atom = ts.map CausalTree.atom := by
  induction ts using forest_induct with
  | nil => simp [replaceAt]
  | cons atom children rest _ ihr =>
    rw [replaceAt, List.map_cons, List.map_cons, ihr]
    split_ifs <;> rfl

/-- Where the node is, in a forest with distinct ids: nothing but its children changes. -/
lemma replaceAt_here {atom : Atom T A} {children rest : List (CausalTree T A)}
    (hn : (forestIds (.node atom children :: rest)).Nodup) (hid : atom.id = p) :
    replaceAt p cs (.node atom children :: rest) = .node atom cs :: rest := by
  obtain ⟨⟨-, hr⟩, -⟩ := nodup_forestIds_cons.mp hn
  rw [replaceAt, if_pos hid, replaceAt_of_not_mem (hid ▸ hr)]

lemma replaceAt_below {atom : Atom T A} {children rest : List (CausalTree T A)}
    (hn : (forestIds (.node atom children :: rest)).Nodup) (hp : p ∈ forestIds children) :
    replaceAt p cs (.node atom children :: rest) = .node atom (replaceAt p cs children) :: rest := by
  obtain ⟨⟨hc, -⟩, -, -, hdisj⟩ := nodup_forestIds_cons.mp hn
  rw [replaceAt, if_neg (ne_of_mem_of_not_mem hp hc).symm, replaceAt_of_not_mem (hdisj p hp)]

lemma replaceAt_after {atom : Atom T A} {children rest : List (CausalTree T A)}
    (hn : (forestIds (.node atom children :: rest)).Nodup) (hp : p ∈ forestIds rest) :
    replaceAt p cs (.node atom children :: rest) = .node atom children :: replaceAt p cs rest := by
  obtain ⟨⟨-, hr⟩, -, -, hdisj⟩ := nodup_forestIds_cons.mp hn
  rw [replaceAt, if_neg (ne_of_mem_of_not_mem hp hr).symm,
    replaceAt_of_not_mem fun hc => hdisj p hc hp]

lemma ChildrenAt.replaceAt (hn : (forestIds ts).Nodup) (h : ChildrenAt p cs ts) :
    ChildrenAt p cs' (Crdt.replaceAt p cs' ts) := by
  induction h with
  | here hid =>
    rw [replaceAt_here hn hid]
    exact .here hid
  | inside h ih =>
    obtain ⟨-, hnc, -, -⟩ := nodup_forestIds_cons.mp hn
    rw [replaceAt_below hn h.mem_ids]
    exact .inside (ih hnc)
  | @later t rest h ih =>
    obtain ⟨atom, children⟩ := t
    obtain ⟨-, -, hnr, -⟩ := nodup_forestIds_cons.mp hn
    rw [replaceAt_after hn h.mem_ids]
    exact .later (ih hnr)

lemma forestIds_replaceAt {i : T} (hn : (forestIds ts).Nodup) (h : ChildrenAt p cs ts)
    (hids : (forestIds cs').Perm (i :: forestIds cs)) :
    (forestIds (Crdt.replaceAt p cs' ts)).Perm (i :: forestIds ts) := by
  induction h with
  | @here atom rest hid =>
    rw [replaceAt_here hn hid, forestIds, forestIds, List.cons_append, List.cons_append]
    exact ((hids.append_right _).cons _).trans (List.Perm.swap _ _ _)
  | @inside atom children rest h ih =>
    obtain ⟨-, hnc, -, -⟩ := nodup_forestIds_cons.mp hn
    rw [replaceAt_below hn h.mem_ids, forestIds, forestIds, List.cons_append, List.cons_append]
    exact (((ih hnc).append_right _).cons _).trans (List.Perm.swap _ _ _)
  | @later t rest h ih =>
    obtain ⟨atom, children⟩ := t
    obtain ⟨-, -, hnr, -⟩ := nodup_forestIds_cons.mp hn
    rw [replaceAt_after hn h.mem_ids, forestIds, forestIds]
    exact ((ih hnr).append_left _).trans List.perm_middle

end Replace

/-! ### Where an operation goes -/

section Insert

variable {st : CausalState T} {op : CausalTreeOp T A} {cs ts : List (CausalTree T A)}

lemma insertInWeaveChildren_none :
    insertInWeaveChildren st ts none = .ok (ts, none) := by
  induction ts with
  | nil => rfl
  | cons t ts ih =>
    rw [insertInWeaveChildren, ih]
    rfl

lemma insertInWeaveChildren_cons {atom : Atom T A} {children rest : List (CausalTree T A)} :
    insertInWeaveChildren st (.node atom children :: rest) (some op) =
      if atom.id = op.parentId then
        insertAtom st children op.atom >>= fun cs => .ok (.node atom cs :: rest, none)
      else insertInWeaveChildren st children (some op) >>= fun r =>
        insertInWeaveChildren st rest r.2 >>= fun r' => .ok (.node atom r.1 :: r'.1, r'.2) := by
  rw [insertInWeaveChildren, insertInWeave]
  split_ifs
  · simp only [bind_assoc, pure_eq_ok, ok_bind, insertInWeaveChildren_none]
  · simp only [bind_assoc, pure_eq_ok, ok_bind]

lemma insertInWeaveChildren_of_not_mem (h : op.parentId ∉ forestIds ts) :
    insertInWeaveChildren st ts (some op) = .ok (ts, some op) := by
  induction ts using forest_induct with
  | nil => rfl
  | cons atom children rest ihc ihr =>
    simp only [forestIds, List.cons_append, List.mem_cons, List.mem_append, not_or] at h
    obtain ⟨hne, hc, hr⟩ := h
    rw [insertInWeaveChildren_cons, if_neg (Ne.symm hne), ihc hc, ok_bind, ihr hr, ok_bind]

/-- **An operation goes to the children of its parent**, wherever the parent is. -/
theorem insertInWeaveChildren_of_childrenAt (hn : (forestIds ts).Nodup)
    (h : ChildrenAt op.parentId cs ts) :
    insertInWeaveChildren st ts (some op) = insertAtom st cs op.atom >>= fun cs' =>
      .ok (replaceAt op.parentId cs' ts, none) := by
  induction h with
  | @here atom rest hid =>
    rw [insertInWeaveChildren_cons, if_pos hid]
    simp only [replaceAt_here hn hid]
  | @inside atom children rest h ih =>
    obtain ⟨⟨hc, -⟩, hnc, -, -⟩ := nodup_forestIds_cons.mp hn
    rw [insertInWeaveChildren_cons, if_neg (ne_of_mem_of_not_mem h.mem_ids hc).symm, ih hnc]
    simp only [bind_assoc, ok_bind, insertInWeaveChildren_none, replaceAt_below hn h.mem_ids]
  | @later t rest h ih =>
    obtain ⟨atom, children⟩ := t
    obtain ⟨⟨-, hr⟩, -, hnr, hdisj⟩ := nodup_forestIds_cons.mp hn
    rw [insertInWeaveChildren_cons, if_neg (ne_of_mem_of_not_mem h.mem_ids hr).symm,
      insertInWeaveChildren_of_not_mem fun hc => hdisj _ hc h.mem_ids, ok_bind, ih hnr]
    simp only [bind_assoc, ok_bind, replaceAt_after hn h.mem_ids]

end Insert

/-! ### A whole tree -/

section Tree

variable {st : CausalState T} {op : CausalTreeOp T A} {p : T} {cs cs' : List (CausalTree T A)}
  {t : CausalTree T A}

omit [BinarySearch] [LinearOrder T] in
/-- The children in a tree of the node with id `p`; the root comes first. -/
def CausalTree.Below (t : CausalTree T A) (p : T) (cs : List (CausalTree T A)) : Prop :=
  t.atom.id = p ∧ t.children = cs ∨ t.atom.id ≠ p ∧ ChildrenAt p cs t.children

omit [BinarySearch] in
def CausalTree.put (t : CausalTree T A) (p : T) (cs : List (CausalTree T A)) : CausalTree T A :=
  .node t.atom (if t.atom.id = p then cs else replaceAt p cs t.children)

/-- **What `apply` does** to a tree that has the parent. -/
theorem CausalTree.apply_of_below (hn : (forestIds t.children).Nodup) (h : t.Below op.parentId cs) :
    CRDT.apply st t op = insertAtom st cs op.atom >>= fun cs' => .ok (t.put op.parentId cs') := by
  obtain ⟨atom, children⟩ := t
  simp only [CausalTree.Below, CausalTree.atom, CausalTree.children] at h hn
  unfold CausalTree.put
  simp only [CRDT.apply, insertInWeave, CausalTree.atom, CausalTree.children]
  rcases h with ⟨hid, rfl⟩ | ⟨hid, h⟩
  · simp only [hid, ↓reduceIte, bind_assoc, pure_eq_ok, ok_bind, Option.isSome_none,
      Bool.false_eq_true]
  · simp only [hid, ↓reduceIte, insertInWeaveChildren_of_childrenAt hn h, bind_assoc, pure_eq_ok,
      ok_bind, Option.isSome_none, Bool.false_eq_true]

omit [BinarySearch] [LinearOrder T] in
lemma CausalTree.Below.unique (hn : (forestIds t.children).Nodup) (h : t.Below p cs)
    (h' : t.Below p cs') : cs = cs' := by
  rcases h with ⟨hid, rfl⟩ | ⟨hid, h⟩
  · rcases h' with ⟨-, rfl⟩ | ⟨hid', -⟩
    · rfl
    · exact absurd hid hid'
  · rcases h' with ⟨hid', -⟩ | ⟨-, h'⟩
    · exact absurd hid' hid
    · exact h.unique hn h'

omit [BinarySearch] in
lemma CausalTree.Below.put (hn : (forestIds t.children).Nodup) (h : t.Below p cs) :
    (t.put p cs').Below p cs' := by
  unfold CausalTree.put
  rcases h with ⟨hid, -⟩ | ⟨hid, h⟩
  · exact Or.inl ⟨hid, if_pos hid⟩
  · refine Or.inr ⟨hid, ?_⟩
    simpa [CausalTree.children, if_neg hid] using h.replaceAt hn

omit [BinarySearch] in
lemma CausalTree.Below.ids_put {i : T} (hn : (forestIds t.children).Nodup) (h : t.Below p cs)
    (hids : (forestIds cs').Perm (i :: forestIds cs)) :
    (forestIds (t.put p cs').children).Perm (i :: forestIds t.children) := by
  show (forestIds (if t.atom.id = p then cs' else replaceAt p cs' t.children)).Perm _
  rcases h with ⟨hid, hcs⟩ | ⟨hid, h⟩
  · rw [if_pos hid]
    exact hcs ▸ hids
  · rw [if_neg hid]
    exact forestIds_replaceAt hn h hids

end Tree

end Ossa.Crdt
