import Ossa.CausalTreeOvertake

/-!
One insertion into a causal tree.

An operation whose parent is in the tree adds its atom there, as a child without children of its
own. Nothing else changes: every atom keeps its parent, and the children of every node keep their
order. The children need not be sorted for this, so that of the binary search only the bounds of
its answer are used.
-/

namespace Ossa.Crdt

open Ossa.Loop

/-- What `binary_search_by` answers on any vector: the position of an entry that the comparator
called equal, or a position at which an entry can be inserted. -/
structure BinarySearch.InBounds [BinarySearch] : Prop where
  insertable {answers : List Ordering} {i : ℕ} :
    binarySearchBy answers = .error i → i ≤ answers.length
  equal {answers : List Ordering} {i : ℕ} :
    binarySearchBy answers = .ok i → answers[i]? = some .eq

variable {T A : Type} {p q : T} {a x : Atom T A} {t t' : CausalTree T A}
variable {cs cs' ds ts : List (CausalTree T A)}

/-! ### Atoms of a forest -/

/-- All atoms of a forest. -/
def forestAtoms : List (CausalTree T A) → List (Atom T A)
  | [] => []
  | .node atom children :: rest => atom :: forestAtoms children ++ forestAtoms rest

lemma map_id_forestAtoms (ts : List (CausalTree T A)) :
    (forestAtoms ts).map Atom.id = forestIds ts := by
  induction ts using forest_induct with
  | nil => simp [forestAtoms, forestIds]
  | cons atom children rest ihc ihr => simp [forestAtoms, forestIds, ihc, ihr]

lemma forestAtoms_append (l₁ l₂ : List (CausalTree T A)) :
    forestAtoms (l₁ ++ l₂) = forestAtoms l₁ ++ forestAtoms l₂ := by
  induction l₁ with
  | nil => simp [forestAtoms]
  | cons t l₁ ih =>
    cases t
    simp [forestAtoms, ih]

lemma forestAtoms_insert {l₁ l₂ : List (CausalTree T A)} :
    (forestAtoms (l₁ ++ .node a [] :: l₂)).Perm (a :: forestAtoms (l₁ ++ l₂)) := by
  simp only [forestAtoms_append, forestAtoms, List.cons_append, List.nil_append]
  exact List.perm_middle

/-- Atom `x` is a child of the node with id `p`. -/
def CausalTree.IsChild (t : CausalTree T A) (p : T) (x : Atom T A) : Prop :=
  ∃ cs, ChildrenAt p cs [t] ∧ x ∈ cs.map CausalTree.atom

/-! ### Children of other nodes -/

lemma ChildrenAt.trans (h : ChildrenAt p cs ts) (h' : ChildrenAt q ds cs) :
    ChildrenAt q ds ts := by
  induction h with
  | here _ => exact .inside h'
  | inside _ ih => exact .inside ih
  | later _ ih => exact .later ih

lemma childrenAt_append {l₁ l₂ : List (CausalTree T A)} :
    ChildrenAt p cs (l₁ ++ l₂) ↔ ChildrenAt p cs l₁ ∨ ChildrenAt p cs l₂ := by
  constructor
  · intro h
    induction l₁ with
    | nil => exact Or.inr h
    | cons t l₁ ih =>
      cases h with
      | here hid => exact Or.inl (.here hid)
      | inside h => exact Or.inl (.inside h)
      | later h => exact (ih h).imp_left .later
  · rintro (h | h)
    · induction h with
      | here hid => exact .here hid
      | inside h _ => exact .inside h
      | later _ ih => exact .later ih
    · induction l₁ with
      | nil => exact h
      | cons t l₁ ih => exact .later ih

lemma ChildrenAt.insert {l₁ l₂ : List (CausalTree T A)} (h : ChildrenAt p cs (l₁ ++ l₂))
    (t : CausalTree T A) : ChildrenAt p cs (l₁ ++ t :: l₂) :=
  childrenAt_append.mpr ((childrenAt_append.mp h).imp_right .later)

variable [LinearOrder T]

lemma ChildrenAt.replaceAt_of_ne (hn : (forestIds ts).Nodup) (hp : ChildrenAt p cs ts)
    (hkeep : ∀ {q ds}, ChildrenAt q ds cs → ChildrenAt q ds cs') (hq : ChildrenAt q ds ts)
    (hne : q ≠ p) : ∃ ds', ChildrenAt q ds' (Crdt.replaceAt p cs' ts) ∧
      ds'.map CausalTree.atom = ds.map CausalTree.atom := by
  induction hp with
  | here hid =>
    rw [replaceAt_here hn hid]
    cases hq with
    | here hid' => exact absurd (hid'.symm.trans hid) hne
    | inside hq => exact ⟨ds, .inside (hkeep hq), rfl⟩
    | later hq => exact ⟨ds, .later hq, rfl⟩
  | inside h ih =>
    obtain ⟨-, hnc, -, -⟩ := nodup_forestIds_cons.mp hn
    rw [replaceAt_below hn h.mem_ids]
    cases hq with
    | here hid => exact ⟨_, .here hid, map_atom_replaceAt⟩
    | inside hq =>
      obtain ⟨ds', hds', hatoms⟩ := ih hnc hq
      exact ⟨ds', .inside hds', hatoms⟩
    | later hq => exact ⟨ds, .later hq, rfl⟩
  | @later t rest h ih =>
    obtain ⟨atom, children⟩ := t
    obtain ⟨-, -, hnr, -⟩ := nodup_forestIds_cons.mp hn
    rw [replaceAt_after hn h.mem_ids]
    cases hq with
    | here hid => exact ⟨ds, .here hid, rfl⟩
    | inside hq => exact ⟨ds, .inside hq, rfl⟩
    | later hq =>
      obtain ⟨ds', hds', hatoms⟩ := ih hnr hq
      exact ⟨ds', .later hds', hatoms⟩

lemma forestAtoms_replaceAt (hn : (forestIds ts).Nodup) (h : ChildrenAt p cs ts)
    (hatoms : (forestAtoms cs').Perm (a :: forestAtoms cs)) :
    (forestAtoms (replaceAt p cs' ts)).Perm (a :: forestAtoms ts) := by
  induction h with
  | here hid =>
    rw [replaceAt_here hn hid, forestAtoms, forestAtoms, List.cons_append, List.cons_append]
    exact ((hatoms.append_right _).cons _).trans (List.Perm.swap _ _ _)
  | inside h ih =>
    obtain ⟨-, hnc, -, -⟩ := nodup_forestIds_cons.mp hn
    rw [replaceAt_below hn h.mem_ids, forestAtoms, forestAtoms, List.cons_append, List.cons_append]
    exact (((ih hnc).append_right _).cons _).trans (List.Perm.swap _ _ _)
  | @later t rest h ih =>
    obtain ⟨atom, children⟩ := t
    obtain ⟨-, -, hnr, -⟩ := nodup_forestIds_cons.mp hn
    rw [replaceAt_after hn h.mem_ids, forestAtoms, forestAtoms]
    exact ((ih hnr).append_left _).trans List.perm_middle

/-! ### A place among the children -/

variable {st : CausalState T}

lemma exists_compareAtom (h : Answers st x.id a.id) (h' : Answers st a.id x.id)
    (hne : x.id ≠ a.id) : ∃ o, compareAtom st x a = .ok o ∧ o ≠ .eq := by
  rw [compareAtom_eq]
  split_ifs
  · exact ⟨.lt, rfl, by decide⟩
  · exact ⟨.gt, rfl, by decide⟩
  · obtain ⟨b, hb⟩ := h
    obtain ⟨b', hb'⟩ := h'
    unfold compareWithTiebreak
    rw [hb, ok_bind]
    cases b with
    | true => exact ⟨.lt, rfl, by decide⟩
    | false =>
      cases b' with
      | true => exact ⟨.gt, by simp [hb'], by decide⟩
      | false => exact ⟨compare x.id a.id, by simp [hb'], fun heq => hne (compare_eq_iff_eq.mp heq)⟩

variable [BinarySearch]

/-- **A new child** is inserted somewhere, and the others keep their order. -/
theorem insertAtom_inBounds (hsearch : BinarySearch.InBounds)
    (hanswers : ∀ c ∈ cs, Answers st c.atom.id a.id ∧ Answers st a.id c.atom.id)
    (hfresh : ∀ c ∈ cs, c.atom.id ≠ a.id) :
    ∃ l₁ l₂, cs = l₁ ++ l₂ ∧ insertAtom st cs a = .ok (l₁ ++ .node a [] :: l₂) := by
  have hcompare : ∀ c ∈ cs, ∃ o, compareAtom st c.atom a = .ok o ∧ o ≠ .eq := fun c hc =>
    exists_compareAtom (hanswers c hc).1 (hanswers c hc).2 (hfresh c hc)
  obtain ⟨answers, ha⟩ := exists_mapM_ok fun c hc => (hcompare c hc).imp fun _ => And.left
  have hforall := mapM_eq_ok.mp ha
  have hlen : answers.length = cs.length := hforall.length_eq.symm
  unfold insertAtom
  rw [ha, ok_bind]
  cases hb : binarySearchBy answers with
  | error i =>
    have hi : i ≤ cs.length := hlen ▸ hsearch.insertable hb
    refine ⟨cs.take i, cs.drop i, (List.take_append_drop i cs).symm, ?_⟩
    have hinsert := insertIdx_append_length (cs.take i) (cs.drop i) (CausalTree.node a [])
    rw [List.take_append_drop, List.length_take, min_eq_left hi] at hinsert
    simp only [if_pos hi, pure_eq_ok, hinsert]
  | ok i =>
    obtain ⟨c, hc, heq⟩ := mem_of_mapM_eq_ok ha (List.mem_of_getElem? (hsearch.equal hb))
    obtain ⟨o, ho, hne⟩ := hcompare c hc
    exact absurd (Except.ok.inj (ho.symm.trans heq)) hne

/-! ### A whole tree -/

/-- The tree has one atom more, below its parent, and is as it was otherwise. -/
structure CausalTree.Inserted (op : CausalTreeOp T A) (weave weave' : CausalTree T A) : Prop where
  atom : weave'.atom = weave.atom
  atoms : (forestAtoms [weave']).Perm (op.atom :: forestAtoms [weave])
  parent {cs : List (CausalTree T A)} : ChildrenAt op.parentId cs [weave] →
    ∃ l₁ l₂, cs = l₁ ++ l₂ ∧ ChildrenAt op.parentId (l₁ ++ .node op.atom [] :: l₂) [weave']
  others {p : T} {cs : List (CausalTree T A)} : p ≠ op.parentId → ChildrenAt p cs [weave] →
    ∃ cs', ChildrenAt p cs' [weave'] ∧ cs'.map CausalTree.atom = cs.map CausalTree.atom
  childless : ChildrenAt op.atom.id [] [weave']

namespace CausalTree.Inserted

omit [BinarySearch] [LinearOrder T]

variable {op : CausalTreeOp T A} {weave weave' : CausalTree T A}

/-- **Every old atom keeps its parent**, and the new one is below its own. -/
theorem isChild_iff (h : Inserted op weave weave') (hn : (forestIds [weave]).Nodup)
    (hfresh : op.atom.id ∉ forestIds [weave]) (hparent : op.parentId ∈ forestIds [weave]) :
    weave'.IsChild p x ↔ weave.IsChild p x ∨ p = op.parentId ∧ x = op.atom := by
  have hids : (forestIds [weave']).Perm (op.atom.id :: forestIds [weave]) := by
    rw [← map_id_forestAtoms, ← map_id_forestAtoms]
    exact h.atoms.map Atom.id
  have hn' : (forestIds [weave']).Nodup := hids.nodup_iff.mpr (List.nodup_cons.mpr ⟨hfresh, hn⟩)
  obtain ⟨cs₀, hcs₀⟩ := exists_childrenAt hparent
  obtain ⟨l₁, l₂, rfl, hnew⟩ := h.parent hcs₀
  constructor
  · rintro ⟨cs', hcs', hx⟩
    by_cases hp : p = op.parentId
    · subst hp
      rw [hcs'.unique hn' hnew, List.map_append, List.map_cons, List.mem_append,
        List.mem_cons] at hx
      refine Or.symm (or_iff_not_imp_left.mpr fun hne => ⟨_, hcs₀, ?_⟩)
      rw [List.map_append, List.mem_append]
      exact hx.imp_right fun hx => hx.resolve_left fun heq => hne ⟨rfl, heq⟩
    · rcases List.mem_cons.mp (hids.mem_iff.mp hcs'.mem_ids) with rfl | hmem
      · rw [hcs'.unique hn' h.childless] at hx
        cases hx
      · obtain ⟨cs, hcs⟩ := exists_childrenAt hmem
        obtain ⟨cs'', hcs'', hatoms⟩ := h.others hp hcs
        rw [hcs'.unique hn' hcs'', hatoms] at hx
        exact Or.inl ⟨cs, hcs, hx⟩
  · rintro (⟨cs, hcs, hx⟩ | ⟨rfl, rfl⟩)
    · by_cases hp : p = op.parentId
      · subst hp
        rw [hcs.unique hn hcs₀, List.map_append, List.mem_append] at hx
        refine ⟨_, hnew, ?_⟩
        rw [List.map_append, List.map_cons, List.mem_append, List.mem_cons]
        exact hx.imp_right Or.inr
      · obtain ⟨cs', hcs', hatoms⟩ := h.others hp hcs
        exact ⟨cs', hcs', hatoms ▸ hx⟩
    · refine ⟨_, hnew, ?_⟩
      rw [List.map_append, List.map_cons]
      exact List.mem_append_right _ List.mem_cons_self

end CausalTree.Inserted

variable {op : CausalTreeOp T A} {weave : CausalTree T A}

lemma insertInWeaveChildren_singleton : insertInWeaveChildren st [weave] (some op) =
    insertInWeave st weave op >>= fun r => .ok ([r.1], r.2) := by
  rw [insertInWeaveChildren]
  refine congrArg _ (funext fun r => ?_)
  rw [insertInWeaveChildren]
  rfl

/-- **An insertion puts one atom in the right place and disturbs nothing**; without its parent,
the operation and the tree are handed back. -/
theorem insertInWeave_inserts (hsearch : BinarySearch.InBounds) (st : CausalState T)
    (weave : CausalTree T A) (op : CausalTreeOp T A) (hn : (forestIds [weave]).Nodup)
    (hfresh : op.atom.id ∉ forestIds [weave])
    (hanswers : ∀ i ∈ forestIds [weave], Answers st i op.atom.id ∧ Answers st op.atom.id i) :
    (op.parentId ∈ forestIds [weave] → ∃ weave', insertInWeave st weave op = .ok (weave', none) ∧
      weave.Inserted op weave' ∧ ∀ p x, weave'.IsChild p x ↔
        weave.IsChild p x ∨ p = op.parentId ∧ x = op.atom) ∧
    (op.parentId ∉ forestIds [weave] → insertInWeave st weave op = .ok (weave, some op)) := by
  constructor
  · intro hparent
    obtain ⟨cs, hcs⟩ := exists_childrenAt hparent
    have hids : ∀ c ∈ cs, c.atom.id ∈ forestIds [weave] := fun c hc => by
      obtain ⟨ds, hds⟩ := exists_childrenAt (mem_forestIds_of_mem hc)
      exact (hcs.trans hds).mem_ids
    obtain ⟨l₁, l₂, rfl, hinsert⟩ := insertAtom_inBounds hsearch
      (fun c hc => hanswers _ (hids c hc)) fun c hc => ne_of_mem_of_not_mem (hids c hc) hfresh
    have hall : insertInWeaveChildren st [weave] (some op) = _ :=
      insertInWeaveChildren_of_childrenAt hn hcs
    rw [hinsert, ok_bind, insertInWeaveChildren_singleton] at hall
    obtain ⟨⟨weave', opM⟩, hr, heq⟩ := bind_eq_ok.mp hall
    obtain ⟨hforest, rfl⟩ := Prod.ext_iff.mp (Except.ok.inj heq)
    have hnew : ChildrenAt op.parentId (l₁ ++ .node op.atom [] :: l₂) [weave'] := by
      rw [show [weave'] = _ from hforest]
      exact hcs.replaceAt hn
    have hinserted : weave.Inserted op weave' := by
      refine ⟨?_, ?_, fun hcs' => ⟨l₁, l₂, hcs'.unique hn hcs, hnew⟩, fun hp hq => ?_, ?_⟩
      · have hatoms := congrArg (List.map CausalTree.atom) hforest
        rw [map_atom_replaceAt] at hatoms
        exact List.singleton_inj.mp hatoms
      · rw [show [weave'] = _ from hforest]
        exact forestAtoms_replaceAt hn hcs forestAtoms_insert
      · rw [show [weave'] = _ from hforest]
        exact hcs.replaceAt_of_ne hn (fun h => h.insert _) hq hp
      · exact hnew.trans (childrenAt_append.mpr (Or.inr (.here rfl)))
    exact ⟨weave', hr, hinserted, fun p x => hinserted.isChild_iff hn hfresh hparent⟩
  · intro hparent
    have hall : insertInWeaveChildren st [weave] (some op) = _ :=
      insertInWeaveChildren_of_not_mem hparent
    rw [insertInWeaveChildren_singleton] at hall
    obtain ⟨⟨weave', opM⟩, hr, heq⟩ := bind_eq_ok.mp hall
    cases heq
    exact hr

end Ossa.Crdt

/-! ### An insertion below a letter -/

namespace Ossa.Ecg

open Ossa.Crdt

lemma halving_inBounds : BinarySearch.InBounds where
  insertable {answers i} h := by
    change halving answers = .error i at h
    unfold halving at h
    split at h
    · cases h
    · next hget =>
      cases h
      exact (List.getElem?_eq_some_iff.mp hget).1
    · next hget =>
      cases h
      exact (List.getElem?_eq_some_iff.mp hget).1.le
    · cases h
      exact Nat.zero_le _
  equal {answers i} h := by
    change halving answers = .ok i at h
    unfold halving at h
    split at h
    · next hget =>
      cases h
      exact hget
    · cases h
    · cases h
    · cases h

/-- Nothing happens before anything. -/
def allConcurrent : CausalState ℕ := ⟨fun _ _ => .ok false⟩

/-- A root, a letter below it, and one below that. -/
def twoLetters : CausalTree ℕ ℕ :=
  .node ⟨0, .root⟩ [.node ⟨1, .letter 7⟩ [.node ⟨2, .letter 8⟩ []]]

lemma forestIds_twoLetters : forestIds [twoLetters] = [0, 1, 2] := by
  simp [twoLetters, forestIds]

theorem insertInWeave_inserts_below : ∃ weave',
    insertInWeave allConcurrent twoLetters ⟨1, ⟨3, .letter 9⟩⟩ = .ok (weave', none) ∧
      twoLetters.Inserted ⟨1, ⟨3, .letter 9⟩⟩ weave' := by
  have hspec := insertInWeave_inserts halving_inBounds allConcurrent twoLetters
    ⟨1, ⟨3, .letter 9⟩⟩ (by rw [forestIds_twoLetters]; decide)
    (by rw [forestIds_twoLetters]; decide) fun i _ => ⟨⟨false, rfl⟩, ⟨false, rfl⟩⟩
  obtain ⟨weave', hr, hinserted, -⟩ := hspec.1 (by rw [forestIds_twoLetters]; decide)
  exact ⟨weave', hr, hinserted⟩

end Ossa.Ecg
