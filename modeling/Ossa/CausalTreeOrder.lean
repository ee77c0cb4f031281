import Mathlib.Logic.Relation
import Ossa.CausalTree
import Ossa.Lww

/-!
When concurrent inserts into a causal tree converge.

Siblings are ordered by their kind, then by the causal order, and by the order on times where two
are concurrent. Where this order is transitive among siblings, the tree is determined by the set
of operations: below each node stand its atoms, sorted. Where three siblings overtake one
another, two orders of the same operations end in different trees.
-/

namespace Ossa.Crdt

open Ossa.Loop Ossa.Linearize

variable {T A : Type} {st : CausalState T}

/-- Letters come first, then deletions. -/
def Letter.rank : Letter A → ℕ
  | letter _ => 0
  | delete => 1
  | root => 2

def Atom.Before (st : CausalState T) (x y : Atom T A) : Prop := Precedes st x.id y.id

variable [LinearOrder T]

/-- Atom `x` stands ahead of atom `y` among siblings. -/
def Atom.Ahead (st : CausalState T) (x y : Atom T A) : Prop :=
  x.letter.rank < y.letter.rank ∨
    x.letter.rank = y.letter.rank ∧ Later (Atom.Before st) Atom.id x y

lemma compareAtom_eq (x y : Atom T A) : compareAtom st x y =
    if x.letter.rank < y.letter.rank then .ok .lt
    else if y.letter.rank < x.letter.rank then .ok .gt
    else compareWithTiebreak st x.id y.id := by
  obtain ⟨i, l⟩ := x
  obtain ⟨j, m⟩ := y
  cases l <;> cases m <;> rfl

/-- Siblings among which nothing overtakes. -/
structure Siblings (st : CausalState T) (l : List (Atom T A)) : Prop where
  history : History (Atom.Before st) Atom.id l
  answers : ∀ x ∈ l, ∀ y ∈ l, Answers st x.id y.id
  acyclic : ∀ k, ¬ Cyclic (Atom.Before st) Atom.id (l.filter fun x => x.letter.rank = k)

namespace Siblings

variable {l l' : List (Atom T A)} {x y z : Atom T A}

lemma sublist (h : Siblings st l) (hs : l'.Sublist l) : Siblings st l' where
  history := h.history.sublist hs
  answers x hx y hy := h.answers x (hs.subset hx) y (hs.subset hy)
  acyclic k hc := h.acyclic k (hc.mono fun _ hx => (hs.filter _).subset hx)

lemma perm (h : Siblings st l) (hp : l.Perm l') : Siblings st l' where
  history := h.history.perm hp
  answers x hx y hy := h.answers x (hp.mem_iff.mpr hx) y (hp.mem_iff.mpr hy)
  acyclic k hc := h.acyclic k (hc.mono fun _ hx => (hp.filter _).mem_iff.mpr hx)

lemma total (h : Siblings st l) (hx : x ∈ l) (hy : y ∈ l) (hne : x ≠ y) :
    x.Ahead st y ∨ y.Ahead st x := by
  rcases lt_trichotomy x.letter.rank y.letter.rank with hlt | heq | hgt
  · exact Or.inl (Or.inl hlt)
  · rcases h.history.later_total hx hy hne with hxy | hyx
    · exact Or.inl (Or.inr ⟨heq, hxy⟩)
    · exact Or.inr (Or.inr ⟨heq.symm, hyx⟩)
  · exact Or.inr (Or.inl hgt)

lemma asymm (h : Siblings st l) (hx : x ∈ l) (hy : y ∈ l) (hxy : x.Ahead st y) :
    ¬ y.Ahead st x := by
  rintro (hlt' | ⟨heq', hyx⟩)
  · rcases hxy with hlt | ⟨heq, -⟩ <;> omega
  · rcases hxy with hlt | ⟨-, hxy⟩
    · omega
    · exact h.history.later_asymm hx hy hxy hyx

lemma trans (h : Siblings st l) (hx : x ∈ l) (hy : y ∈ l) (hz : z ∈ l) (hxy : x.Ahead st y)
    (hyz : y.Ahead st z) : x.Ahead st z := by
  rcases hxy with hxy | ⟨hrxy, hxy⟩ <;> rcases hyz with hyz | ⟨hryz, hyz⟩
  · exact Or.inl (hxy.trans hyz)
  · exact Or.inl (hryz ▸ hxy)
  · exact Or.inl (hrxy ▸ hyz)
  · refine Or.inr ⟨hrxy.trans hryz, ?_⟩
    have hmem : ∀ w ∈ l, w.letter.rank = x.letter.rank →
        w ∈ l.filter fun w => w.letter.rank = x.letter.rank := fun w hw hr =>
      List.mem_filter.mpr ⟨hw, decide_eq_true hr⟩
    exact (h.history.sublist List.filter_sublist).later_trans (h.acyclic x.letter.rank)
      (hmem x hx rfl) (hmem y hy hrxy.symm) (hmem z hz (hrxy.trans hryz).symm) hxy hyz

lemma compare_of_ahead (h : Siblings st l) (hx : x ∈ l) (hy : y ∈ l) (hxy : x.Ahead st y) :
    compareAtom st x y = .ok .lt := by
  rw [compareAtom_eq]
  rcases hxy with hlt | ⟨heq, hxy⟩
  · rw [if_pos hlt]
  · rw [if_neg heq.not_lt, if_neg heq.not_gt]
    exact compareWithTiebreak_lt (h.answers x hx y hy) (h.answers y hy x hx) hxy

lemma compare_of_behind (h : Siblings st l) (hx : x ∈ l) (hy : y ∈ l) (hyx : y.Ahead st x) :
    compareAtom st x y = .ok .gt := by
  rw [compareAtom_eq]
  rcases hyx with hlt | ⟨heq, hyx⟩
  · rw [if_neg hlt.not_gt, if_pos hlt]
  · rw [if_neg heq.not_gt, if_neg heq.not_lt]
    exact compareWithTiebreak_gt (h.answers x hx y hy) (h.answers y hy x hx)
      (fun hxy => h.history.later_asymm hy hx hyx (Or.inl hxy)) (hyx.imp_right And.right)

end Siblings

/-! ### Sorted insertion -/

section Sorted

variable {α : Type} {r : α → α → Prop} {before after : α → Prop} {l : List α}

omit [LinearOrder T] in
lemma exists_split (hs : l.Pairwise r) (htotal : ∀ x ∈ l, before x ∨ after x)
    (hkeep : ∀ x ∈ l, ∀ y ∈ l, after x → r x y → after y) :
    ∃ l₁ l₂, l = l₁ ++ l₂ ∧ (∀ x ∈ l₁, before x) ∧ ∀ x ∈ l₂, after x := by
  induction l with
  | nil => exact ⟨[], [], rfl, by simp, by simp⟩
  | cons x l ih =>
    obtain ⟨hx, hl⟩ := List.pairwise_cons.mp hs
    have hmem : x ∈ x :: l := List.mem_cons_self
    rcases htotal x hmem with hbefore | hafter
    · obtain ⟨l₁, l₂, rfl, h₁, h₂⟩ := ih hl (fun y hy => htotal y (List.mem_cons_of_mem x hy))
        fun y hy z hz => hkeep y (List.mem_cons_of_mem x hy) z (List.mem_cons_of_mem x hz)
      refine ⟨x :: l₁, l₂, rfl, fun y hy => ?_, h₂⟩
      rcases List.mem_cons.mp hy with rfl | hy
      · exact hbefore
      · exact h₁ y hy
    · refine ⟨[], x :: l, rfl, by simp, fun y hy => ?_⟩
      rcases List.mem_cons.mp hy with rfl | hyl
      · exact hafter
      · exact hkeep x hmem y hy hafter (hx y hyl)

omit [LinearOrder T] in
lemma insertIdx_append_length (l₁ l₂ : List α) (a : α) :
    (l₁ ++ l₂).insertIdx l₁.length a = l₁ ++ a :: l₂ := by
  induction l₁ with
  | nil => rfl
  | cons b l₁ ih =>
    rw [List.cons_append, List.length_cons, List.insertIdx_succ_cons, ih]
    rfl

end Sorted

omit [LinearOrder T] in
lemma mapM_eq_replicate {α β : Type} {f : α → Exec β} {l : List α} {b : β}
    (h : ∀ a ∈ l, f a = .ok b) : l.mapM f = .ok (.replicate l.length b) := by
  induction l with
  | nil => rfl
  | cons a l ih =>
    rw [List.mapM_cons, h a List.mem_cons_self, ih fun a ha => h a (List.mem_cons_of_mem _ ha)]
    rfl

variable [BinarySearch]

/-- **A new sibling** finds its place in the order. -/
theorem insertAtom_of_sorted {cs : List (CausalTree T A)} {a : Atom T A}
    (h : Siblings st (a :: cs.map CausalTree.atom)) (ha : a ∉ cs.map CausalTree.atom)
    (hs : (cs.map CausalTree.atom).Pairwise (Atom.Ahead st)) :
    ∃ l₁ l₂, cs = l₁ ++ l₂ ∧ insertAtom st cs a = .ok (l₁ ++ .node a [] :: l₂) ∧
      ((l₁ ++ .node a [] :: l₂).map CausalTree.atom).Pairwise (Atom.Ahead st) := by
  have hmem : ∀ t ∈ cs, t.atom ∈ a :: cs.map CausalTree.atom := fun t ht =>
    List.mem_cons_of_mem a (List.mem_map_of_mem ht)
  have hself : a ∈ a :: cs.map CausalTree.atom := List.mem_cons_self
  have hcs : cs.Pairwise fun t u => t.atom.Ahead st u.atom := List.pairwise_map.mp hs
  have htotal : ∀ t ∈ cs, t.atom.Ahead st a ∨ a.Ahead st t.atom := fun t ht =>
    h.total (hmem t ht) hself fun heq => ha (heq ▸ List.mem_map_of_mem ht)
  have htrans : ∀ t ∈ cs, ∀ u ∈ cs, a.Ahead st t.atom → t.atom.Ahead st u.atom →
      a.Ahead st u.atom := fun t ht u hu => h.trans hself (hmem t ht) (hmem u hu)
  obtain ⟨l₁, l₂, rfl, h₁, h₂⟩ := exists_split hcs htotal htrans
  refine ⟨l₁, l₂, rfl, ?_, ?_⟩
  · have hanswers : (l₁ ++ l₂).mapM (fun ct => compareAtom st ct.atom a) =
        .ok (.replicate l₁.length .lt ++ .replicate l₂.length .gt) := by
      rw [List.mapM_append, mapM_eq_replicate fun t ht =>
          h.compare_of_ahead (hmem t (List.mem_append_left _ ht)) hself (h₁ t ht),
        mapM_eq_replicate fun t ht =>
          h.compare_of_behind (hmem t (List.mem_append_right _ ht)) hself (h₂ t ht)]
      rfl
    unfold insertAtom
    simp [hanswers, BinarySearch.absent, insertIdx_append_length]
  · have hs' := List.pairwise_append.mp hcs
    rw [List.pairwise_map, List.pairwise_append, List.pairwise_cons]
    refine ⟨hs'.1, ⟨h₂, hs'.2.1⟩, fun t ht u hu => ?_⟩
    rcases List.mem_cons.mp hu with rfl | hu
    · exact h₁ t ht
    · exact hs'.2.2 t ht u hu

/-! ### Sorted forests -/

section Grown

variable {r : Atom T A → Atom T A → Prop} {kids kids' : Option T → List (Atom T A)} {s : Option T}
  {cs cs' ts : List (CausalTree T A)} {p : T} {a : Atom T A}

/-- In a forest below `s`, the children of every node are the atoms that belong there, sorted. -/
inductive Grown (r : Atom T A → Atom T A → Prop) (kids : Option T → List (Atom T A)) :
    Option T → List (CausalTree T A) → Prop
  | mk {s : Option T} {cs : List (CausalTree T A)} : (cs.map CausalTree.atom).Pairwise r →
      (cs.map CausalTree.atom).Perm (kids s) →
      (∀ c ∈ cs, Grown r kids (some c.atom.id) c.children) → Grown r kids s cs

omit [LinearOrder T] [BinarySearch]

lemma Grown.sorted (h : Grown r kids s cs) : (cs.map CausalTree.atom).Pairwise r := by
  cases h
  assumption

lemma Grown.all (h : Grown r kids s cs) : (cs.map CausalTree.atom).Perm (kids s) := by
  cases h
  assumption

lemma Grown.nested (h : Grown r kids s cs) :
    ∀ c ∈ cs, Grown r kids (some c.atom.id) c.children := by
  cases h
  assumption

/-- A sorted forest has no choice. -/
theorem Grown.unique (hr : ∀ s, ∀ x ∈ kids s, ∀ y ∈ kids s, r x y → ¬ r y x)
    (h : Grown r kids s cs) (h' : Grown r kids s cs') : cs = cs' := by
  induction h generalizing cs' with
  | @mk s cs hs hp hb ih =>
    have hatoms : cs.map CausalTree.atom = cs'.map CausalTree.atom := by
      refine List.Perm.eq_of_pairwise (fun x y hx hy hxy hyx => ?_) hs h'.sorted
        (hp.trans h'.all.symm)
      exact absurd hyx (hr s x (hp.mem_iff.mp hx) y (h'.all.mem_iff.mp hy) hxy)
    have hlen : cs.length = cs'.length := by simpa using congrArg List.length hatoms
    refine List.ext_getElem hlen fun i hi hi' => ?_
    have hatom : cs[i].atom = cs'[i].atom := by
      have hget := congrArg (fun l => l[i]?) hatoms
      simpa [hi, hi'] using hget
    have hnested := h'.nested cs'[i] (List.getElem_mem hi')
    rw [← hatom] at hnested
    have hchildren := ih cs[i] (List.getElem_mem hi) hnested
    exact CausalTree.ext hatom hchildren

lemma grown_congr (h : ∀ c ∈ ts, Grown r kids (some c.atom.id) c.children)
    (hk : ∀ i ∈ forestIds ts, (kids (some i)).Perm (kids' (some i))) :
    ∀ c ∈ ts, Grown r kids' (some c.atom.id) c.children := by
  induction ts using forest_induct with
  | nil => simp
  | cons atom children rest ihc ihr =>
    simp only [forestIds, List.cons_append, List.mem_cons, List.mem_append] at hk
    rw [List.forall_mem_cons] at h ⊢
    refine ⟨.mk h.1.sorted (h.1.all.trans (hk _ (Or.inl rfl))) ?_, ?_⟩
    · exact ihc h.1.nested fun i hi => hk i (Or.inr (Or.inl hi))
    · exact ihr h.2 fun i hi => hk i (Or.inr (Or.inr hi))

lemma ChildrenAt.grown (h : ChildrenAt p cs ts)
    (hg : ∀ c ∈ ts, Grown r kids (some c.atom.id) c.children) : Grown r kids (some p) cs := by
  induction h with
  | here hid => exact hid ▸ hg _ List.mem_cons_self
  | inside _ ih => exact ih (hg _ List.mem_cons_self).nested
  | later _ ih => exact ih fun c hc => hg c (List.mem_cons_of_mem _ hc)

lemma ChildrenAt.not_mem (hn : (forestIds ts).Nodup) (h : ChildrenAt p cs ts) :
    p ∉ forestIds cs := by
  induction h with
  | here hid => exact hid ▸ (nodup_forestIds_cons.mp hn).1.1
  | inside _ ih => exact ih (nodup_forestIds_cons.mp hn).2.1
  | @later t rest _ ih =>
    cases t
    exact ih (nodup_forestIds_cons.mp hn).2.2.1

lemma forestIds_append (l₁ l₂ : List (CausalTree T A)) :
    forestIds (l₁ ++ l₂) = forestIds l₁ ++ forestIds l₂ := by
  induction l₁ with
  | nil => simp [forestIds]
  | cons t l₁ ih =>
    cases t
    simp [forestIds, ih]

lemma Grown.insert {l₁ l₂ : List (CausalTree T A)} (h : Grown r kids s (l₁ ++ l₂))
    (hs : ((l₁ ++ .node a [] :: l₂).map CausalTree.atom).Pairwise r)
    (ha : (a :: kids s).Perm (kids' s)) (hnew : kids' (some a.id) = [])
    (hk : ∀ i ∈ forestIds (l₁ ++ l₂), kids (some i) = kids' (some i)) :
    Grown r kids' s (l₁ ++ .node a [] :: l₂) := by
  have hb := grown_congr h.nested fun i hi => List.Perm.of_eq (hk i hi)
  have hall := h.all
  rw [List.map_append] at hall
  refine .mk hs ?_ fun c hc => ?_
  · rw [List.map_append, List.map_cons]
    exact (List.perm_middle.trans (hall.cons a)).trans ha
  · rcases List.mem_append.mp hc with hc | hc
    · exact hb c (List.mem_append_left _ hc)
    rcases List.mem_cons.mp hc with rfl | hc
    · exact .mk List.Pairwise.nil (hnew ▸ List.Perm.refl _) (by simp [CausalTree.children])
    · exact hb c (List.mem_append_right _ hc)

lemma forestIds_insert {l₁ l₂ : List (CausalTree T A)} :
    (forestIds (l₁ ++ .node a [] :: l₂)).Perm (a.id :: forestIds (l₁ ++ l₂)) := by
  simp only [forestIds_append, forestIds, List.cons_append, List.nil_append]
  exact List.perm_middle

end Grown

/-! ### What a history of operations says -/

section History

variable {root : Atom T A} {ops l l' p q : List (CausalTreeOp T A)} {o x y : CausalTreeOp T A}
  {t t' : CausalTree T A}

/-- Operation `x` happens before operation `y`. -/
def CausalTreeOp.Before (st : CausalState T) (x y : CausalTreeOp T A) : Prop :=
  Precedes st x.atom.id y.atom.id

/-- The parent of each operation is the root atom, or the atom of one that happens before it. -/
def Rooted (st : CausalState T) (rootId : T) (ops : List (CausalTreeOp T A)) : Prop :=
  ∀ o ∈ ops, o.parentId = rootId ∨
    ∃ x ∈ ops, x.atom.id = o.parentId ∧ CausalTreeOp.Before st x o

/-- The parent of an operation, unless it is the root. -/
def slot (rootId : T) (o : CausalTreeOp T A) : Option T :=
  if o.parentId = rootId then none else some o.parentId

/-- The atoms that belong below a node. -/
def kids (rootId : T) (ops : List (CausalTreeOp T A)) (s : Option T) : List (Atom T A) :=
  (ops.filter fun o => slot rootId o = s).map CausalTreeOp.atom

/-- A history of operations, with an order among the siblings of each node. -/
structure Weavable (st : CausalState T) (rootId : T) (ops : List (CausalTreeOp T A)) : Prop where
  history : History (CausalTreeOp.Before st) (fun o => o.atom.id) ops
  rooted : Rooted st rootId ops
  siblings : ∀ s, Siblings st (kids rootId ops s)

/-- The tree that the operations make, in whatever order they come. -/
structure CausalTree.Describes (st : CausalState T) (root : Atom T A)
    (ops : List (CausalTreeOp T A)) (t : CausalTree T A) : Prop where
  atom : t.atom = root
  grown : Grown (Atom.Ahead st) (kids root.id ops) none t.children
  ids : (forestIds t.children).Perm (ops.map fun o => o.atom.id)

omit [BinarySearch]

lemma slot_eq_none {rootId : T} : slot rootId o = none ↔ o.parentId = rootId := by
  unfold slot
  split_ifs <;> simp_all

lemma slot_eq_some {rootId i : T} : slot rootId o = some i ↔ o.parentId ≠ rootId ∧ o.parentId = i := by
  unfold slot
  split_ifs <;> simp_all

lemma mem_kids {rootId : T} {s : Option T} {a : Atom T A} :
    a ∈ kids rootId ops s ↔ ∃ o ∈ ops, slot rootId o = s ∧ o.atom = a := by
  simp [kids, and_assoc]

lemma kids_append {rootId : T} {s : Option T} :
    kids rootId (p ++ q) s = kids rootId p s ++ kids rootId q s := by
  simp [kids]

lemma kids_singleton {rootId : T} {s : Option T} :
    kids rootId [o] s = if slot rootId o = s then [o.atom] else [] := by
  unfold kids
  split_ifs with h <;> simp [h]

lemma kids_perm {rootId : T} (h : l.Perm l') (s : Option T) :
    (kids rootId l s).Perm (kids rootId l' s) := (h.filter _).map _

/-- **One tree**: it does not depend on the order of the operations. -/
theorem CausalTree.Describes.unique (hw : ∀ s, Siblings st (kids root.id l s))
    (h : t.Describes st root l) (h' : t'.Describes st root l') (hp : l.Perm l') : t = t' := by
  have hg : Grown (Atom.Ahead st) (kids root.id l) none t'.children :=
    .mk h'.grown.sorted (h'.grown.all.trans (kids_perm hp none).symm)
      (grown_congr h'.grown.nested fun i _ => (kids_perm hp (some i)).symm)
  exact CausalTree.ext (h.atom.trans h'.atom.symm)
    (h.grown.unique (fun s x hx y hy => (hw s).asymm hx hy) hg)

lemma describes_leaf : (CausalTree.node root []).Describes st root [] :=
  ⟨rfl, .mk List.Pairwise.nil (List.Perm.refl _) (by simp [CausalTree.children]),
    by simp [CausalTree.children, forestIds]⟩

lemma CausalTree.Describes.nodup (h : t.Describes st root l)
    (hl : History (CausalTreeOp.Before st) (fun o => o.atom.id) l) :
    (forestIds t.children).Nodup := h.ids.nodup_iff.mpr hl.nodup

lemma CausalTree.Describes.below (h : t.Describes st root p)
    (hx : o.parentId = root.id ∨ ∃ x ∈ p, x.atom.id = o.parentId) :
    ∃ cs, t.Below o.parentId cs ∧
      Grown (Atom.Ahead st) (kids root.id p) (slot root.id o) cs := by
  by_cases hroot : o.parentId = root.id
  · rw [slot_eq_none.mpr hroot]
    exact ⟨t.children, Or.inl ⟨by rw [h.atom, hroot], rfl⟩, h.grown⟩
  · obtain ⟨x, hx, hid⟩ := hx.resolve_left hroot
    have hmem : o.parentId ∈ forestIds t.children :=
      h.ids.mem_iff.mpr (List.mem_map.mpr ⟨x, hx, hid⟩)
    obtain ⟨cs, hcs⟩ := exists_childrenAt hmem
    rw [slot_eq_some.mpr ⟨hroot, rfl⟩]
    exact ⟨cs, Or.inr ⟨fun heq => hroot (h.atom ▸ heq).symm, hcs⟩, hcs.grown h.grown.nested⟩

lemma Weavable.parent (h : Weavable st root.id (p ++ o :: q))
    (hr : Respects (CausalTreeOp.Before st) (p ++ o :: q)) :
    o.parentId = root.id ∨ ∃ x ∈ p, x.atom.id = o.parentId := by
  have ho : o ∈ p ++ o :: q := by simp
  refine (h.rooted o ho).imp_right ?_
  rintro ⟨x, hx, hid, hbefore⟩
  refine ⟨x, ?_, hid⟩
  rcases List.mem_append.mp hx with hx | hx
  · exact hx
  rcases List.mem_cons.mp hx with rfl | hx
  · exact absurd hbefore (h.history.irrefl x ho)
  · exact absurd hbefore ((respects_cons.mp (respects_append.mp hr).2.1).1 x hx)

lemma Weavable.kids_new (h : Weavable st root.id (p ++ o :: q))
    (hr : Respects (CausalTreeOp.Before st) (p ++ o :: q)) :
    kids root.id (p ++ [o]) (some o.atom.id) = [] := by
  refine List.eq_nil_iff_forall_not_mem.mpr fun a ha => ?_
  obtain ⟨x, hx, hslot, -⟩ := mem_kids.mp ha
  obtain ⟨hroot, hid⟩ := slot_eq_some.mp hslot
  have ho : o ∈ p ++ o :: q := by simp
  have hmem : x ∈ p ++ o :: q := by
    simp only [List.mem_append, List.mem_cons, List.not_mem_nil, or_false] at hx ⊢
    tauto
  obtain ⟨y, hy, hyid, hbefore⟩ := (h.rooted x hmem).resolve_left hroot
  obtain rfl : y = o := h.history.inj hy ho (hyid.trans hid)
  rcases List.mem_append.mp hx with hx | hx
  · exact (respects_append.mp hr).2.2 x hx y List.mem_cons_self hbefore
  · rw [List.mem_singleton.mp hx] at hbefore
    exact h.history.irrefl y ho hbefore

lemma grown_replaceAt {r : Atom T A → Atom T A → Prop} {i : T} {k k' : Option T → List (Atom T A)}
    {cs cs' ts : List (CausalTree T A)} (hn : (forestIds ts).Nodup) (h : ChildrenAt i cs ts)
    (hg : ∀ c ∈ ts, Grown r k (some c.atom.id) c.children)
    (hk : ∀ j, j ≠ i → k (some j) = k' (some j)) (hg' : Grown r k' (some i) cs') :
    ∀ c ∈ replaceAt i cs' ts, Grown r k' (some c.atom.id) c.children := by
  -- the nodes away from the path keep their children
  have hcongr : ∀ us, i ∉ forestIds us → (∀ c ∈ us, Grown r k (some c.atom.id) c.children) →
      ∀ c ∈ us, Grown r k' (some c.atom.id) c.children := fun us hi hus =>
    grown_congr hus fun j hj => List.Perm.of_eq (hk j (ne_of_mem_of_not_mem hj hi))
  induction h with
  | @here atom rest hid =>
    obtain ⟨⟨-, hr⟩, -⟩ := nodup_forestIds_cons.mp hn
    rw [List.forall_mem_cons] at hg
    rw [replaceAt_here hn hid, List.forall_mem_cons]
    exact ⟨hid ▸ hg', hcongr rest (hid ▸ hr) hg.2⟩
  | @inside atom children rest h ih =>
    obtain ⟨⟨hc, -⟩, hnc, -, hdisj⟩ := nodup_forestIds_cons.mp hn
    rw [List.forall_mem_cons] at hg
    rw [replaceAt_below hn h.mem_ids, List.forall_mem_cons]
    have hne : atom.id ≠ i := (ne_of_mem_of_not_mem h.mem_ids hc).symm
    refine ⟨.mk ?_ ?_ (ih hnc hg.1.nested), hcongr rest (hdisj i h.mem_ids) hg.2⟩
    · simpa only [CausalTree.children, map_atom_replaceAt] using hg.1.sorted
    · simpa only [CausalTree.children, CausalTree.atom, map_atom_replaceAt, hk _ hne]
        using hg.1.all
  | @later t rest h ih =>
    obtain ⟨atom, children⟩ := t
    obtain ⟨⟨-, hr⟩, -, hnr, hdisj⟩ := nodup_forestIds_cons.mp hn
    rw [List.forall_mem_cons] at hg
    rw [replaceAt_after hn h.mem_ids, List.forall_mem_cons]
    have hne : atom.id ≠ i := (ne_of_mem_of_not_mem h.mem_ids hr).symm
    refine ⟨.mk hg.1.sorted (hk _ hne ▸ hg.1.all) ?_, ih hnr hg.2⟩
    exact hcongr children (fun hc => hdisj i hc h.mem_ids) hg.1.nested

end History

/-! ### Runs -/

section Runs

variable {root : Atom T A} {ops l l' p q : List (CausalTreeOp T A)} {o : CausalTreeOp T A}
  {t : CausalTree T A}

/-- **One operation** of a history finds its parent and its place there. -/
theorem Weavable.apply (h : Weavable st root.id (p ++ o :: q))
    (hr : Respects (CausalTreeOp.Before st) (p ++ o :: q)) (ht : t.Describes st root p) :
    ∃ t', CRDT.apply st t o = .ok t' ∧ t'.Describes st root (p ++ [o]) := by
  have hsub : p.Sublist (p ++ o :: q) := List.sublist_append_left p (o :: q)
  have hn := ht.nodup (h.history.sublist hsub)
  obtain ⟨cs, hcs, hg⟩ := ht.below (h.parent hr)
  have hall : (cs.map CausalTree.atom ++ [o.atom]).Perm
      (kids root.id (p ++ [o]) (slot root.id o)) := by
    rw [kids_append, kids_singleton, if_pos rfl]
    exact hg.all.append_right _
  have hkids : (kids root.id (p ++ [o]) (slot root.id o)).Sublist
      (kids root.id (p ++ o :: q) (slot root.id o)) :=
    ((((List.nil_sublist q).cons_cons o).append_left p).filter _).map _
  have hsib : Siblings st (o.atom :: cs.map CausalTree.atom) :=
    ((h.siblings _).sublist hkids).perm (hall.symm.trans (List.perm_append_singleton _ _))
  have hnew : o.atom ∉ cs.map CausalTree.atom := fun hmem =>
    (List.nodup_cons.mp hsib.history.nodup).1 (List.mem_map_of_mem hmem)
  obtain ⟨l₁, l₂, rfl, hins, hsorted⟩ := insertAtom_of_sorted hsib hnew hg.sorted
  refine ⟨t.put o.parentId (l₁ ++ .node o.atom [] :: l₂), ?_, ?_⟩
  · rw [CausalTree.apply_of_below hn hcs, hins, ok_bind]
  -- below other nodes nothing changes
  have hother : ∀ s, slot root.id o ≠ s → kids root.id p s = kids root.id (p ++ [o]) s :=
    fun s hs => by rw [kids_append, kids_singleton, if_neg hs, List.append_nil]
  have hadd : (o.atom :: kids root.id p (slot root.id o)).Perm
      (kids root.id (p ++ [o]) (slot root.id o)) := by
    rw [kids_append, kids_singleton, if_pos rfl]
    exact (List.perm_append_singleton _ _).symm
  have hids : (o.atom.id :: forestIds t.children).Perm ((p ++ [o]).map fun o => o.atom.id) := by
    rw [List.map_append]
    exact (ht.ids.cons _).trans (List.perm_append_singleton _ _).symm
  rcases hcs with ⟨hroot, hcs⟩ | ⟨hroot, hcs⟩
  · have hslot : slot root.id o = none := slot_eq_none.mpr (ht.atom ▸ hroot).symm
    rw [hslot] at hg hother hadd
    unfold CausalTree.put
    rw [if_pos hroot]
    refine ⟨ht.atom, ?_, ?_⟩
    · exact hg.insert hsorted hadd (h.kids_new hr) fun i _ => hother (some i) (by simp)
    · exact forestIds_insert.trans (hcs ▸ hids)
  · have hne : o.parentId ≠ root.id := fun heq => hroot (ht.atom ▸ heq.symm)
    have hslot : slot root.id o = some o.parentId := slot_eq_some.mpr ⟨hne, rfl⟩
    rw [hslot] at hg hother hadd
    unfold CausalTree.put
    rw [if_neg hroot]
    have hplace := hg.insert hsorted hadd (h.kids_new hr) fun i hi =>
      hother (some i) fun heq => hcs.not_mem hn (Option.some.inj heq ▸ hi)
    refine ⟨ht.atom, .mk ?_ ?_ ?_, ?_⟩
    · simpa only [CausalTree.children, map_atom_replaceAt] using ht.grown.sorted
    · simpa only [CausalTree.children, map_atom_replaceAt, hother none (by simp)]
        using ht.grown.all
    · exact grown_replaceAt hn hcs ht.grown.nested (fun j hj => hother (some j) (by simpa using hj.symm))
        hplace
    · exact (forestIds_replaceAt hn hcs forestIds_insert).trans hids

/-- **A whole history**, and each part of it from the start. -/
theorem Weavable.foldlM (h : Weavable st root.id (p ++ q))
    (hr : Respects (CausalTreeOp.Before st) (p ++ q)) :
    ∃ t, p.foldlM (CRDT.apply st) (CausalTree.node root []) = .ok t ∧ t.Describes st root p := by
  induction p using List.reverseRecOn generalizing q with
  | nil => exact ⟨CausalTree.node root [], rfl, describes_leaf⟩
  | append_singleton p o ih =>
    rw [List.append_assoc, List.singleton_append] at h hr
    obtain ⟨t, ht, hdesc⟩ := ih h hr
    obtain ⟨t', ht', hdesc'⟩ := h.apply hr hdesc
    refine ⟨t', ?_, hdesc'⟩
    rw [List.foldlM_append, ht, ok_bind, List.foldlM_cons, ht']
    rfl

omit [BinarySearch] in
lemma Weavable.perm (h : Weavable st root.id l) (hp : l.Perm l') : Weavable st root.id l' where
  history := h.history.perm hp
  rooted o ho := (h.rooted o (hp.mem_iff.mpr ho)).imp_right fun ⟨x, hx, hxo⟩ =>
    ⟨x, hp.mem_iff.mp hx, hxo⟩
  siblings s := (h.siblings s).perm (kids_perm hp s)

/-- Any two orders of the operations that respect what happens before what end in one tree. -/
def CausalTree.Converges (st : CausalState T) (root : Atom T A) (ops : List (CausalTreeOp T A)) :
    Prop :=
  ∀ l l', l.Perm ops → l'.Perm ops → Respects (CausalTreeOp.Before st) l →
    Respects (CausalTreeOp.Before st) l' → ∃ t, l.foldlM (CRDT.apply st) (CausalTree.node root []) = .ok t ∧
      l'.foldlM (CRDT.apply st) (CausalTree.node root []) = .ok t

theorem Weavable.converges (h : Weavable st root.id ops) : CausalTree.Converges st root ops := by
  intro l l' hl hl' hr hr'
  have hw := h.perm hl.symm
  have hw' := h.perm hl'.symm
  rw [← List.append_nil l] at hw hr
  rw [← List.append_nil l'] at hw' hr'
  obtain ⟨t, ht, hdesc⟩ := hw.foldlM hr
  obtain ⟨t', ht', hdesc'⟩ := hw'.foldlM hr'
  rw [List.append_nil] at hw
  exact ⟨t, ht, hdesc.unique hw.siblings hdesc' (hl.trans hl'.symm) ▸ ht'⟩

end Runs

end Ossa.Crdt
