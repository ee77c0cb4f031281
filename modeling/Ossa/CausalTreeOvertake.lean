import Ossa.CausalTreeOrder

/-!
Siblings that overtake one another, and what they do to a causal tree.

The third of them is put next to two others that the comparator places on the wrong sides of it,
whichever of two comes last, so the binary search is asked the same question in both orders.
-/

namespace Ossa.Crdt

open Ossa.Loop Ossa.Linearize Relation

variable {T A : Type} {st : CausalState T} {root : Atom T A} {rootId : T}
  {ops l l' : List (CausalTreeOp T A)} {a b c o x y z : CausalTreeOp T A}

/-- Operations of which the causal order is known, with distinct atoms below known parents. -/
structure Insertable (st : CausalState T) (rootId : T) (ops : List (CausalTreeOp T A)) : Prop where
  history : History (CausalTreeOp.Before st) (fun o => o.atom.id) ops
  answers : ∀ x ∈ ops, ∀ y ∈ ops, Answers st x.atom.id y.atom.id
  rooted : Rooted st rootId ops

lemma Insertable.perm (h : Insertable st rootId l) (hp : l.Perm l') : Insertable st rootId l' where
  history := h.history.perm hp
  answers x hx y hy := h.answers x (hp.mem_iff.mpr hx) y (hp.mem_iff.mpr hy)
  rooted o ho := (h.rooted o (hp.mem_iff.mpr ho)).imp_right fun ⟨x, hx, hxo⟩ =>
    ⟨x, hp.mem_iff.mp hx, hxo⟩

lemma Insertable.sublist (h : Insertable st rootId l) (hs : l'.Sublist l)
    (hr : Rooted st rootId l') : Insertable st rootId l' :=
  ⟨h.history.sublist hs, fun x hx y hy => h.answers x (hs.subset hx) y (hs.subset hy), hr⟩

lemma Insertable.concurrent_iff (h : Insertable st rootId ops) (hx : x ∈ ops) (hy : y ∈ ops) :
    concurrent st x.atom.id y.atom.id = .ok true ↔
      ¬ CausalTreeOp.Before st x y ∧ ¬ CausalTreeOp.Before st y x :=
  concurrent_eq_true (h.answers x hx y hy) (h.answers y hy x hx)

variable [LinearOrder T]

/-- Some sibling overtakes: its time lies between the times of two others of its kind that are
concurrent with it, the earlier of which has the greater time. -/
def SiblingsOvertake (st : CausalState T) (ops : List (CausalTreeOp T A)) : Prop :=
  ∃ a ∈ ops, ∃ b ∈ ops, ∃ c ∈ ops, a.parentId = b.parentId ∧ b.parentId = c.parentId ∧
    a.atom.letter.rank = b.atom.letter.rank ∧ b.atom.letter.rank = c.atom.letter.rank ∧
    Precedes st a.atom.id b.atom.id ∧ concurrent st b.atom.id c.atom.id = .ok true ∧
    concurrent st a.atom.id c.atom.id = .ok true ∧ b.atom.id < c.atom.id ∧ c.atom.id < a.atom.id

lemma Insertable.weavable (h : Insertable st rootId ops)
    (hc : ∀ s k, ¬ Cyclic (Atom.Before st) Atom.id
      ((kids rootId ops s).filter fun x => x.letter.rank = k)) : Weavable st rootId ops where
  history := h.history
  rooted := h.rooted
  siblings s := by
    refine ⟨⟨?_, ?_, ?_⟩, ?_, hc s⟩
    · intro _ hx
      obtain ⟨x, hx', -, rfl⟩ := mem_kids.mp hx
      exact h.history.irrefl x hx'
    · intro _ hx _ hy _ hz
      obtain ⟨x, hx', -, rfl⟩ := mem_kids.mp hx
      obtain ⟨y, hy', -, rfl⟩ := mem_kids.mp hy
      obtain ⟨z, hz', -, rfl⟩ := mem_kids.mp hz
      exact h.history.trans x hx' y hy' z hz'
    · have hn := h.history.nodup.sublist ((List.filter_sublist (l := ops)
        (p := fun o => slot rootId o = s)).map fun o => o.atom.id)
      rwa [kids, List.map_map]
    · intro _ hx _ hy
      obtain ⟨x, hx', -, rfl⟩ := mem_kids.mp hx
      obtain ⟨y, hy', -, rfl⟩ := mem_kids.mp hy
      exact h.answers x hx' y hy'

lemma parentId_of_slot {s : Option T} (hx : slot rootId x = s) (hy : slot rootId y = s) :
    x.parentId = y.parentId := by
  cases s with
  | none => exact (slot_eq_none.mp hx).trans (slot_eq_none.mp hy).symm
  | some i => exact (slot_eq_some.mp hx).2.trans (slot_eq_some.mp hy).2.symm

/-- **If nothing overtakes**, the history makes one tree. -/
theorem Insertable.converges [BinarySearch] (h : Insertable st root.id ops)
    (ho : ¬ SiblingsOvertake st ops) : CausalTree.Converges st root ops := by
  refine (h.weavable fun s k hc => ho ?_).converges
  obtain ⟨_, ha, _, hb, _, hc, hover⟩ := hc
  simp only [List.mem_filter, decide_eq_true_eq, mem_kids] at ha hb hc
  obtain ⟨⟨a, ha, hsa, rfl⟩, hka⟩ := ha
  obtain ⟨⟨b, hb, hsb, rfl⟩, hkb⟩ := hb
  obtain ⟨⟨c, hc, hsc, rfl⟩, hkc⟩ := hc
  exact ⟨a, ha, b, hb, c, hc, parentId_of_slot hsa hsb, parentId_of_slot hsb hsc,
    hka.trans hkb.symm, hkb.trans hkc.symm, hover.causal,
    (h.concurrent_iff hb hc).mpr ⟨hover.not_bc, hover.not_cb⟩,
    (h.concurrent_iff ha hc).mpr ⟨hover.not_ac, hover.not_ca⟩, hover.key_bc, hover.key_ca⟩

lemma Insertable.compare (h : Insertable st rootId ops) (hx : x ∈ ops) (hy : y ∈ ops)
    (hk : x.atom.letter.rank = y.atom.letter.rank)
    (hxy : Later (Atom.Before st) Atom.id x.atom y.atom) :
    compareAtom st x.atom y.atom = .ok .lt ∧ compareAtom st y.atom x.atom = .ok .gt := by
  have hnot : ¬ Precedes st y.atom.id x.atom.id := by
    rcases hxy with hxy | ⟨hyx, -⟩
    · exact fun hyx => h.history.irrefl x hx (h.history.trans x hx y hy x hx hxy hyx)
    · exact hyx
  rw [compareAtom_eq, compareAtom_eq, if_neg hk.not_lt, if_neg hk.not_gt, if_neg hk.not_gt,
    if_neg hk.not_lt]
  exact ⟨compareWithTiebreak_lt (h.answers x hx y hy) (h.answers y hy x hx) hxy,
    compareWithTiebreak_gt (h.answers y hy x hx) (h.answers x hx y hy) hnot
      (hxy.imp_right And.right)⟩

/-! ### The ancestors of an atom -/

/-- Operation `y` puts in the parent of `x`. -/
def Up (rootId : T) (ops : List (CausalTreeOp T A)) (x y : CausalTreeOp T A) : Prop :=
  y ∈ ops ∧ slot rootId x = some y.atom.id

namespace Insertable

lemma up_before (h : Insertable st rootId ops) (hx : x ∈ ops) (hxy : Up rootId ops x y) :
    CausalTreeOp.Before st y x := by
  obtain ⟨hy, hslot⟩ := hxy
  obtain ⟨hroot, hid⟩ := slot_eq_some.mp hslot
  obtain ⟨z, hz, hzid, hbefore⟩ := (h.rooted x hx).resolve_left hroot
  obtain rfl : z = y := h.history.inj hz hy (hzid.trans hid)
  exact hbefore

lemma ups_before (h : Insertable st rootId ops) (hx : x ∈ ops)
    (hxy : TransGen (Up rootId ops) x y) : y ∈ ops ∧ CausalTreeOp.Before st y x := by
  induction hxy with
  | single hup => exact ⟨hup.1, h.up_before hx hup⟩
  | @tail y z _ hup ih =>
    obtain ⟨hy, hyx⟩ := ih
    exact ⟨hup.1, h.history.trans z hup.1 y hy x hx (h.up_before hy hup) hyx⟩

lemma ups_slot (h : Insertable st rootId ops) (hx : x ∈ ops) (hxy : TransGen (Up rootId ops) x y) :
    slot rootId x ≠ slot rootId y := by
  intro hslot
  obtain ⟨z, hup, hzy⟩ := TransGen.head'_iff.mp hxy
  obtain ⟨hy, -⟩ := h.ups_before hx hxy
  -- the parent of `x` is the parent of `y`, and `y` is this parent or above it
  have hyz : Up rootId ops y z := ⟨hup.1, hslot ▸ hup.2⟩
  have hcycle : TransGen (Up rootId ops) y y := TransGen.head' hyz hzy
  exact h.history.irrefl y hy (h.ups_before hy hcycle).2

lemma ups_unique (h : Insertable st rootId ops) (ha : a ∈ ops)
    (hx : TransGen (Up rootId ops) a x) (hy : TransGen (Up rootId ops) a y)
    (hslot : slot rootId x = slot rootId y) : x = y := by
  have hright : Relator.RightUnique (Up rootId ops) := fun x y z hy hz =>
    h.history.inj hy.1 hz.1 (Option.some.inj (hy.2.symm.trans hz.2))
  rcases ReflTransGen.total_of_right_unique hright hx.to_reflTransGen hy.to_reflTransGen with
    hxy | hyx
  · rcases reflTransGen_iff_eq_or_transGen.mp hxy with heq | hxy
    · exact heq.symm
    · exact absurd hslot (h.ups_slot (h.ups_before ha hx).1 hxy)
  · rcases reflTransGen_iff_eq_or_transGen.mp hyx with heq | hyx
    · exact heq
    · exact absurd hslot.symm (h.ups_slot (h.ups_before ha hy).1 hyx)

end Insertable

/-- The ancestors of `a`, in an order that respects what happens before what, and after them some
siblings of `a`. -/
structure Family (st : CausalState T) (rootId : T) (ops : List (CausalTreeOp T A))
    (a : CausalTreeOp T A) (p q : List (CausalTreeOp T A)) : Prop where
  ancestor : ∀ x, x ∈ p ↔ TransGen (Up rootId ops) a x
  sibling : ∀ x ∈ q, x ∈ ops ∧ slot rootId x = slot rootId a
  nodup : p.Nodup ∧ q.Nodup
  respects : Respects (CausalTreeOp.Before st) p

namespace Family

variable {p q : List (CausalTreeOp T A)}

lemma up_of_mem (h : Family st rootId ops a p q) (hx : x ∈ q) (hy : y ∈ p) :
    TransGen (Up rootId ops) x y := by
  obtain ⟨z, hup, hzy⟩ := TransGen.head'_iff.mp ((h.ancestor y).mp hy)
  exact TransGen.head' ⟨hup.1, (h.sibling x hx).2 ▸ hup.2⟩ hzy

lemma mem_ops (h : Family st rootId ops a p q) (hops : Insertable st rootId ops) (ha : a ∈ ops)
    (hx : x ∈ p ++ q) : x ∈ ops := by
  rcases List.mem_append.mp hx with hx | hx
  · exact (hops.ups_before ha ((h.ancestor x).mp hx)).1
  · exact (h.sibling x hx).1

lemma not_mem (h : Family st rootId ops a p q) (hops : Insertable st rootId ops) (ha : a ∈ ops)
    (hx : x ∈ p) (hy : y ∈ q) : x ≠ y := by
  rintro rfl
  exact hops.ups_slot ha ((h.ancestor x).mp hx) (h.sibling x hy).2.symm

lemma insertable (h : Family st rootId ops a p q) (hops : Insertable st rootId ops)
    (ha : a ∈ ops) : Insertable st rootId (p ++ q) := by
  have hmem : ∀ x ∈ p ++ q, x ∈ ops := fun x => h.mem_ops hops ha
  refine ⟨hops.history.of_mem hmem ?_, fun x hx y hy => hops.answers x (hmem x hx) y (hmem y hy),
    fun x hx => ?_⟩
  · exact List.nodup_append.mpr ⟨h.nodup.1, h.nodup.2, fun x hx y hy => h.not_mem hops ha hx hy⟩
  by_cases hroot : x.parentId = rootId
  · exact Or.inl hroot
  obtain ⟨y, hy, hid, hbefore⟩ := (hops.rooted x (hmem x hx)).resolve_left hroot
  have hup : Up rootId ops x y := ⟨hy, slot_eq_some.mpr ⟨hroot, hid.symm⟩⟩
  refine Or.inr ⟨y, List.mem_append_left q ((h.ancestor y).mpr ?_), hid, hbefore⟩
  rcases List.mem_append.mp hx with hx | hx
  · exact ((h.ancestor x).mp hx).tail hup
  · exact .single ⟨hy, (h.sibling x hx).2 ▸ hup.2⟩

lemma respects_append (h : Family st rootId ops a p q) (hops : Insertable st rootId ops)
    (hq : Respects (CausalTreeOp.Before st) q) : Respects (CausalTreeOp.Before st) (p ++ q) := by
  refine Linearize.respects_append.mpr ⟨h.respects, hq, fun x hx y hy hyx => ?_⟩
  have hyo := (h.sibling y hy).1
  obtain ⟨hxo, hxy⟩ := hops.ups_before hyo (h.up_of_mem hy hx)
  exact hops.history.irrefl x hxo (hops.history.trans x hxo y hyo x hxo hxy hyx)

lemma alone (h : Family st rootId ops a p q) (hops : Insertable st rootId ops) (ha : a ∈ ops)
    (hx : x ∈ p) (hy : y ∈ p ++ q) (hslot : slot rootId x = slot rootId y) : x = y := by
  have hax := (h.ancestor x).mp hx
  rcases List.mem_append.mp hy with hy | hy
  · exact hops.ups_unique ha hax ((h.ancestor y).mp hy) hslot
  · exact absurd (hslot.trans (h.sibling y hy).2).symm (hops.ups_slot ha hax)

lemma kids_eq (h : Family st rootId ops a p q) (hops : Insertable st rootId ops) (ha : a ∈ ops) :
    kids rootId (p ++ q) (slot rootId a) = q.map CausalTreeOp.atom := by
  have hp : (p.filter fun o => slot rootId o = slot rootId a) = [] := by
    refine List.filter_eq_nil_iff.mpr fun x hx => ?_
    simpa using (hops.ups_slot ha ((h.ancestor x).mp hx)).symm
  have hq : (q.filter fun o => slot rootId o = slot rootId a) = q :=
    List.filter_eq_self.mpr fun x hx => by simpa using (h.sibling x hx).2
  rw [kids, List.filter_append, hp, hq, List.nil_append]

lemma weavable (h : Family st rootId ops a p [y, z]) (hops : Insertable st rootId ops)
    (ha : a ∈ ops) : Weavable st rootId (p ++ [y, z]) := by
  refine (h.insertable hops ha).weavable fun s k hc => ?_
  obtain ⟨_, hu, _, hv, _, hw, hover⟩ := hc
  simp only [List.mem_filter, decide_eq_true_eq, mem_kids] at hu hv hw
  obtain ⟨⟨u, hu, hsu, rfl⟩, -⟩ := hu
  obtain ⟨⟨v, hv, hsv, rfl⟩, -⟩ := hv
  obtain ⟨⟨w, hw, hsw, rfl⟩, -⟩ := hw
  have huv : u ≠ v := by
    rintro rfl
    exact lt_asymm hover.key_bc hover.key_ca
  have hvw : v ≠ w := by
    rintro rfl
    exact lt_irrefl _ hover.key_bc
  have huw : u ≠ w := by
    rintro rfl
    exact lt_irrefl _ hover.key_ca
  -- none of the three is an ancestor, so two of them are the same sibling
  have hsib : ∀ {m n}, m ∈ p ++ [y, z] → n ∈ p ++ [y, z] → slot rootId m = s →
      slot rootId n = s → m ≠ n → m = y ∨ m = z := by
    intro m n hm hn hsm hsn hne
    rcases List.mem_append.mp hm with hmp | hmq
    · exact absurd (h.alone hops ha hmp hn (hsm.trans hsn.symm)) hne
    · simpa using hmq
  rcases hsib hu hv hsu hsv huv with rfl | rfl <;> rcases hsib hv hw hsv hsw hvw with rfl | rfl <;>
    rcases hsib hw hu hsw hsu huw.symm with rfl | rfl <;> contradiction

end Family

/-! ### Two orders of three siblings -/

section Two

variable [BinarySearch] {p : List (CausalTreeOp T A)} {cs cs' : List (CausalTree T A)}
  {t : CausalTree T A} {i : Atom T A}

/-- What a sibling that is inserted depends on: the answers of the comparator. -/
lemma insertAtom_inv (h : insertAtom st cs i = .ok cs') : ∃ answers l₁ l₂, cs = l₁ ++ l₂ ∧
    cs' = l₁ ++ .node i [] :: l₂ ∧ cs.mapM (fun ct => compareAtom st ct.atom i) = .ok answers ∧
    binarySearchBy answers = .error l₁.length := by
  unfold insertAtom at h
  obtain ⟨answers, hanswers, h⟩ := bind_eq_ok.mp h
  split at h
  · rename_i index hindex
    split_ifs at h with hle
    cases h
    refine ⟨answers, cs.take index, cs.drop index, (List.take_append_drop index cs).symm, ?_,
      hanswers, by rw [hindex, List.length_take, min_eq_left hle]⟩
    have hins := insertIdx_append_length (cs.take index) (cs.drop index) (.node i [])
    rwa [List.take_append_drop, List.length_take, min_eq_left hle] at hins
  · cases h

/-- **The third sibling** is put next to the other two by what they answer. -/
lemma Family.third {u v : CausalTreeOp T A} (h : Family st root.id ops a p [u, v])
    (hops : Insertable st root.id ops) (ha : a ∈ ops)
    (hr : Respects (CausalTreeOp.Before st) [u, v]) (hperm : [u, v].Perm [x, y])
    (hxy : x.atom.Ahead st y.atom) (hx : compareAtom st x.atom o.atom = .ok .gt)
    (hy : compareAtom st y.atom o.atom = .ok .lt) (ho : slot root.id o = slot root.id a)
    (hnew : o.atom.id ∉ (p ++ [u, v]).map fun o => o.atom.id)
    (hfold : (p ++ [u, v, o]).foldlM (CRDT.apply st) (CausalTree.node root []) = .ok t) :
    ∃ l₁ l₂, (l₁ ++ l₂).map CausalTree.atom = [x.atom, y.atom] ∧
      binarySearchBy [.gt, .lt] = .error l₁.length ∧
      t.Below a.parentId (l₁ ++ .node o.atom [] :: l₂) ∧ (forestIds t.children).Nodup := by
  have hw := h.weavable hops ha
  have hr' := h.respects_append hops hr
  obtain ⟨t₂, ht₂, hdesc⟩ := (show Weavable st root.id (p ++ [u, v] ++ []) by
    rwa [List.append_nil]).foldlM (by rwa [List.append_nil])
  have hn := hdesc.nodup hw.history
  have hparent : o.parentId = root.id ∨ ∃ z ∈ p ++ [u, v], z.atom.id = o.parentId := by
    have hu : u ∈ p ++ [u, v] := by simp
    have hslot := (h.sibling u List.mem_cons_self).2.trans ho.symm
    rw [← parentId_of_slot hslot rfl]
    exact (hw.rooted u hu).imp_right fun ⟨z, hz, hid, _⟩ => ⟨z, hz, hid⟩
  obtain ⟨cs, hcs, hg⟩ := hdesc.below hparent
  -- the two stand in their order
  have hkids := h.kids_eq hops ha
  have hall : (cs.map CausalTree.atom).Perm [x.atom, y.atom] := by
    have hp := hg.all
    rw [ho, hkids] at hp
    exact hp.trans (hperm.map _)
  have hatoms : cs.map CausalTree.atom = [x.atom, y.atom] := by
    have hsib := (hw.siblings (slot root.id a)).perm ((List.Perm.of_eq hkids).trans (hperm.map _))
    refine List.Perm.eq_of_pairwise (fun m n hm hn hmn hnm => ?_) hg.sorted (by simpa using hxy)
      hall
    exact absurd hnm (hsib.asymm (hall.mem_iff.mp hm) hn hmn)
  have hsplit : (p ++ [u, v, o]) = (p ++ [u, v]) ++ [o] := by simp
  rw [hsplit, List.foldlM_append, ht₂, ok_bind, List.foldlM_cons,
    CausalTree.apply_of_below hn hcs] at hfold
  obtain ⟨t', ht', hfold⟩ := bind_eq_ok.mp hfold
  cases hfold
  obtain ⟨cs', hins, ht'⟩ := bind_eq_ok.mp ht'
  cases ht'
  obtain ⟨answers, l₁, l₂, rfl, rfl, hanswers, hsearch⟩ := insertAtom_inv hins
  have hgl : answers = [.gt, .lt] := by
    have hmap : ((l₁ ++ l₂).map CausalTree.atom).mapM (fun i => compareAtom st i o.atom) =
        .ok answers := by rwa [List.mapM_map]
    rw [hatoms] at hmap
    simp only [List.mapM_cons, List.mapM_nil, hx, hy, ok_bind, pure_eq_ok] at hmap
    exact (Except.ok.inj hmap).symm
  refine ⟨l₁, l₂, hatoms, hgl ▸ hsearch, ?_, ?_⟩
  · rw [← parentId_of_slot ho rfl]
    exact hcs.put hn
  · rw [(hcs.ids_put hn forestIds_insert).nodup_iff, List.nodup_cons]
    exact ⟨fun hmem => hnew (hdesc.ids.mem_iff.mp hmem), hn⟩

/-- **Three that overtake** make two trees with their ancestors. -/
theorem Insertable.not_converges (h : Insertable st root.id ops) (ho : SiblingsOvertake st ops) :
    ∃ part : List (CausalTreeOp T A), part.Sublist ops ∧ Rooted st root.id part ∧
      ¬ CausalTree.Converges st root part := by
  classical
  obtain ⟨a, ha, b, hb, c, hc, hpab, hpbc, hkab, hkbc, hab, hbc, hac, hlt, hlt'⟩ := ho
  obtain ⟨hnbc, hncb⟩ := (h.concurrent_iff hb hc).mp hbc
  obtain ⟨hnac, hnca⟩ := (h.concurrent_iff ha hc).mp hac
  have hnba : ¬ CausalTreeOp.Before st b a := fun hba =>
    h.history.irrefl a ha (h.history.trans a ha b hb a ha hab hba)
  have hsb : slot root.id b = slot root.id a := by unfold slot; rw [hpab]
  have hsc : slot root.id c = slot root.id a := by unfold slot; rw [hpab, hpbc]
  have hne : a ≠ b ∧ a ≠ c ∧ b ≠ c :=
    ⟨fun heq => hnba (heq ▸ hab), fun heq => (heq ▸ hlt').false, fun heq => (heq ▸ hlt).false⟩
  have hups := h.history.sublist (List.filter_sublist (p := fun x => TransGen (Up root.id ops) a x))
  obtain ⟨p, hp, hrp⟩ := exists_respects _ hups.irrefl hups.trans
  have hanc : ∀ x, x ∈ p ↔ TransGen (Up root.id ops) a x := fun x => by
    rw [hp.mem_iff, List.mem_filter, decide_eq_true_eq, and_iff_right_of_imp]
    exact fun hx => (h.ups_before ha hx).1
  have hnodup : ops.Nodup := h.history.nodup.of_map _
  have hpn : p.Nodup := hp.nodup_iff.mpr (hnodup.filter _)
  have hfam : ∀ q : List (CausalTreeOp T A), q.Nodup → (∀ x ∈ q, x = a ∨ x = b ∨ x = c) →
      Family st root.id ops a p q := by
    refine fun q hqn hq => ⟨hanc, fun x hx => ?_, ⟨hpn, hqn⟩, hrp⟩
    rcases hq x hx with rfl | rfl | rfl
    · exact ⟨ha, rfl⟩
    · exact ⟨hb, hsb⟩
    · exact ⟨hc, hsc⟩
  have hfabc := hfam [a, b, c] (by simp [hne]) (by simp)
  have hins := hfabc.insertable h ha
  have hpart : (p ++ [a, b, c]).Perm (ops.filter fun x => x ∈ p ++ [a, b, c]) := by
    rw [List.perm_ext_iff_of_nodup (hins.history.nodup.of_map _) (hnodup.filter _)]
    intro x
    rw [List.mem_filter, decide_eq_true_eq, and_iff_right_of_imp]
    exact fun hx => hfabc.mem_ops h ha hx
  refine ⟨_, List.filter_sublist, (hins.perm hpart).rooted, fun hconv => ?_⟩
  have hpart' : (p ++ [a, c, b]).Perm (ops.filter fun x => x ∈ p ++ [a, b, c]) :=
    (((List.Perm.swap b c []).cons a).append_left p).trans hpart
  have hresp : Respects (CausalTreeOp.Before st) [a, b, c] := by
    simp [Respects, hnba, hnca, hncb]
  have hresp' : Respects (CausalTreeOp.Before st) [a, c, b] := by
    simp [Respects, hnba, hnca, hnbc]
  have hfacb := hfam [a, c, b] (by simp [hne, hne.2.2.symm]) (by simp)
  obtain ⟨t, ht, ht'⟩ := hconv _ _ hpart hpart' (hfabc.respects_append h hresp)
    (hfacb.respects_append h hresp')
  -- the comparator says `a < b < c < a`
  have hlab : Later (Atom.Before st) Atom.id a.atom b.atom := Or.inl hab
  have hlbc : Later (Atom.Before st) Atom.id b.atom c.atom := Or.inr ⟨hncb, hlt⟩
  have hlca : Later (Atom.Before st) Atom.id c.atom a.atom := Or.inr ⟨hnac, hlt'⟩
  have hkca := (hkab.trans hkbc).symm
  obtain ⟨hcab, -⟩ := h.compare ha hb hkab hlab
  obtain ⟨hcbc, hccb⟩ := h.compare hb hc hkbc hlbc
  obtain ⟨-, hcac⟩ := h.compare hc ha hkca hlca
  have hnew : ∀ {u v w}, (p ++ [u, v, w]).Perm (ops.filter fun x => x ∈ p ++ [a, b, c]) →
      w.atom.id ∉ (p ++ [u, v]).map fun o => o.atom.id := by
    intro u v w hperm
    have hn := ((hins.perm hpart).perm hperm.symm).history.nodup
    rw [List.append_cons, List.append_cons, List.map_append, List.nodup_append] at hn
    intro hmem
    exact hn.2.2 _ (by simpa using hmem) _ (by simp) rfl
  have hfab := hfam [a, b] (by simp [hne]) (by simp)
  have hfac := hfam [a, c] (by simp [hne]) (by simp)
  obtain ⟨l₁, l₂, -, hsearch, hbelow, hn⟩ := hfab.third h ha (by simp [Respects, hnba])
    (List.Perm.refl _) (Or.inr ⟨hkab, hlab⟩) hcac hcbc hsc (hnew hpart) ht
  obtain ⟨l₁', l₂', -, hsearch', hbelow', -⟩ := hfac.third h ha (by simp [Respects, hnca])
    (List.Perm.swap c a []) (Or.inr ⟨hkca, hlca⟩) hccb hcab hsb (hnew hpart') ht'
  -- the same place for both, in the same row
  have hrow := hbelow.unique hn hbelow'
  have hlen : l₁.length = l₁'.length := Except.error.inj (hsearch.symm.trans hsearch')
  obtain ⟨-, htail⟩ := List.append_inj hrow hlen
  have hatom : c.atom = b.atom := congrArg CausalTree.atom (List.cons.inj htail).1
  exact hlt.ne (congrArg Atom.id hatom.symm)

/-- **A causal tree converges unless a sibling overtakes**, and only then. -/
theorem Insertable.converges_iff (h : Insertable st root.id ops) :
    (∀ part : List (CausalTreeOp T A), part.Sublist ops → Rooted st root.id part →
      CausalTree.Converges st root part) ↔ ¬ SiblingsOvertake st ops := by
  constructor
  · intro hall ho
    obtain ⟨part, hsub, hrooted, hnot⟩ := h.not_converges ho
    exact hnot (hall part hsub hrooted)
  · rintro ho part hsub hrooted
    refine (h.sublist hsub hrooted).converges ?_
    rintro ⟨a, ha, b, hb, c, hc, hrest⟩
    exact ho ⟨a, hsub.subset ha, b, hsub.subset hb, c, hsub.subset hc, hrest⟩

end Two

end Ossa.Crdt

namespace Ossa.Ecg

open Ossa.Loop Ossa.Crdt Ossa.Linearize

variable {HeaderId Header A : Type} [LinearOrder HeaderId] [ECGHeader Header HeaderId]
  {s : UntypedState HeaderId Header}

/-- **Causal trees converge unless a sibling overtakes**: for any graph, any root, and any
operations with distinct atoms of its headers, each below the root or what happens before it. -/
theorem causalTree_converges_iff [BinarySearch] (hs : s.WellFormed)
    (root : Atom (OperationId HeaderId) A) (ops : List (CausalTreeOp (OperationId HeaderId) A))
    (hnodup : (ops.map fun o => o.atom.id).Nodup) (hknown : ∀ o ∈ ops, Known s o.atom.id)
    (hrooted : Rooted (toCausalState s) root.id ops) :
    (∀ part : List (CausalTreeOp (OperationId HeaderId) A), part.Sublist ops →
      Rooted (toCausalState s) root.id part →
        CausalTree.Converges (toCausalState s) root part) ↔
      ¬ SiblingsOvertake (toCausalState s) ops := by
  have hist : History (CausalTreeOp.Before (toCausalState s)) (fun o => o.atom.id) ops := by
    refine ⟨fun x _ => not_precedes_self x.atom.id, fun x hx y hy z hz hxy hyz => ?_, hnodup⟩
    have hxy' := (precedes_iff hs (hknown x hx) (hknown y hy)).mp hxy
    have hyz' := (precedes_iff hs (hknown y hy) (hknown z hz)).mp hyz
    exact (precedes_iff hs (hknown x hx) (hknown z hz)).mpr (before_trans hs hxy' hyz')
  have hins : Insertable (toCausalState s) root.id ops :=
    ⟨hist, fun x hx y hy => answers hs (hknown x hx) (hknown y hy), hrooted⟩
  exact hins.converges_iff

/-! ### Three inserts below the root -/

section Overtaking

open V0

/-- Narrow a range to one entry: keep the half that may hold the last one not greater. -/
def halve (answers : List Ordering) : ℕ → ℕ → ℕ → ℕ
  | 0, _, base => base
  | n + 1, size, base =>
    if size ≤ 1 then base
    else
      halve answers n (size - size / 2)
        (if answers[base + size / 2]? = some .gt then base else base + size / 2)

def halving (answers : List Ordering) : Except ℕ ℕ :=
  match answers[halve answers answers.length answers.length 0]? with
  | some .eq => .ok (halve answers answers.length answers.length 0)
  | some .lt => .error (halve answers answers.length answers.length 0 + 1)
  | some .gt => .error (halve answers answers.length answers.length 0)
  | none => .error 0

lemma halve_eq {answers : List Ordering} {k n size base : ℕ}
    (hk : ∀ i, i < answers.length → (answers[i]? = some .gt ↔ k ≤ i)) (hn : size ≤ n + 1)
    (hb : base = 0 ∨ base < k) (hsize : k ≤ base + size) (hlen : base + size ≤ answers.length) :
    halve answers n size base = k - 1 := by
  induction n generalizing size base with
  | zero => simp only [halve]; omega
  | succ n ih =>
    rw [halve]
    split_ifs with h₁ h₂
    · omega
    · have hmid := (hk (base + size / 2) (by omega)).mp h₂
      exact ih (by omega) hb (by omega) (by omega)
    · have hmid : ¬ k ≤ base + size / 2 := fun hle => h₂ ((hk _ (by omega)).mpr hle)
      exact ih (by omega) (Or.inr (by omega)) (by omega) (by omega)

/-- What a sorted vector answers. -/
def row (m k n : ℕ) : List Ordering := .replicate m .lt ++ .replicate k .eq ++ .replicate n .gt

lemma getElem?_row {m k n i : ℕ} (hi : i < m + k + n) :
    (row m k n)[i]? = some (if i < m then .lt else if i < m + k then .eq else .gt) := by
  unfold row
  split_ifs with h₁ h₂
  · simp [List.getElem?_append, h₁]
  · simp [List.getElem?_append, h₁, show i - m < k by omega]
  · simp [List.getElem?_append, h₁, show ¬ i - m < k by omega, show i - m - k < n by omega]

lemma length_row (m k n : ℕ) : (row m k n).length = m + k + n := by
  simp [row, add_assoc]

lemma halve_row (m k n : ℕ) : halve (row m k n) (row m k n).length (row m k n).length 0 =
    m + k - 1 := by
  have hlen := length_row m k n
  refine halve_eq (fun i hi => ?_) (by omega) (Or.inl rfl) (by omega) (by omega)
  rw [getElem?_row (by omega)]
  split_ifs with h₁ h₂
  · simp; omega
  · simp; omega
  · simp; omega

lemma halving_row (m k n : ℕ) : halving (row m k n) =
    if k = 0 then .error m else .ok (m + k - 1) := by
  unfold halving
  rw [halve_row]
  by_cases hall : m + k + n = 0
  · obtain ⟨rfl, rfl, rfl⟩ : m = 0 ∧ k = 0 ∧ n = 0 := by omega
    rfl
  rw [getElem?_row (by omega)]
  by_cases hk : k = 0
  · subst hk
    by_cases hm : m = 0
    · simp [hm]
    · simp [show m - 1 < m by omega, show m - 1 + 1 = m by omega]
  · simp [hk, show ¬ m + k - 1 < m by omega, show m + k - 1 < m + k by omega]

/-- Halving does what a binary search has to. -/
instance : BinarySearch where
  binarySearchBy := halving
  absent m n := by
    have hrow : .replicate m .lt ++ .replicate n .gt = row m 0 n := by simp [row]
    rw [hrow, halving_row, if_pos rfl]
  found m k n hk := by
    refine ⟨m + k - 1, by omega, by omega, ?_⟩
    exact (halving_row m k n).trans (if_neg (by omega))

def below (h : ℕ) : CausalTreeOp (OperationId ℕ) ℕ :=
  ⟨firstOf none, ⟨firstOf (some h), .letter h⟩⟩

def leaf (h : ℕ) : CausalTree (OperationId ℕ) ℕ := .node (below h).atom []

def trunk : Atom (OperationId ℕ) ℕ := ⟨firstOf none, .root⟩

lemma below_known {h : ℕ} (hh : overtaking.contains h) : Known overtaking (below h).atom.id := by
  rintro _ ⟨⟩
  exact hh

lemma below_rooted (l : List ℕ) : Rooted (toCausalState overtaking) trunk.id (l.map below) := by
  intro o ho
  obtain ⟨h, -, rfl⟩ := List.mem_map.mp ho
  exact Or.inl rfl

theorem causalTree_converges_iff_overtaking :
    CausalTree.Converges (toCausalState overtaking) trunk [below 5, below 3, below 6] := by
  have hrooted := below_rooted [5, 3, 6]
  refine (causalTree_converges_iff overtaking_wellFormed trunk [below 5, below 3, below 6]
    (by decide) ?_ hrooted).mpr ?_ _ (List.Sublist.refl _) hrooted
  · simp only [List.forall_mem_cons]
    exact ⟨below_known (by decide), below_known (by decide), below_known (by decide), by simp⟩
  · unfold SiblingsOvertake
    decide

/-- **Two orders of three inserts** end in different trees. -/
theorem causalTree_diverges : ¬ ∀ (s : UntypedState ℕ TestHeader)
    (root : Atom (OperationId ℕ) ℕ) (ops : List (CausalTreeOp (OperationId ℕ) ℕ)),
    s.WellFormed → (ops.map fun o => o.atom.id).Nodup → (∀ o ∈ ops, Known s o.atom.id) →
      Rooted (toCausalState s) root.id ops →
        CausalTree.Converges (toCausalState s) root ops := by
  intro hall
  have hconv := hall overtaking trunk [below 5, below 3, below 4] overtaking_wellFormed (by decide)
    (by
      simp only [List.forall_mem_cons]
      exact ⟨below_known (by decide), below_known (by decide), below_known (by decide), by simp⟩)
    (below_rooted [5, 3, 4])
  have hr : Respects (CausalTreeOp.Before (toCausalState overtaking))
      [below 5, below 3, below 4] := by
    unfold Respects CausalTreeOp.Before
    decide
  have hr' : Respects (CausalTreeOp.Before (toCausalState overtaking))
      [below 5, below 4, below 3] := by
    unfold Respects CausalTreeOp.Before
    decide
  obtain ⟨t, h₁, h₂⟩ := hconv _ _ (List.Perm.refl _) (by decide) hr hr'
  have h₁' : [below 5, below 3, below 4].foldlM (CRDT.apply (toCausalState overtaking))
      (CausalTree.node trunk []) = .ok (.node trunk [leaf 5, leaf 3, leaf 4]) := rfl
  have h₂' : [below 5, below 4, below 3].foldlM (CRDT.apply (toCausalState overtaking))
      (CausalTree.node trunk []) = .ok (.node trunk [leaf 4, leaf 5, leaf 3]) := rfl
  have heq := Except.ok.inj (h₁'.symm.trans (h₁.trans (h₂.symm.trans h₂')))
  exact absurd (congrArg (fun t => t.children.map CausalTree.atom) heq) (by decide)

end Overtaking

end Ossa.Ecg
