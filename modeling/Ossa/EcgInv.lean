import Ossa.Ecg

/-!
What every call of `insert_header` does, and the invariant it keeps.

A header is accepted when it validates, its id is new and all its parents are present; any
other call leaves the state as it was. On a well-formed state an accepted header is added to
the graph, the map, the tips and, if it has no parents, the roots, and the later error paths
of the function are never taken.
-/

namespace Ossa.Ecg

open Ossa.Loop Ossa.Collections Ossa.Dag

variable {HeaderId Header : Type} [LinearOrder HeaderId] [ECGHeader Header HeaderId]

namespace UntypedState

variable {s : UntypedState HeaderId Header} {h p c : HeaderId} {header : Header}
  {operations : RawECGBody} {info : NodeInfo Header} {infos : List (NodeInfo Header)}

omit [ECGHeader Header HeaderId] in
lemma contains_iff_getNode : s.contains h ↔ ∃ info, s.getNode h = some info := contains_iff

/-- `p` is listed as a parent by the header `h` of the state. -/
def Parent (s : UntypedState HeaderId Header) (p h : HeaderId) : Prop :=
  ∃ info, s.getNode h = some info ∧ p ∈ getParentIds info.header

/-- The header would be accepted by `insert_header`. -/
def Acceptable (s : UntypedState HeaderId Header) (header : Header) : Prop :=
  validateHeader header (getHeaderId header) = true ∧ ¬ s.contains (getHeaderId header) ∧
    ∀ p ∈ getParentIds header, s.contains p

instance : Decidable (s.Acceptable header) := inferInstanceAs (Decidable (_ ∧ _ ∧ _))

/-- The depth of a header whose parents have the given information. -/
def depthFor (infos : List (NodeInfo Header)) : ℕ := if infos.isEmpty then 1 else minDepth infos + 1

/-- The state after accepting a header whose parents have the given information. -/
def accept (s : UntypedState HeaderId Header) (header : Header) (operations : RawECGBody)
    (infos : List (NodeInfo Header)) : UntypedState HeaderId Header where
  dependencyGraph :=
    { nodes := s.dependencyGraph.nodes ++ [getHeaderId header]
      edges := ((infos.map NodeInfo.graphIndex).map
        fun i => (i, s.dependencyGraph.nodes.length)).reverse ++ s.dependencyGraph.edges }
  rootNodes := if infos.isEmpty then s.rootNodes.insert (getHeaderId header) else s.rootNodes
  nodeInfoMap := s.nodeInfoMap.insert (getHeaderId header)
    ⟨s.dependencyGraph.nodes.length, depthFor infos, header, operations⟩
  tips := ((getParentIds header).foldl Std.ExtTreeSet.erase s.tips).insert (getHeaderId header)

/-- The four structures of the state agree with the headers it has accepted. -/
structure WellFormed (s : UntypedState HeaderId Header) : Prop where
  index : ∀ {h info}, s.getNode h = some info →
    s.dependencyGraph.nodes[info.graphIndex]? = some h
  node : ∀ {i h}, s.dependencyGraph.nodes[i]? = some h →
    ∃ info, s.getNode h = some info ∧ info.graphIndex = i
  ids : ∀ {h info}, s.getNode h = some info → getHeaderId info.header = h
  valid : ∀ {h info}, s.getNode h = some info → validateHeader info.header h = true
  closed : ∀ {h p}, s.Parent p h → s.contains p
  edge : ∀ {i j}, s.dependencyGraph.Edge i j ↔ ∃ p h pinfo hinfo, s.getNode p = some pinfo ∧
    s.getNode h = some hinfo ∧ p ∈ getParentIds hinfo.header ∧ pinfo.graphIndex = i ∧
    hinfo.graphIndex = j
  ascending : StableDag.Ascending s.dependencyGraph.edges
  roots : ∀ {h}, h ∈ s.rootNodes ↔ ∃ info, s.getNode h = some info ∧ getParentIds info.header = []
  tips : ∀ {h}, h ∈ s.tips ↔ s.contains h ∧ ∀ c, ¬ s.Parent h c
  depth : ∀ {h info}, s.getNode h = some info →
    ∃ infos, (getParentIds info.header).mapM s.getNode = some infos ∧ info.depth = depthFor infos

lemma insertHeader_of_not_acceptable (h : ¬ s.Acceptable header) :
    s.insertHeader header operations = (s, false) := by
  unfold insertHeader
  by_cases hv : validateHeader header (getHeaderId header) = true
  swap
  · simp [hv]
  by_cases hc : s.contains (getHeaderId header)
  · simp [hv, hc]
  obtain ⟨p, hp, hpc⟩ : ∃ p ∈ getParentIds header, ¬ s.contains p := by
    by_contra hall
    exact h ⟨hv, hc, fun p hp => by by_contra hpc; exact hall ⟨p, hp, hpc⟩⟩
  have hne : (getParentIds header).isEmpty = false := by
    simpa using List.ne_nil_of_mem hp
  have hnone : (getParentIds header).mapM s.getNode = none := by
    by_contra hsome
    obtain ⟨infos, hinfos⟩ := Option.ne_none_iff_exists'.mp hsome
    obtain ⟨info, -, hinfo⟩ := exists_of_mapM hinfos hp
    exact hpc (contains_iff_getNode.mpr ⟨info, hinfo⟩)
  simp [hv, hc, linkParents, hne, hnone]

omit [ECGHeader Header HeaderId] in
lemma insertNode_eq {parentIdxs : List ℕ} {depth : ℕ} (hc : ¬ s.contains h)
    (hasc : StableDag.Ascending ((parentIdxs.map fun i => (i, s.dependencyGraph.nodes.length)).reverse
      ++ s.dependencyGraph.edges)) :
    s.insertNode h header operations parentIdxs depth =
      ({ s with
          dependencyGraph :=
            { nodes := s.dependencyGraph.nodes ++ [h]
              edges := (parentIdxs.map fun i => (i, s.dependencyGraph.nodes.length)).reverse
                ++ s.dependencyGraph.edges }
          nodeInfoMap := s.nodeInfoMap.insert h
            ⟨s.dependencyGraph.nodes.length, depth, header, operations⟩ }, true) := by
  have hmap : s.nodeInfoMap.contains h = false := Bool.eq_false_iff.mpr hc
  simp only [insertNode, StableDag.addNode, hmap, Bool.false_eq_true, if_false]
  rw [StableDag.addEdges_eq_some (g := ⟨s.dependencyGraph.nodes ++ [h], _⟩) hasc]

lemma WellFormed.ascending_accept (hs : s.WellFormed)
    (hinfos : (getParentIds header).mapM s.getNode = some infos) :
    StableDag.Ascending (s.accept header operations infos).dependencyGraph.edges := by
  intro e he
  rcases List.mem_append.mp he with he | he
  · obtain ⟨i, hi, rfl⟩ : ∃ i ∈ infos, (i.graphIndex, s.dependencyGraph.nodes.length) = e := by
      simpa using he
    obtain ⟨p, -, hp⟩ := (mem_of_mapM hinfos).mp hi
    exact (List.getElem?_eq_some_iff.mp (hs.index hp)).1
  · exact hs.ascending e he

/-- **Accepting a header**: on a well-formed state no later error path is taken. -/
theorem insertHeader_of_acceptable (hs : s.WellFormed) (h : s.Acceptable header)
    (hinfos : (getParentIds header).mapM s.getNode = some infos) :
    s.insertHeader header operations = (s.accept header operations infos, true) := by
  obtain ⟨hv, hc, -⟩ := h
  have hroot : s.rootNodes.contains (getHeaderId header) = false := by
    by_contra hr
    obtain ⟨info, hinfo, -⟩ := hs.roots.mp (by simpa using hr)
    exact hc (contains_iff_getNode.mpr ⟨info, hinfo⟩)
  have hasc : StableDag.Ascending (s.accept header operations infos).dependencyGraph.edges :=
    hs.ascending_accept hinfos
  have hempty := mapM_isEmpty hinfos
  by_cases hps : (getParentIds header).isEmpty
  · obtain rfl : infos = [] := by simpa using hempty.trans hps
    have hnil : getParentIds header = [] := by simpa using hps
    simp only [insertHeader, hv, Bool.not_true, Bool.false_eq_true, if_false, hc, linkParents, hps,
      if_true, hroot]
    refine (insertNode_eq ?_ ?_).trans ?_
    · exact hc
    · exact hasc
    · simp [accept, hnil, depthFor]
  · simp only [insertHeader, hv, Bool.not_true, Bool.false_eq_true, if_false, hc, linkParents, hps,
      hinfos]
    refine (insertNode_eq ?_ ?_).trans ?_
    · exact hc
    · exact hasc
    · simp [accept, hempty, hps, depthFor]

/-- What a call of `insert_header` on a well-formed state does. -/
theorem insertHeader_cases (hs : s.WellFormed) (header : Header) (operations : RawECGBody) :
    (¬ s.Acceptable header ∧ s.insertHeader header operations = (s, false)) ∨
    (s.Acceptable header ∧ ∃ infos, (getParentIds header).mapM s.getNode = some infos ∧
      s.insertHeader header operations = (s.accept header operations infos, true)) := by
  by_cases h : s.Acceptable header
  · obtain ⟨infos, hinfos⟩ := exists_mapM fun p hp => contains_iff_getNode.mp (h.2.2 p hp)
    exact Or.inr ⟨h, infos, hinfos, insertHeader_of_acceptable hs h hinfos⟩
  · exact Or.inl ⟨h, insertHeader_of_not_acceptable h⟩

/-! ### The invariant is kept -/

lemma getNode_accept : (s.accept header operations infos).getNode h =
    if h = getHeaderId header then
      some ⟨s.dependencyGraph.nodes.length, depthFor infos, header, operations⟩
    else s.getNode h := get_insert

lemma getNode_accept_of_contains (hc : ¬ s.contains (getHeaderId header))
    (h : s.getNode p = some info) :
    (s.accept header operations infos).getNode p = some info := by
  rw [getNode_accept, if_neg, h]
  rintro rfl
  exact hc (contains_iff_getNode.mpr ⟨info, h⟩)

lemma contains_accept : (s.accept header operations infos).contains h ↔
    h = getHeaderId header ∨ s.contains h := by
  simp only [contains_iff_getNode, getNode_accept]
  split_ifs with heq <;> simp [heq]

lemma parent_accept (hc : ¬ s.contains (getHeaderId header)) :
    (s.accept header operations infos).Parent p h ↔
      (h = getHeaderId header ∧ p ∈ getParentIds header) ∨ s.Parent p h := by
  unfold Parent
  rw [getNode_accept]
  by_cases heq : h = getHeaderId header
  · subst heq
    have hno : ∀ info, s.getNode (getHeaderId header) ≠ some info := fun info hi =>
      hc (contains_iff_getNode.mpr ⟨info, hi⟩)
    simp [hno]
  · simp [heq]

lemma mapM_getNode_accept (hc : ¬ s.contains (getHeaderId header)) {l : List HeaderId}
    {infos' : List (NodeInfo Header)} (h : l.mapM s.getNode = some infos') :
    l.mapM (s.accept header operations infos).getNode = some infos' := by
  induction l generalizing infos' with
  | nil => exact h
  | cons a l ih =>
    obtain ⟨b, t, hb, ht, rfl⟩ := mapM_cons_eq_some.mp h
    exact mapM_cons_eq_some.mpr ⟨b, t, getNode_accept_of_contains hc hb, ih ht, rfl⟩

lemma wellFormed_new : (new : UntypedState HeaderId Header).WellFormed := by
  have hno : ∀ h, (new : UntypedState HeaderId Header).getNode h = none := fun h =>
    Std.ExtTreeMap.getElem?_empty
  have hnoc : ∀ h, ¬ (new : UntypedState HeaderId Header).contains h := fun h hc => by
    simp [contains_iff_getNode, hno] at hc
  have hnodes : (new : UntypedState HeaderId Header).dependencyGraph.nodes = [] := rfl
  have hedges : (new : UntypedState HeaderId Header).dependencyGraph.edges = [] := rfl
  have hroots : (new : UntypedState HeaderId Header).rootNodes = ∅ := rfl
  have htips : (new : UntypedState HeaderId Header).tips = ∅ := rfl
  constructor <;> simp [hno, hnoc, hnodes, hedges, hroots, htips, StableDag.Edge,
    StableDag.Ascending, Parent]

lemma edge_accept {i j : ℕ} : (s.accept header operations infos).dependencyGraph.Edge i j ↔
    (∃ info ∈ infos, info.graphIndex = i ∧ s.dependencyGraph.nodes.length = j) ∨
      s.dependencyGraph.Edge i j := by
  simp [StableDag.Edge, accept]

lemma WellFormed.index_accept (hs : s.WellFormed)
    (hi : (s.accept header operations infos).getNode h = some info) :
    (s.accept header operations infos).dependencyGraph.nodes[info.graphIndex]? = some h := by
  rw [getNode_accept] at hi
  split_ifs at hi with heq
  · cases hi
    simp [UntypedState.accept, heq]
  · have hindex := hs.index hi
    rw [UntypedState.accept, List.getElem?_append_left (List.getElem?_eq_some_iff.mp hindex).1]
    exact hindex

lemma WellFormed.node_accept (hs : s.WellFormed) (hc : ¬ s.contains (getHeaderId header)) {i : ℕ}
    (hi : (s.accept header operations infos).dependencyGraph.nodes[i]? = some h) :
    ∃ info, (s.accept header operations infos).getNode h = some info ∧ info.graphIndex = i := by
  simp only [UntypedState.accept] at hi
  rcases Nat.lt_or_ge i s.dependencyGraph.nodes.length with hlt | hge
  · rw [List.getElem?_append_left hlt] at hi
    obtain ⟨info, hinfo, rfl⟩ := hs.node hi
    exact ⟨info, getNode_accept_of_contains hc hinfo, rfl⟩
  · rw [List.getElem?_append_right hge, List.getElem?_singleton] at hi
    split_ifs at hi with h0
    cases hi
    refine ⟨_, by rw [getNode_accept, if_pos rfl], ?_⟩
    simp only
    omega

lemma WellFormed.exists_edge_accept (hs : s.WellFormed) (h : s.Acceptable header)
    (hinfos : (getParentIds header).mapM s.getNode = some infos) {i j : ℕ} :
    (s.accept header operations infos).dependencyGraph.Edge i j ↔ ∃ p h pinfo hinfo,
      (s.accept header operations infos).getNode p = some pinfo ∧
      (s.accept header operations infos).getNode h = some hinfo ∧
      p ∈ getParentIds hinfo.header ∧ pinfo.graphIndex = i ∧ hinfo.graphIndex = j := by
  obtain ⟨-, hc, hps⟩ := h
  rw [edge_accept]
  constructor
  · rintro (⟨pinfo, hp, rfl, rfl⟩ | he)
    · obtain ⟨p, hpm, hpi⟩ := (mem_of_mapM hinfos).mp hp
      exact ⟨p, getHeaderId header, pinfo, _, getNode_accept_of_contains hc hpi,
        by rw [getNode_accept, if_pos rfl], hpm, rfl, rfl⟩
    · obtain ⟨p, h, pinfo, hinfo, hp, hh, hmem, rfl, rfl⟩ := hs.edge.mp he
      exact ⟨p, h, pinfo, hinfo, getNode_accept_of_contains hc hp,
        getNode_accept_of_contains hc hh, hmem, rfl, rfl⟩
  · rintro ⟨p, h, pinfo, hinfo, hp, hh, hmem, rfl, rfl⟩
    rw [getNode_accept] at hh
    split_ifs at hh with heq
    · cases hh
      obtain ⟨info, hinfo⟩ := contains_iff_getNode.mp (hps p hmem)
      rw [getNode_accept_of_contains hc hinfo] at hp
      cases hp
      exact Or.inl ⟨_, (mem_of_mapM hinfos).mpr ⟨p, hmem, hinfo⟩, rfl, rfl⟩
    · have hpc : s.contains p := hs.closed ⟨hinfo, hh, hmem⟩
      obtain ⟨info, hinfo'⟩ := contains_iff_getNode.mp hpc
      rw [getNode_accept_of_contains hc hinfo'] at hp
      cases hp
      exact Or.inr (hs.edge.mpr ⟨p, h, _, hinfo, hinfo', hh, hmem, rfl, rfl⟩)

lemma WellFormed.roots_accept (hs : s.WellFormed) (hc : ¬ s.contains (getHeaderId header))
    (hinfos : (getParentIds header).mapM s.getNode = some infos) :
    h ∈ (s.accept header operations infos).rootNodes ↔
      ∃ info, (s.accept header operations infos).getNode h = some info ∧
        getParentIds info.header = [] := by
  have hroots : h ∈ (s.accept header operations infos).rootNodes ↔
      (h = getHeaderId header ∧ getParentIds header = []) ∨ h ∈ s.rootNodes := by
    simp only [UntypedState.accept, mapM_isEmpty hinfos, List.isEmpty_iff]
    split_ifs with hnil
    · rw [mem_insert]; simp [hnil]
    · simp [hnil]
  rw [hroots, hs.roots, getNode_accept]
  by_cases heq : h = getHeaderId header
  · subst heq
    have hno : ∀ info, s.getNode (getHeaderId header) ≠ some info := fun info hi =>
      hc (contains_iff_getNode.mpr ⟨info, hi⟩)
    simp [hno]
  · simp [heq]

lemma WellFormed.tips_accept (hs : s.WellFormed) (h' : s.Acceptable header) :
    h ∈ (s.accept header operations infos).tips ↔
      (s.accept header operations infos).contains h ∧
        ∀ c, ¬ (s.accept header operations infos).Parent h c := by
  obtain ⟨-, hc, hps⟩ := h'
  have hself : getHeaderId header ∉ getParentIds header := fun hm => hc (hps _ hm)
  rw [contains_accept]
  simp only [UntypedState.accept, mem_insert, mem_foldl_erase, hs.tips]
  constructor
  · rintro (rfl | ⟨hnp, hh, hno⟩)
    · refine ⟨Or.inl rfl, fun c hp => ?_⟩
      rcases (parent_accept hc).mp hp with ⟨-, hp⟩ | hp
      · exact hself hp
      · exact hc (hs.closed hp)
    · refine ⟨Or.inr hh, fun c hp => ?_⟩
      rcases (parent_accept hc).mp hp with ⟨-, hp⟩ | hp
      · exact hnp hp
      · exact hno c hp
  · rintro ⟨rfl | hh, hno⟩
    · exact Or.inl rfl
    · refine Or.inr ⟨fun hp => hno _ ((parent_accept hc).mpr (Or.inl ⟨rfl, hp⟩)), hh, fun c hp => ?_⟩
      exact hno c ((parent_accept hc).mpr (Or.inr hp))

/-- **Accepting a header keeps the state well-formed.** -/
theorem WellFormed.accept (hs : s.WellFormed) (h : s.Acceptable header)
    (hinfos : (getParentIds header).mapM s.getNode = some infos) :
    (s.accept header operations infos).WellFormed := by
  have ⟨hv, hc, hps⟩ := h
  constructor
  case index => exact hs.index_accept
  case node => exact hs.node_accept hc
  case ids =>
    intro h info hi
    rw [getNode_accept] at hi
    split_ifs at hi with heq
    · cases hi; exact heq.symm
    · exact hs.ids hi
  case valid =>
    intro h info hi
    rw [getNode_accept] at hi
    split_ifs at hi with heq
    · cases hi; rwa [heq]
    · exact hs.valid hi
  case closed =>
    intro h p hp
    rw [contains_accept]
    rcases (parent_accept hc).mp hp with ⟨-, hp⟩ | hp
    · exact Or.inr (hps p hp)
    · exact Or.inr (hs.closed hp)
  case edge => exact hs.exists_edge_accept h hinfos
  case ascending => exact hs.ascending_accept hinfos
  case roots => exact hs.roots_accept hc hinfos
  case tips => exact hs.tips_accept h
  case depth =>
    intro h info hi
    rw [getNode_accept] at hi
    split_ifs at hi with heq
    · cases hi
      exact ⟨infos, mapM_getNode_accept hc hinfos, rfl⟩
    · obtain ⟨infos', hm, hd⟩ := hs.depth hi
      exact ⟨infos', mapM_getNode_accept hc hm, hd⟩

/-- **Every call of `insert_header` keeps the state well-formed.** -/
theorem WellFormed.insertHeader (hs : s.WellFormed) (header : Header) (operations : RawECGBody) :
    (s.insertHeader header operations).1.WellFormed := by
  rcases insertHeader_cases hs header operations with ⟨-, h⟩ | ⟨ha, infos, hinfos, h⟩
  · rwa [h]
  · rw [h]; exact hs.accept ha hinfos

/-! ### What the accessors answer -/

lemma WellFormed.rank_lt (hs : s.WellFormed) {pinfo : NodeInfo Header}
    (hp : s.getNode p = some pinfo) (hh : s.getNode h = some info)
    (hmem : p ∈ getParentIds info.header) : pinfo.graphIndex < info.graphIndex :=
  hs.ascending _ (hs.edge.mpr ⟨p, h, pinfo, info, hp, hh, hmem, rfl, rfl⟩)

lemma WellFormed.nodeWeight (hs : s.WellFormed) (hh : s.getNode h = some info) :
    s.dependencyGraph.nodeWeight info.graphIndex = some h := hs.index hh

lemma WellFormed.graphIndex_inj (hs : s.WellFormed) {pinfo : NodeInfo Header}
    (hp : s.getNode p = some pinfo) (hh : s.getNode h = some info)
    (heq : pinfo.graphIndex = info.graphIndex) : p = h := by
  have := hs.nodeWeight hp
  rw [heq, hs.nodeWeight hh] at this
  exact (Option.some.inj this).symm

lemma WellFormed.edge_iff (hs : s.WellFormed) {pinfo : NodeInfo Header}
    (hp : s.getNode p = some pinfo) (hh : s.getNode h = some info) :
    s.dependencyGraph.Edge pinfo.graphIndex info.graphIndex ↔ p ∈ getParentIds info.header := by
  rw [hs.edge]
  constructor
  · rintro ⟨p', h', pinfo', info', hp', hh', hmem, hpi, hhi⟩
    obtain rfl := hs.graphIndex_inj hp' hp hpi
    obtain rfl := hs.graphIndex_inj hh' hh hhi
    rw [hh] at hh'
    cases hh'
    exact hmem
  · exact fun hmem => ⟨p, h, pinfo, info, hp, hh, hmem, rfl, rfl⟩

lemma WellFormed.withDepth (hs : s.WellFormed) (hh : s.getNode h = some info) :
    s.withDepth info.graphIndex = some (info.depth, h) := by
  simp [UntypedState.withDepth, hs.nodeWeight hh, getHeaderDepth, hh]

lemma WellFormed.source (hs : s.WellFormed) {i j : ℕ} (he : s.dependencyGraph.Edge i j) :
    ∃ p pinfo, s.getNode p = some pinfo ∧ pinfo.graphIndex = i := by
  obtain ⟨p, -, pinfo, -, hp, -, -, hi, -⟩ := hs.edge.mp he
  exact ⟨p, pinfo, hp, hi⟩

lemma WellFormed.target (hs : s.WellFormed) {i j : ℕ} (he : s.dependencyGraph.Edge i j) :
    ∃ h info, s.getNode h = some info ∧ info.graphIndex = j := by
  obtain ⟨-, h, -, info, -, hh, -, -, hj⟩ := hs.edge.mp he
  exact ⟨h, info, hh, hj⟩

lemma WellFormed.getParents (hs : s.WellFormed) (hh : s.getNode h = some info) :
    ∃ ps, s.getParents h = some ps ∧ ∀ p, p ∈ ps ↔ p ∈ getParentIds info.header := by
  obtain ⟨ps, hps⟩ : ∃ ps, (s.dependencyGraph.parents info.graphIndex).mapM
      s.dependencyGraph.nodeWeight = some ps := exists_mapM fun i hi => by
    obtain ⟨p, pinfo, hp, rfl⟩ := hs.source (StableDag.mem_parents.mp hi)
    exact ⟨p, hs.nodeWeight hp⟩
  refine ⟨ps, by simp [UntypedState.getParents, hh, hps], fun p => ?_⟩
  rw [mem_of_mapM hps]
  constructor
  · rintro ⟨i, hi, hpi⟩
    have he := StableDag.mem_parents.mp hi
    obtain ⟨p', pinfo, hp, rfl⟩ := hs.source he
    rw [hs.nodeWeight hp] at hpi
    cases hpi
    exact (hs.edge_iff hp hh).mp he
  · intro hp
    obtain ⟨pinfo, hpinfo⟩ := contains_iff_getNode.mp (hs.closed ⟨info, hh, hp⟩)
    exact ⟨_, StableDag.mem_parents.mpr ((hs.edge_iff hpinfo hh).mpr hp), hs.nodeWeight hpinfo⟩

lemma WellFormed.getParentsWithDepth (hs : s.WellFormed) (hh : s.getNode h = some info) :
    ∃ ps, s.getParentsWithDepth h = some ps ∧ ∀ d p, (d, p) ∈ ps ↔
      p ∈ getParentIds info.header ∧ s.getHeaderDepth p = some d := by
  obtain ⟨ps, hps⟩ : ∃ ps, (s.dependencyGraph.parents info.graphIndex).mapM s.withDepth =
      some ps := exists_mapM fun i hi => by
    obtain ⟨p, pinfo, hp, rfl⟩ := hs.source (StableDag.mem_parents.mp hi)
    exact ⟨_, hs.withDepth hp⟩
  refine ⟨ps, by simp [UntypedState.getParentsWithDepth, hh, hps], fun d p => ?_⟩
  rw [mem_of_mapM hps]
  constructor
  · rintro ⟨i, hi, hpi⟩
    have he := StableDag.mem_parents.mp hi
    obtain ⟨p', pinfo, hp, rfl⟩ := hs.source he
    rw [hs.withDepth hp] at hpi
    cases hpi
    exact ⟨(hs.edge_iff hp hh).mp he, by simp [getHeaderDepth, hp]⟩
  · rintro ⟨hp, hd⟩
    obtain ⟨pinfo, hpinfo⟩ := contains_iff_getNode.mp (hs.closed ⟨info, hh, hp⟩)
    refine ⟨_, StableDag.mem_parents.mpr ((hs.edge_iff hpinfo hh).mpr hp), ?_⟩
    rw [hs.withDepth hpinfo]
    simpa [getHeaderDepth, hpinfo] using hd

lemma WellFormed.getChildrenWithDepth (hs : s.WellFormed) (hh : s.getNode h = some info) :
    ∃ cs, s.getChildrenWithDepth h = some cs ∧ ∀ d c, (d, c) ∈ cs ↔
      s.Parent h c ∧ s.getHeaderDepth c = some d := by
  obtain ⟨cs, hcs⟩ : ∃ cs, (s.dependencyGraph.children info.graphIndex).mapM s.withDepth =
      some cs := exists_mapM fun i hi => by
    obtain ⟨c, cinfo, hc, rfl⟩ := hs.target (StableDag.mem_children.mp hi)
    exact ⟨_, hs.withDepth hc⟩
  refine ⟨cs, by simp [UntypedState.getChildrenWithDepth, hh, hcs], fun d c => ?_⟩
  rw [mem_of_mapM hcs]
  constructor
  · rintro ⟨i, hi, hci⟩
    have he := StableDag.mem_children.mp hi
    obtain ⟨c', cinfo, hc, rfl⟩ := hs.target he
    rw [hs.withDepth hc] at hci
    cases hci
    exact ⟨⟨cinfo, hc, (hs.edge_iff hh hc).mp he⟩, by simp [getHeaderDepth, hc]⟩
  · rintro ⟨⟨cinfo, hc, hmem⟩, hd⟩
    refine ⟨_, StableDag.mem_children.mpr ((hs.edge_iff hh hc).mpr hmem), ?_⟩
    rw [hs.withDepth hc]
    simpa [getHeaderDepth, hc] using hd

lemma WellFormed.isRootNode (hs : s.WellFormed) (hh : s.getNode h = some info) :
    s.isRootNode h ↔ getParentIds info.header = [] := by
  rw [UntypedState.isRootNode, Std.ExtTreeSet.contains_iff_mem, hs.roots]
  simp [hh]

/-! ### Growth -/

/-- `t` keeps every header of `s`, with all that is known about it. -/
def Grows (s t : UntypedState HeaderId Header) : Prop :=
  ∀ h info, s.getNode h = some info → t.getNode h = some info

variable {t : UntypedState HeaderId Header}

omit [ECGHeader Header HeaderId] in
lemma Grows.refl (s : UntypedState HeaderId Header) : s.Grows s := fun _ _ h => h

omit [ECGHeader Header HeaderId] in
lemma Grows.trans {u : UntypedState HeaderId Header} (hg : s.Grows t) (hg' : t.Grows u) :
    s.Grows u :=
  fun h info hinfo => hg' h info (hg h info hinfo)

omit [ECGHeader Header HeaderId] in
lemma Grows.contains (hg : s.Grows t) (hc : s.contains h) : t.contains h := by
  obtain ⟨info, hinfo⟩ := contains_iff_getNode.mp hc
  exact contains_iff_getNode.mpr ⟨info, hg h info hinfo⟩

omit [ECGHeader Header HeaderId] in
lemma Grows.depth (hg : s.Grows t) {d : ℕ} (hd : s.getHeaderDepth h = some d) :
    t.getHeaderDepth h = some d := by
  obtain ⟨info, hinfo, rfl⟩ := Option.map_eq_some_iff.mp hd
  simp [getHeaderDepth, hg h info hinfo]

/-- A call of `insert_header` loses no header, and adds at most the one it is given. -/
lemma WellFormed.getNode_insertHeader (hs : s.WellFormed) (header : Header)
    (operations : RawECGBody) : s.Grows (s.insertHeader header operations).1 ∧
      ∀ h info, (s.insertHeader header operations).1.getNode h = some info →
        s.getNode h = some info ∨ h = getHeaderId header ∧ info.header = header := by
  rcases insertHeader_cases hs header operations with ⟨-, h⟩ | ⟨ha, infos, hinfos, h⟩
  · rw [h]
    exact ⟨fun _ _ h => h, fun _ _ h => Or.inl h⟩
  · rw [h]
    refine ⟨fun p info hp => getNode_accept_of_contains ha.2.1 hp, fun p info hp => ?_⟩
    rw [getNode_accept] at hp
    split_ifs at hp with heq
    · cases hp
      exact Or.inr ⟨heq, rfl⟩
    · exact Or.inl hp

/-! ### Ancestors, and the accessors in terms of them -/

/-- `a` is the header `h` or one of its ancestors. -/
abbrev AncestorOrSelf (s : UntypedState HeaderId Header) (a h : HeaderId) : Prop :=
  Relation.ReflTransGen s.Parent a h

/-- The position of a header in the order of insertion. -/
def rank (s : UntypedState HeaderId Header) (h : HeaderId) : ℕ :=
  ((s.getNode h).map NodeInfo.graphIndex).getD 0

/-- The headers inserted after a header. -/
def corank (s : UntypedState HeaderId Header) (h : HeaderId) : ℕ :=
  s.dependencyGraph.nodes.length - s.rank h

lemma Parent.contains (h : s.Parent p c) : s.contains c := by
  obtain ⟨info, hinfo, -⟩ := h
  exact contains_iff_getNode.mpr ⟨info, hinfo⟩

lemma WellFormed.rank_lt_rank (hs : s.WellFormed) (h : s.Parent p c) : s.rank p < s.rank c := by
  obtain ⟨pinfo, hp⟩ := contains_iff_getNode.mp (hs.closed h)
  obtain ⟨info, hc, hmem⟩ := h
  simpa [rank, hp, hc] using hs.rank_lt hp hc hmem

omit [ECGHeader Header HeaderId] in
lemma contains_iff_depth : s.contains h ↔ ∃ d, s.getHeaderDepth h = some d := by
  rw [contains_iff_getNode, getHeaderDepth]
  cases s.getNode h <;> simp

lemma WellFormed.corank_lt_corank (hs : s.WellFormed) (h : s.Parent p c) :
    s.corank c < s.corank p := by
  obtain ⟨info, hc⟩ := contains_iff_getNode.mp h.contains
  have hlt := (List.getElem?_eq_some_iff.mp (hs.index hc)).1
  have := hs.rank_lt_rank h
  simp only [corank, rank, hc, Option.map_some, Option.getD_some] at this ⊢
  omega

lemma AncestorOrSelf.contains (hs : s.WellFormed) {a : HeaderId} (h : s.AncestorOrSelf a c)
    (hc : s.contains c) : s.contains a := by
  induction h using Relation.ReflTransGen.head_induction_on with
  | refl => exact hc
  | head hp _ _ => exact hs.closed hp

/-- Every header is an ancestor of a tip: by induction on the headers inserted after it. -/
lemma WellFormed.exists_tip (hs : s.WellFormed) (hc : s.contains h) :
    ∃ t ∈ s.tips, s.AncestorOrSelf h t := by
  induction hn : s.corank h using Nat.strong_induction_on generalizing h with
  | _ n ih =>
    subst hn
    by_cases htip : ∀ c, ¬ s.Parent h c
    · exact ⟨h, hs.tips.mpr ⟨hc, htip⟩, .refl⟩
    · obtain ⟨c, hp⟩ := not_forall_not.mp htip
      obtain ⟨t, ht, hanc⟩ := ih _ (hs.corank_lt_corank hp) hp.contains rfl
      exact ⟨t, ht, .head hp hanc⟩

/-- A graph that has grown without losing or gaining a tip has gained nothing. -/
theorem Grows.contains_of_tips (hs : s.WellFormed) (ht : t.WellFormed) (hg : s.Grows t)
    (htips : ∀ x, x ∈ t.tips → x ∈ s.tips) (hc : t.contains h) : s.contains h := by
  obtain ⟨x, hx, hanc⟩ := ht.exists_tip hc
  have hxs : s.contains x := (hs.tips.mp (htips x hx)).1
  induction hanc using Relation.ReflTransGen.head_induction_on with
  | refl => exact hxs
  | @head a b hp _ ih =>
    -- the parents of a header that was there are the ones it had
    obtain ⟨info, hinfo⟩ := contains_iff_getNode.mp (ih hp.contains)
    obtain ⟨info', hinfo', hmem⟩ := hp
    rw [hg b info hinfo] at hinfo'
    cases hinfo'
    exact hs.closed ⟨info, hinfo, hmem⟩

lemma WellFormed.parents (hs : s.WellFormed) (hc : s.contains h) :
    ∃ ps, s.getParents h = some ps ∧ ∀ p, p ∈ ps ↔ s.Parent p h := by
  obtain ⟨info, hh⟩ := contains_iff_getNode.mp hc
  obtain ⟨ps, hps, hmem⟩ := hs.getParents hh
  exact ⟨ps, hps, fun p => by rw [hmem, Parent]; simp [hh]⟩

lemma WellFormed.parentsWithDepth (hs : s.WellFormed) (hc : s.contains h) :
    ∃ ps, s.getParentsWithDepth h = some ps ∧
      ∀ d p, (d, p) ∈ ps ↔ s.Parent p h ∧ s.getHeaderDepth p = some d := by
  obtain ⟨info, hh⟩ := contains_iff_getNode.mp hc
  obtain ⟨ps, hps, hmem⟩ := hs.getParentsWithDepth hh
  exact ⟨ps, hps, fun d p => by rw [hmem, Parent]; simp [hh]⟩

lemma WellFormed.childrenWithDepth (hs : s.WellFormed) (hc : s.contains h) :
    ∃ cs, s.getChildrenWithDepth h = some cs ∧
      ∀ d c, (d, c) ∈ cs ↔ s.Parent h c ∧ s.getHeaderDepth c = some d := by
  obtain ⟨info, hh⟩ := contains_iff_getNode.mp hc
  exact hs.getChildrenWithDepth hh

omit [ECGHeader Header HeaderId] in
lemma contains_of_getParents {ps : List HeaderId} (h' : s.getParents h = some ps) :
    s.contains h := by
  rw [contains_iff_getNode]
  unfold getParents at h'
  cases hi : s.getNode h with
  | none => simp [hi] at h'
  | some info => exact ⟨info, rfl⟩

omit [ECGHeader Header HeaderId] in
lemma contains_of_getParentsWithDepth {ps : List (ℕ × HeaderId)}
    (h' : s.getParentsWithDepth h = some ps) : s.contains h := by
  rw [contains_iff_getNode]
  unfold getParentsWithDepth at h'
  cases hi : s.getNode h with
  | none => simp [hi] at h'
  | some info => exact ⟨info, rfl⟩

omit [ECGHeader Header HeaderId] in
lemma contains_of_getChildrenWithDepth {cs : List (ℕ × HeaderId)}
    (h' : s.getChildrenWithDepth h = some cs) : s.contains h := by
  rw [contains_iff_getNode]
  unfold getChildrenWithDepth at h'
  cases hi : s.getNode h with
  | none => simp [hi] at h'
  | some info => exact ⟨info, rfl⟩

end UntypedState

end Ossa.Ecg
