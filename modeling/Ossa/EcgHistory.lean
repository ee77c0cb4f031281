import Mathlib.Order.Bounds.Basic
import Ossa.EcgInv

/-!
The graph as a function of the accepted headers.

A history is any sequence of calls of `insert_header` from the empty state, successes and
failures mixed. The list of the accepted headers determines everything the state holds, and
all of it but the numbering of the nodes depends only on which headers these are.
-/

namespace Ossa.Ecg

open Ossa.Loop Ossa.Collections Ossa.Dag

variable {HeaderId Header : Type} [LinearOrder HeaderId] [ECGHeader Header HeaderId]

/-- The state after a sequence of calls of `insert_header`. -/
def insertAll (s : UntypedState HeaderId Header) (calls : List (Header × RawECGBody)) :
    UntypedState HeaderId Header :=
  calls.foldl (fun s call => (s.insertHeader call.1 call.2).1) s

/-- The headers that a sequence of calls of `insert_header` accepts, in order. -/
def accepted (s : UntypedState HeaderId Header) : List (Header × RawECGBody) → List Header
  | [] => []
  | call :: calls =>
    match s.insertHeader call.1 call.2 with
    | (s', true) => call.1 :: accepted s' calls
    | (s', false) => accepted s' calls

/-- An edge between the headers `p` and `c`, as `equal_dags` of the source reads it. -/
def HasEdge (s : UntypedState HeaderId Header) (p c : HeaderId) : Prop :=
  ∃ i j, s.dependencyGraph.Edge i j ∧ s.dependencyGraph.nodeWeight i = some p ∧
    s.dependencyGraph.nodeWeight j = some c

/-- The state is the one the accepted headers `A`, in this order, describe. -/
structure Describes (s : UntypedState HeaderId Header) (A : List Header) : Prop where
  acyclic : s.dependencyGraph.Acyclic
  nodes : s.dependencyGraph.nodes = A.map getHeaderId
  distinct : (A.map getHeaderId).Nodup
  edges : ∀ p c, HasEdge s p c ↔ ∃ header ∈ A, getHeaderId header = c ∧ p ∈ getParentIds header
  roots : ∀ h, h ∈ s.rootNodes ↔ ∃ header ∈ A, getHeaderId header = h ∧ getParentIds header = []
  tips : ∀ h, h ∈ s.tips ↔ h ∈ A.map getHeaderId ∧ ∀ header ∈ A, h ∉ getParentIds header
  rootDepth : ∀ header ∈ A, getParentIds header = [] → s.getHeaderDepth (getHeaderId header) = some 1
  depth : ∀ header ∈ A, getParentIds header ≠ [] → ∃ d,
    IsLeast {d | ∃ p ∈ getParentIds header, s.getHeaderDepth p = some d} d ∧
      s.getHeaderDepth (getHeaderId header) = some (d + 1)
  accepts : ∀ header operations, (s.insertHeader header operations).2 = true ↔
    validateHeader header (getHeaderId header) = true ∧ getHeaderId header ∉ A.map getHeaderId ∧
      ∀ p ∈ getParentIds header, p ∈ A.map getHeaderId
  rejects : ∀ header operations, (s.insertHeader header operations).2 = false →
    (s.insertHeader header operations).1 = s

/-- Two states with equal tips, roots, nodes, edges and depths. -/
structure SameDag (s t : UntypedState HeaderId Header) : Prop where
  tips : s.tips = t.tips
  roots : s.rootNodes = t.rootNodes
  nodes : ∀ h, h ∈ s.dependencyGraph.nodes ↔ h ∈ t.dependencyGraph.nodes
  edges : ∀ p c, HasEdge s p c ↔ HasEdge t p c
  depths : ∀ h, s.getHeaderDepth h = t.getHeaderDepth h

/-- The state is well-formed and holds the headers `A`, in this order. -/
structure Records (s : UntypedState HeaderId Header) (A : List Header) : Prop where
  wf : s.WellFormed
  nodes : s.dependencyGraph.nodes = A.map getHeaderId
  headers : ∀ {h header}, (∃ info, s.getNode h = some info ∧ info.header = header) ↔
    header ∈ A ∧ getHeaderId header = h

variable {s t : UntypedState HeaderId Header} {A B : List Header} {h p c : HeaderId}
  {header : Header} {calls : List (Header × RawECGBody)}

lemma records_new : Records (.new : UntypedState HeaderId Header) [] where
  wf := UntypedState.wellFormed_new
  nodes := rfl
  headers := by simp [UntypedState.getNode, UntypedState.new]

/-- **What one accepted header adds to the record.** -/
theorem Records.accept (hs : Records s A) {operations : RawECGBody}
    {infos : List (NodeInfo Header)} (ha : s.Acceptable header)
    (hinfos : (getParentIds header).mapM s.getNode = some infos) :
    Records (s.accept header operations infos) (A ++ [header]) where
  wf := hs.wf.accept ha hinfos
  nodes := by simp [UntypedState.accept, hs.nodes]
  headers := by
    intro h header'
    rw [UntypedState.getNode_accept]
    by_cases heq : h = getHeaderId header
    · subst heq
      have hno : ¬ (header' ∈ A ∧ getHeaderId header' = getHeaderId header) := fun hmem => by
        obtain ⟨info, hinfo, -⟩ := hs.headers.mpr hmem
        exact ha.2.1 (UntypedState.contains_iff_getNode.mpr ⟨info, hinfo⟩)
      simp only [if_pos, Option.some.injEq, exists_eq_left', List.mem_append, List.mem_singleton]
      constructor
      · rintro rfl
        exact ⟨Or.inr rfl, rfl⟩
      · rintro ⟨hmem | rfl, hid⟩
        · exact absurd ⟨hmem, hid⟩ hno
        · rfl
    · rw [if_neg heq, hs.headers, List.mem_append, List.mem_singleton]
      constructor
      · exact fun hmem => ⟨Or.inl hmem.1, hmem.2⟩
      · rintro ⟨hmem | rfl, hid⟩
        · exact ⟨hmem, hid⟩
        · exact absurd hid.symm heq

lemma Records.insertAll (hs : Records s A) (calls : List (Header × RawECGBody)) :
    Records (insertAll s calls) (A ++ accepted s calls) := by
  induction calls generalizing s A with
  | nil => simpa [Ecg.insertAll, accepted] using hs
  | cons call calls ih =>
    rcases UntypedState.insertHeader_cases hs.wf call.1 call.2 with ⟨-, h⟩ | ⟨ha, infos, hinfos, h⟩
    · simpa [Ecg.insertAll, accepted, h] using ih hs
    · simpa [Ecg.insertAll, accepted, h] using ih (hs.accept ha hinfos)

lemma records_insertAll (calls : List (Header × RawECGBody)) :
    Records (insertAll .new calls) (accepted .new calls) := by
  simpa using records_new.insertAll calls

lemma UntypedState.WellFormed.insertAll (hs : s.WellFormed) (calls : List (Header × RawECGBody)) :
    (Ecg.insertAll s calls).WellFormed := by
  induction calls generalizing s with
  | nil => exact hs
  | cons call calls ih => exact ih (hs.insertHeader call.1 call.2)

lemma UntypedState.WellFormed.grows_insertAll (hs : s.WellFormed)
    (calls : List (Header × RawECGBody)) : s.Grows (Ecg.insertAll s calls) := by
  induction calls generalizing s with
  | nil => exact .refl s
  | cons call calls ih =>
    exact (hs.getNode_insertHeader call.1 call.2).1.trans (ih (hs.insertHeader call.1 call.2))

/-! ### Reading the record -/

lemma Records.contains_iff (hs : Records s A) : s.contains h ↔ h ∈ A.map getHeaderId := by
  rw [UntypedState.contains_iff_getNode, List.mem_map]
  constructor
  · rintro ⟨info, hinfo⟩
    exact ⟨info.header, hs.headers.mp ⟨info, hinfo, rfl⟩⟩
  · rintro ⟨header, hmem⟩
    obtain ⟨info, hinfo, -⟩ := hs.headers.mpr hmem
    exact ⟨info, hinfo⟩

lemma Records.getNode (hs : Records s A) (hmem : header ∈ A) :
    ∃ info, s.getNode (getHeaderId header) = some info ∧ info.header = header :=
  hs.headers.mpr ⟨hmem, rfl⟩

lemma Records.mem_of_getNode (hs : Records s A) {info : NodeInfo Header}
    (hinfo : s.getNode h = some info) : info.header ∈ A ∧ getHeaderId info.header = h :=
  hs.headers.mp ⟨info, hinfo, rfl⟩

lemma Records.parent_iff (hs : Records s A) :
    s.Parent p c ↔ ∃ header ∈ A, getHeaderId header = c ∧ p ∈ getParentIds header := by
  constructor
  · rintro ⟨info, hinfo, hp⟩
    obtain ⟨hmem, hid⟩ := hs.mem_of_getNode hinfo
    exact ⟨info.header, hmem, hid, hp⟩
  · rintro ⟨header, hmem, rfl, hp⟩
    obtain ⟨info, hinfo, rfl⟩ := hs.getNode hmem
    exact ⟨info, hinfo, hp⟩

lemma UntypedState.WellFormed.hasEdge_iff (hs : s.WellFormed) : HasEdge s p c ↔ s.Parent p c := by
  constructor
  · rintro ⟨i, j, he, hi, hj⟩
    obtain ⟨p', c', pinfo, cinfo, hp, hc, hmem, rfl, rfl⟩ := hs.edge.mp he
    rw [hs.nodeWeight hp] at hi
    rw [hs.nodeWeight hc] at hj
    cases hi
    cases hj
    exact ⟨cinfo, hc, hmem⟩
  · rintro ⟨cinfo, hc, hmem⟩
    obtain ⟨pinfo, hp⟩ := UntypedState.contains_iff_getNode.mp (hs.closed ⟨cinfo, hc, hmem⟩)
    exact ⟨_, _, (hs.edge_iff hp hc).mpr hmem, hs.nodeWeight hp, hs.nodeWeight hc⟩

lemma Records.distinct (hs : Records s A) : (A.map getHeaderId).Nodup := by
  rw [← hs.nodes, List.nodup_iff_injective_get]
  intro i j hij
  obtain ⟨info, hinfo, hi⟩ := hs.wf.node (List.getElem?_eq_getElem i.2)
  obtain ⟨info', hinfo', hj⟩ := hs.wf.node (List.getElem?_eq_getElem j.2)
  have heq : s.dependencyGraph.nodes[i.1] = s.dependencyGraph.nodes[j.1] := hij
  rw [heq, hinfo'] at hinfo
  cases hinfo
  exact Fin.ext (hi.symm.trans hj)

omit [ECGHeader Header HeaderId] in
lemma depthFor_isLeast {l : List HeaderId} (hne : l ≠ []) {infos : List (NodeInfo Header)}
    (h : l.mapM s.getNode = some infos) : ∃ d,
      IsLeast {d | ∃ p ∈ l, s.getHeaderDepth p = some d} d ∧ UntypedState.depthFor infos = d + 1 := by
  have hemp : infos.isEmpty = false := by rw [mapM_isEmpty h]; simpa using hne
  have hsome : (infos.map NodeInfo.depth).min?.isSome := by simpa using hemp
  obtain ⟨d, hd⟩ := Option.isSome_iff_exists.mp hsome
  have hmem : ∀ d, d ∈ infos.map NodeInfo.depth ↔ ∃ p ∈ l, s.getHeaderDepth p = some d := by
    intro d
    simp only [List.mem_map, mem_of_mapM h, UntypedState.getHeaderDepth, Option.map_eq_some_iff]
    tauto
  obtain ⟨hin, hle⟩ := List.min?_eq_some_iff.mp hd
  refine ⟨d, ⟨(hmem d).mp hin, fun d' hd' => hle d' ((hmem d').mpr hd')⟩, ?_⟩
  simp [UntypedState.depthFor, hemp, UntypedState.minDepth, hd]

lemma Records.describes (hs : Records s A) : Describes s A where
  acyclic := hs.wf.ascending.acyclic
  nodes := hs.nodes
  distinct := hs.distinct
  edges _ _ := hs.wf.hasEdge_iff.trans hs.parent_iff
  roots h := by
    rw [hs.wf.roots]
    constructor
    · rintro ⟨info, hinfo, hnil⟩
      obtain ⟨hmem, hid⟩ := hs.mem_of_getNode hinfo
      exact ⟨info.header, hmem, hid, hnil⟩
    · rintro ⟨header, hmem, rfl, hnil⟩
      obtain ⟨info, hinfo, rfl⟩ := hs.getNode hmem
      exact ⟨info, hinfo, hnil⟩
  tips h := by
    rw [hs.wf.tips, hs.contains_iff]
    refine and_congr_right fun _ => ?_
    simp only [hs.parent_iff]
    grind
  rootDepth header hmem hnil := by
    obtain ⟨info, hinfo, rfl⟩ := hs.getNode hmem
    obtain ⟨infos, hm, hd⟩ := hs.wf.depth hinfo
    rw [hnil] at hm
    cases hm
    simp [UntypedState.getHeaderDepth, hinfo, hd, UntypedState.depthFor]
  depth header hmem hne := by
    obtain ⟨info, hinfo, rfl⟩ := hs.getNode hmem
    obtain ⟨infos, hm, hd⟩ := hs.wf.depth hinfo
    obtain ⟨d, hleast, heq⟩ := depthFor_isLeast hne hm
    exact ⟨d, hleast, by simp [UntypedState.getHeaderDepth, hinfo, hd, heq]⟩
  accepts header operations := by
    simp only [← hs.contains_iff]
    rcases UntypedState.insertHeader_cases hs.wf header operations with ⟨ha, h⟩ | ⟨ha, infos, -, h⟩
      <;> unfold UntypedState.Acceptable at ha
    · simpa [h] using ha
    · simpa [h] using ha
  rejects header operations hr := by
    rcases UntypedState.insertHeader_cases hs.wf header operations with ⟨-, h⟩ | ⟨-, infos, -, h⟩
    · rw [h]
    · rw [h] at hr; cases hr

/-! ### Replicas -/

omit [ECGHeader Header HeaderId] in
lemma map_depth_eq {l : List HeaderId} {infos infos' : List (NodeInfo Header)}
    (hl : l.mapM s.getNode = some infos) (hl' : l.mapM t.getNode = some infos')
    (heq : ∀ p ∈ l, s.getHeaderDepth p = t.getHeaderDepth p) :
    infos.map NodeInfo.depth = infos'.map NodeInfo.depth := by
  induction l generalizing infos infos' with
  | nil => cases hl; cases hl'; rfl
  | cons a l ih =>
    obtain ⟨b, r, hb, hr, rfl⟩ := mapM_cons_eq_some.mp hl
    obtain ⟨b', r', hb', hr', rfl⟩ := mapM_cons_eq_some.mp hl'
    have hab := heq a List.mem_cons_self
    simp only [UntypedState.getHeaderDepth, hb, hb', Option.map_some, Option.some.injEq] at hab
    simp [hab, ih hr hr' fun p hp => heq p (List.mem_cons_of_mem _ hp)]

/-- Depths agree: by induction on the position of the header in the first state. -/
lemma depths_eq (hs : Records s A) (ht : Records t B) (hAB : ∀ header, header ∈ A ↔ header ∈ B)
    {info info' : NodeInfo Header} (hinfo : s.getNode h = some info)
    (hinfo' : t.getNode h = some info') : info.depth = info'.depth := by
  induction hn : info.graphIndex using Nat.strong_induction_on generalizing h info info' with
  | _ n ih =>
    subst hn
    obtain ⟨hmem, hid⟩ := hs.mem_of_getNode hinfo
    obtain ⟨info'', hinfo'', hheader⟩ := ht.headers.mpr ⟨(hAB _).mp hmem, hid⟩
    obtain rfl : info' = info'' := Option.some.inj (hinfo'.symm.trans hinfo'')
    obtain ⟨infos, hm, hd⟩ := hs.wf.depth hinfo
    obtain ⟨infos', hm', hd'⟩ := ht.wf.depth hinfo'
    rw [hheader] at hm'
    have hmap := map_depth_eq hm hm' fun p hp => by
      obtain ⟨pinfo, -, hpinfo⟩ := exists_of_mapM hm hp
      obtain ⟨pinfo', -, hpinfo'⟩ := exists_of_mapM hm' hp
      have := ih _ (hs.wf.rank_lt hpinfo hinfo hp) hpinfo hpinfo' rfl
      simp [UntypedState.getHeaderDepth, hpinfo, hpinfo', this]
    have hemp : infos.isEmpty = infos'.isEmpty := by rw [mapM_isEmpty hm, mapM_isEmpty hm']
    rw [hd, hd', UntypedState.depthFor, UntypedState.depthFor, hemp, UntypedState.minDepth,
      UntypedState.minDepth, hmap]

lemma Records.sameDag (hs : Records s A) (ht : Records t B)
    (hAB : ∀ header, header ∈ A ↔ header ∈ B) : SameDag s t where
  tips := set_ext fun h => by
    rw [hs.describes.tips, ht.describes.tips]
    simp only [List.mem_map, hAB]
  roots := set_ext fun h => by
    rw [hs.describes.roots, ht.describes.roots]
    simp only [hAB]
  nodes h := by
    rw [hs.nodes, ht.nodes]
    simp only [List.mem_map, hAB]
  edges p c := by
    rw [hs.describes.edges, ht.describes.edges]
    simp only [hAB]
  depths h := by
    have hcontains : s.contains h ↔ t.contains h := by
      rw [hs.contains_iff, ht.contains_iff]
      simp only [List.mem_map, hAB]
    simp only [UntypedState.contains_iff_getNode] at hcontains
    cases hi : s.getNode h with
    | none =>
      cases hi' : t.getNode h with
      | none => simp [UntypedState.getHeaderDepth, hi, hi']
      | some info' => simp [hi, hi'] at hcontains
    | some info =>
      obtain ⟨info', hi'⟩ := hcontains.mp ⟨info, hi⟩
      simp [UntypedState.getHeaderDepth, hi, hi', depths_eq hs ht hAB hi hi']

/-- **The graph is a function of the accepted headers**: after any calls of `insert_header`
the state is the one the accepted headers describe, and another history that accepts the
same headers, in any order, ends in the same graph. -/
theorem insertAll_describes (calls : List (Header × RawECGBody)) :
    Describes (insertAll .new calls) (accepted .new calls) ∧
      ∀ calls', (∀ header, header ∈ accepted .new calls ↔ header ∈ accepted .new calls') →
        SameDag (insertAll .new calls) (insertAll .new calls') :=
  ⟨(records_insertAll calls).describes, fun calls' h =>
    (records_insertAll calls).sameDag (records_insertAll calls') h⟩

end Ossa.Ecg
