import Ossa.EcgInv

/-!
The search of `is_ancestor_of` finds exactly the ancestors.

The nodes visited are those that reach the start so far; a node that left the queue is not the
one looked for, and its parents have been visited. No node is queued twice, so the search ends
within as many iterations as there are nodes.
-/

namespace Ossa.Ecg.UntypedState

open Ossa.Loop Ossa.Collections Ossa.Dag

variable {HeaderId Header : Type} [LinearOrder HeaderId] [ECGHeader Header HeaderId]
  {s : UntypedState HeaderId Header} {a d p : HeaderId} {ainfo dinfo info : NodeInfo Header}

lemma foldl_visit (ps queue : List ℕ) (visited : BTreeSet ℕ) :
    ∃ new v', ps.foldl visit (queue, visited) = (queue ++ new, v') ∧
      (∀ i, i ∈ v' ↔ i ∈ visited ∨ i ∈ ps) ∧ (∀ i, i ∈ v' ↔ i ∈ visited ∨ i ∈ new) ∧
      v'.size = visited.size + new.length := by
  induction ps generalizing queue visited with
  | nil => exact ⟨[], visited, by simp, by simp, by simp, rfl⟩
  | cons j ps ih =>
    rw [List.foldl_cons]
    by_cases hj : visited.contains j
    · obtain ⟨new, v', heq, hmem, hnew, hsize⟩ := ih queue visited
      have hj' : j ∈ visited := hj
      refine ⟨new, v', by rw [visit, if_pos hj, heq], fun i => ?_, hnew, hsize⟩
      rw [hmem, List.mem_cons]
      constructor
      · tauto
      · rintro (hi | rfl | hi)
        · exact Or.inl hi
        · exact Or.inl hj'
        · exact Or.inr hi
    · obtain ⟨new, v', heq, hmem, hnew, hsize⟩ := ih (queue ++ [j]) (visited.insert j)
      have hsz : (visited.insert j).size = visited.size + 1 := by
        rw [Std.ExtTreeSet.size_insert, if_neg hj]
      refine ⟨j :: new, v', by rw [visit, if_neg hj, heq, List.append_assoc]; rfl, fun i => ?_,
        fun i => ?_, by rw [hsize, hsz, List.length_cons]; omega⟩
      · rw [hmem, mem_insert, List.mem_cons]
        tauto
      · rw [hnew, mem_insert, List.mem_cons]
        tauto

/-- The invariant of the search for node `anid` from node `dnid`. -/
structure Searched (s : UntypedState HeaderId Header) (anid dnid : ℕ)
    (w : List ℕ × BTreeSet ℕ) : Prop where
  queued : ∀ i ∈ w.1, i ∈ w.2
  start : dnid ∈ w.2
  reach : ∀ i ∈ w.2, Relation.ReflTransGen s.dependencyGraph.Edge i dnid
  done : ∀ i ∈ w.2, i ∉ w.1 → i ≠ anid ∧ ∀ j, s.dependencyGraph.Edge j i → j ∈ w.2
  node : ∀ i ∈ w.2, i < s.dependencyGraph.nodes.length

lemma Searched.init (hs : s.WellFormed) (hd : s.getNode d = some dinfo) (anid : ℕ) :
    s.Searched anid dinfo.graphIndex
      ([dinfo.graphIndex], (∅ : BTreeSet ℕ).insert dinfo.graphIndex) := by
  have hmem : ∀ {i}, i ∈ (∅ : BTreeSet ℕ).insert dinfo.graphIndex ↔ i = dinfo.graphIndex := by
    intro i
    rw [mem_insert]
    simp
  refine ⟨by simp [hmem], hmem.mpr rfl, fun i hi => ?_, fun i hi hn => ?_, fun i hi => ?_⟩
  · rw [hmem.mp hi]
  · exact absurd (List.mem_singleton.mpr (hmem.mp hi)) hn
  · rw [hmem.mp hi]
    exact (List.getElem?_eq_some_iff.mp (hs.index hd)).1

omit [ECGHeader Header HeaderId] in
lemma Searched.step {anid dnid nid : ℕ} {queue : List ℕ} {visited : BTreeSet ℕ}
    (hasc : StableDag.Ascending s.dependencyGraph.edges)
    (h : s.Searched anid dnid (nid :: queue, visited)) (hne : nid ≠ anid) :
    ∃ w, s.ancestorBody anid (nid :: queue, visited) = .ok (.next w) ∧ s.Searched anid dnid w ∧
      s.dependencyGraph.nodes.length - w.2.size + w.1.length <
        s.dependencyGraph.nodes.length - visited.size + (nid :: queue).length := by
  obtain ⟨new, v', heq, hmem, hnew, hsize⟩ :=
    foldl_visit (s.dependencyGraph.parents nid) queue visited
  have hnid : nid ∈ visited := h.queued nid List.mem_cons_self
  have hedge : ∀ i, i ∈ v' ↔ i ∈ visited ∨ s.dependencyGraph.Edge i nid := fun i => by
    rw [hmem, StableDag.mem_parents]
  have hnode : ∀ i ∈ v', i < s.dependencyGraph.nodes.length := fun i hi => by
    rcases (hedge i).mp hi with hi | hi
    · exact h.node i hi
    · exact (hasc _ hi).trans (h.node nid hnid)
  refine ⟨(queue ++ new, v'), by rw [ancestorBody, if_neg hne, heq], ⟨fun i hi => ?_, ?_,
    fun i hi => ?_, fun i hi hn => ?_, hnode⟩, ?_⟩
  · rcases List.mem_append.mp hi with hi | hi
    · exact (hmem i).mpr (Or.inl (h.queued i (List.mem_cons_of_mem nid hi)))
    · exact (hnew i).mpr (Or.inr hi)
  · exact (hmem dnid).mpr (Or.inl h.start)
  · rcases (hedge i).mp hi with hi | hi
    · exact h.reach i hi
    · exact (h.reach nid hnid).head hi
  · rw [List.mem_append, not_or] at hn
    have hvis : i ∈ visited := ((hnew i).mp hi).resolve_right hn.2
    rcases eq_or_ne i nid with rfl | hin
    · exact ⟨hne, fun j hj => (hedge j).mpr (Or.inr hj)⟩
    · obtain ⟨hia, hpar⟩ := h.done i hvis fun hc =>
        (List.mem_cons.mp hc).elim hin hn.1
      exact ⟨hia, fun j hj => (hmem j).mpr (Or.inl (hpar j hj))⟩
  · have hle : v'.size ≤ (List.range s.dependencyGraph.nodes.length).length :=
      size_le_length fun i hi => List.mem_range.mpr (hnode i hi)
    rw [List.length_range] at hle
    simp only [List.length_append, List.length_cons]
    omega

omit [ECGHeader Header HeaderId] in
lemma Searched.complete {anid dnid : ℕ} {visited : BTreeSet ℕ}
    (h : s.Searched anid dnid ([], visited)) :
    ¬ Relation.ReflTransGen s.dependencyGraph.Edge anid dnid := by
  intro hpath
  have hvis : ∀ i, Relation.ReflTransGen s.dependencyGraph.Edge i dnid → i ∈ visited := by
    intro i hi
    induction hi using Relation.ReflTransGen.head_induction_on with
    | refl => exact h.start
    | head he _ ih => exact (h.done _ ih (by simp)).2 _ he
  exact (h.done anid (hvis anid hpath) (by simp)).1 rfl

lemma WellFormed.path_iff (hs : s.WellFormed) (ha : s.getNode a = some ainfo)
    (hd : s.getNode d = some dinfo) :
    Relation.ReflTransGen s.dependencyGraph.Edge ainfo.graphIndex dinfo.graphIndex ↔
      s.AncestorOrSelf a d := by
  constructor
  · intro h
    suffices hall : ∀ i j, Relation.ReflTransGen s.dependencyGraph.Edge i j → ∀ a ainfo d dinfo,
        s.getNode a = some ainfo → s.getNode d = some dinfo → ainfo.graphIndex = i →
        dinfo.graphIndex = j → s.AncestorOrSelf a d from hall _ _ h a ainfo d dinfo ha hd rfl rfl
    intro i j h
    induction h with
    | refl =>
      rintro a ainfo d dinfo ha hd hi hj
      rw [hs.graphIndex_inj ha hd (hi.trans hj.symm)]
    | tail _ he ih =>
      rintro a ainfo d dinfo ha hd hi rfl
      obtain ⟨p, pinfo, hp, rfl⟩ := hs.source he
      exact (ih a ainfo p pinfo ha hp hi rfl).tail ⟨dinfo, hd, (hs.edge_iff hp hd).mp he⟩
  · intro h
    induction h generalizing dinfo with
    | refl =>
      rw [ha] at hd
      cases hd
      exact .refl
    | tail hpath hp ih =>
      obtain ⟨pinfo, hpinfo⟩ := contains_iff_getNode.mp (hs.closed hp)
      obtain ⟨info, hinfo, hmem⟩ := hp
      rw [hd] at hinfo
      cases hinfo
      exact (ih hpinfo).tail ((hs.edge_iff hpinfo hd).mpr hmem)

lemma WellFormed.search (hs : s.WellFormed) (hd : s.getNode d = some dinfo) (anid : ℕ) :
    ∃ found, loop (s.ancestorBody anid) (s.dependencyGraph.nodes.length + 1)
        ([dinfo.graphIndex], (∅ : BTreeSet ℕ).insert dinfo.graphIndex) = .ok found ∧
      (found = true ↔ Relation.ReflTransGen s.dependencyGraph.Edge anid dinfo.graphIndex) := by
  have hsize : ((∅ : BTreeSet ℕ).insert dinfo.graphIndex).size = 1 := by
    rw [Std.ExtTreeSet.size_insert]
    simp
  have hlt := (List.getElem?_eq_some_iff.mp (hs.index hd)).1
  refine loop_of_measure (fun w => s.dependencyGraph.nodes.length - w.2.size + w.1.length)
    (Searched.init hs hd anid) (by simp only [hsize, List.length_singleton]; omega) fun w hw => ?_
  obtain ⟨queue, visited⟩ := w
  cases queue with
  | nil => exact Or.inl ⟨false, rfl, by simpa using hw.complete⟩
  | cons nid queue =>
    rcases eq_or_ne nid anid with rfl | hne
    · exact Or.inl ⟨true, if_pos rfl, by simpa using hw.reach _ (hw.queued _ List.mem_cons_self)⟩
    · exact Or.inr (hw.step hs.ascending hne)

/-- **`is_ancestor_of` decides ancestry** between headers of the graph. -/
theorem WellFormed.isAncestorOf (hs : s.WellFormed) (ha : s.contains a) (hd : s.contains d) :
    ∃ found, s.isAncestorOf a d = .ok (some found) ∧ (found = true ↔ s.AncestorOrSelf a d) := by
  obtain ⟨ainfo, ha⟩ := contains_iff_getNode.mp ha
  obtain ⟨dinfo, hd⟩ := contains_iff_getNode.mp hd
  obtain ⟨found, hloop, hfound⟩ := hs.search hd ainfo.graphIndex
  refine ⟨found, ?_, hfound.trans (hs.path_iff ha hd)⟩
  simp only [UntypedState.isAncestorOf, ha, hd, hloop, ok_bind, pure_eq_ok]

end Ossa.Ecg.UntypedState
