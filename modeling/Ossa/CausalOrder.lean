import Ossa.Causal
import Ossa.EcgHistory

/-!
`happens_before` as an order that does not change.

On the times of a graph that calls of `insert_header` lead to, `happens_before` is a strict
partial order: position within a header, no header before every header, and proper ancestors
between headers. The answer depends only on headers that are ancestors of the two, so that it is
the same after further insertions and on every replica that has accepted the same headers.
-/

namespace Ossa.Ecg

open Ossa.Loop Ossa.Crdt Relation

variable {HeaderId Header : Type} [LinearOrder HeaderId] [ECGHeader Header HeaderId]
variable {s t : UntypedState HeaderId Header} {A B : List Header} {x y : HeaderId}
variable {a b c : OperationId HeaderId}

/-- Header `x` is a proper ancestor of header `y`. -/
def UntypedState.ProperAncestor (s : UntypedState HeaderId Header) (x y : HeaderId) : Prop :=
  TransGen s.Parent x y

lemma properAncestor_iff (hs : s.WellFormed) :
    s.ProperAncestor x y ↔ x ≠ y ∧ s.AncestorOrSelf x y := by
  constructor
  · intro h
    refine ⟨?_, h.to_reflTransGen⟩
    rintro rfl
    obtain ⟨p, hpath, hp⟩ := TransGen.tail'_iff.mp h
    -- a parent of `x` that has `x` as an ancestor would be `x`
    have heq : x = p := ancestor_antisymm hs hpath (.single hp)
    exact absurd (hs.rank_lt_rank hp) (heq ▸ lt_irrefl _)
  · rintro ⟨hne, h⟩
    exact (reflTransGen_iff_eq_or_transGen.mp h).resolve_left fun heq => hne heq.symm

/-- The order that `happens_before` is to decide. -/
def HappensBefore (s : UntypedState HeaderId Header) (a b : OperationId HeaderId) : Prop :=
  a.headerId = b.headerId ∧ a.operationPosition < b.operationPosition ∨
    a.headerId = none ∧ b.headerId ≠ none ∨
    ∃ x y, a.headerId = some x ∧ b.headerId = some y ∧ s.ProperAncestor x y

lemma before_iff (hs : s.WellFormed) : Before s a b ↔ HappensBefore s a b := by
  simp only [Before, HappensBefore, properAncestor_iff hs]

/-! ### Replicas -/

lemma parent_iff_of_records (hs : Records s A) (ht : Records t B)
    (hsub : ∀ header ∈ A, header ∈ B) (hy : s.contains y) : s.Parent x y ↔ t.Parent x y := by
  obtain ⟨info, hinfo⟩ := UntypedState.contains_iff_getNode.mp hy
  obtain ⟨hmem, hid⟩ := hs.mem_of_getNode hinfo
  obtain ⟨info', hinfo', hheader⟩ := ht.getNode (hsub _ hmem)
  rw [hid] at hinfo'
  constructor
  · rintro ⟨_, h, hp⟩
    rw [hinfo] at h
    cases h
    exact ⟨info', hinfo', hheader ▸ hp⟩
  · rintro ⟨_, h, hp⟩
    rw [hinfo'] at h
    cases h
    exact ⟨info, hinfo, hheader ▸ hp⟩

/-- Ancestors stay ancestors, and there are no new ones: by induction along the path, backwards
from a header that the smaller replica has. -/
lemma ancestor_iff_of_records (hs : Records s A) (ht : Records t B)
    (hsub : ∀ header ∈ A, header ∈ B) (hy : s.contains y) :
    s.AncestorOrSelf x y ↔ t.AncestorOrSelf x y := by
  constructor
  · intro h
    induction h with
    | refl => exact .refl
    | tail _ hp ih =>
      exact (ih (hs.wf.closed hp)).tail ((parent_iff_of_records hs ht hsub hy).mp hp)
  · intro h
    induction h with
    | refl => exact .refl
    | tail _ hp ih =>
      have hp' := (parent_iff_of_records hs ht hsub hy).mpr hp
      exact (ih (hs.wf.closed hp')).tail hp'

lemma known_of_records (hs : Records s A) (ht : Records t B) (hsub : ∀ header ∈ A, header ∈ B)
    (ha : Known s a) : Known t a := by
  intro h hid
  obtain ⟨header, hmem, heq⟩ := List.mem_map.mp (hs.contains_iff.mp (ha h hid))
  exact ht.contains_iff.mpr (List.mem_map.mpr ⟨header, hsub header hmem, heq⟩)

/-- **A replica with more headers gives the same answers** on the times of the other. -/
theorem happensBefore_eq_of_records (hs : Records s A) (ht : Records t B)
    (hsub : ∀ header ∈ A, header ∈ B) (ha : Known s a) (hb : Known s b) :
    happensBefore t a b = happensBefore s a b := by
  obtain ⟨r, hr, hiff⟩ := happensBefore_spec hs.wf ha hb
  obtain ⟨r', hr', hiff'⟩ := happensBefore_spec ht.wf (known_of_records hs ht hsub ha)
    (known_of_records hs ht hsub hb)
  have hbefore : Before t a b ↔ Before s a b := by
    refine or_congr Iff.rfl (or_congr Iff.rfl ?_)
    refine exists_congr fun x => exists_congr fun y => and_congr_right fun _ =>
      and_congr_right fun hy => and_congr_right fun _ => ?_
    exact (ancestor_iff_of_records hs ht hsub (hb y hy)).symm
  rw [hr, hr', Bool.eq_iff_iff.mpr (hiff'.trans (hbefore.trans hiff.symm))]

lemma rank_lt_of_properAncestor (hs : s.WellFormed) (h : s.ProperAncestor x y) :
    s.rank x < s.rank y := by
  induction h with
  | single hp => exact hs.rank_lt_rank hp
  | tail _ hp ih => exact ih.trans (hs.rank_lt_rank hp)

lemma Records.rank_eq (hs : Records s A) {header : Header} {i : ℕ} (hi : A[i]? = some header) :
    s.rank (getHeaderId header) = i := by
  have hnode : s.dependencyGraph.nodes[i]? = some (getHeaderId header) := by
    rw [hs.nodes, List.getElem?_map, hi]
    rfl
  obtain ⟨info, hinfo, rfl⟩ := hs.wf.node hnode
  simp [UntypedState.rank, hinfo]

lemma Records.mem_of_properAncestor {header : Header} {q : List Header}
    (hs : Records s (A ++ header :: q)) (h : s.ProperAncestor x (getHeaderId header)) :
    x ∈ A.map getHeaderId := by
  have hlt := rank_lt_of_properAncestor hs.wf h
  have hy : getHeaderId header ∈ (A ++ header :: q).map getHeaderId := by simp
  have hx := ((properAncestor_iff hs.wf).mp h).2.contains hs.wf (hs.contains_iff.mpr hy)
  obtain ⟨xheader, hmem, rfl⟩ := List.mem_map.mp (hs.contains_iff.mp hx)
  obtain ⟨i, hi⟩ := List.getElem?_of_mem hmem
  rw [hs.rank_eq hi, hs.rank_eq (i := A.length) (by simp)] at hlt
  rw [List.getElem?_append_left hlt] at hi
  exact List.mem_map_of_mem (List.mem_of_getElem? hi)

lemma Records.pairwise (hs : Records s A) : A.Pairwise fun a b =>
    getHeaderId a ≠ getHeaderId b ∧ ¬ s.ProperAncestor (getHeaderId b) (getHeaderId a) := by
  rw [List.pairwise_iff_getElem]
  intro i j hi hj hij
  have hrank : s.rank (getHeaderId A[i]) < s.rank (getHeaderId A[j]) := by
    rw [hs.rank_eq (List.getElem?_eq_getElem hi), hs.rank_eq (List.getElem?_eq_getElem hj)]
    exact hij
  exact ⟨fun heq => absurd hrank (heq ▸ lt_irrefl _),
    fun h => absurd (rank_lt_of_properAncestor hs.wf h) hrank.not_gt⟩

/-! ### The order -/

/-- `happens_before` returns on the times of the graph, and is a strict partial order there. -/
structure OrdersTimes (s : UntypedState HeaderId Header) : Prop where
  decides {a b : OperationId HeaderId} : Known s a → Known s b →
    ∃ r, happensBefore s a b = .ok r ∧ (r = true ↔ HappensBefore s a b)
  irrefl {a : OperationId HeaderId} : Known s a → happensBefore s a a = .ok false
  trans {a b c : OperationId HeaderId} : Known s a → Known s b → Known s c →
    happensBefore s a b = .ok true → happensBefore s b c = .ok true →
      happensBefore s a c = .ok true

lemma UntypedState.WellFormed.ordersTimes (hs : s.WellFormed) : OrdersTimes s where
  decides ha hb := by
    obtain ⟨r, hr, hiff⟩ := happensBefore_spec hs ha hb
    exact ⟨r, hr, hiff.trans (before_iff hs)⟩
  irrefl ha := by
    obtain ⟨r, hr, hiff⟩ := happensBefore_spec hs ha ha
    cases r with
    | false => exact hr
    | true => exact absurd (hiff.mp rfl) (before_irrefl _)
  trans ha hb hc hab hbc := by
    have hab' := (precedes_iff hs ha hb).mp hab
    have hbc' := (precedes_iff hs hb hc).mp hbc
    exact (precedes_iff hs ha hc).mpr (before_trans hs hab' hbc')

/-- **`happens_before` is a stable strict partial order**: after any calls of `insert_header` it
orders the times of the graph, and its answers are those after any further calls, and those of
every replica that has accepted the same headers (and maybe more). -/
theorem happensBefore_stable_order (calls : List (Header × RawECGBody)) :
    OrdersTimes (insertAll .new calls) ∧
    ∀ a b : OperationId HeaderId,
      Known (insertAll .new calls) a → Known (insertAll .new calls) b →
      (∀ calls', happensBefore (insertAll (insertAll .new calls) calls') a b =
        happensBefore (insertAll .new calls) a b) ∧
      ∀ calls', (∀ header ∈ accepted .new calls, header ∈ accepted .new calls') →
        happensBefore (insertAll .new calls') a b = happensBefore (insertAll .new calls) a b := by
  have hs := records_insertAll calls
  refine ⟨hs.wf.ordersTimes, fun a b ha hb => ⟨fun calls' => ?_, fun calls' hsub => ?_⟩⟩
  · exact happensBefore_eq_of_records hs (hs.insertAll calls')
      (fun header hmem => List.mem_append_left _ hmem) ha hb
  · exact happensBefore_eq_of_records hs (records_insertAll calls') hsub ha hb

/-! A fork and a merge. -/

section Diamond

open V0

/-- Headers 2 and 3 follow header 1, and header 4 follows both. -/
def diamond : List (TestHeader × RawECGBody) :=
  [(⟨1, []⟩, []), (⟨2, [1]⟩, []), (⟨3, [1]⟩, []), (⟨4, [2, 3]⟩, [])]

theorem happensBefore_stable_order_diamond :
    happensBefore (insertAll (insertAll .new (diamond.take 3)) [(⟨4, [2, 3]⟩, [])])
      (⟨some 1, 0⟩ : OperationId ℕ) ⟨some 3, 0⟩ =
        happensBefore (insertAll .new (diamond.take 3)) ⟨some 1, 0⟩ ⟨some 3, 0⟩ := by
  have hknown : ∀ h ∈ [1, 3], (insertAll .new (diamond.take 3)).contains h = true := by decide
  refine ((happensBefore_stable_order (diamond.take 3)).2 ⟨some 1, 0⟩ ⟨some 3, 0⟩ ?_ ?_).1 _
  · rintro h ⟨⟩
    exact hknown 1 (by decide)
  · rintro h ⟨⟩
    exact hknown 3 (by decide)

end Diamond

end Ossa.Ecg
