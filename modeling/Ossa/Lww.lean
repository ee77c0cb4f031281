import Ossa.Causal
import Ossa.EcgHistory
import Ossa.Tournament

/-!
The last-writer-wins register of `ossa-crdt/register/lww.rs`.

`apply` keeps the later of two registers, by the causal order and by the order on times where
the two are concurrent. Along any order of a history it returns. The result is the same along
all of them, and concurrent neighbours commute, exactly when no operation overtakes: `a` happens
before `b`, and the time of some `c` concurrent with both lies between that of `b` and that of `a`.
-/

namespace Ossa.Crdt

open Ossa.Loop Ossa.Linearize

/-- Last writer wins (LWW) register. -/
structure LWW (T A : Type) where
  time : T
  value : A
  deriving DecidableEq

variable {T A : Type} [LinearOrder T]

instance : CRDT (LWW T A) (LWW T A) T where
  apply st self op := do
    match ← compareWithTiebreak st self.time op.time with
    | .lt => pure op
    | .gt => pure self
    | .eq => .error (.unreachable
        "Precondition of `apply` violated: Applied `logical_time`s must be unique.")

variable {st : CausalState T} {init x y : LWW T A} {ops l : List (LWW T A)}

/-- Operation `x` happens before operation `y`. -/
def OpBefore (st : CausalState T) (x y : LWW T A) : Prop := Precedes st x.time y.time

/-- The order in which operations are applied does not matter, as long as it respects what
happens before what; and `apply` commutes on concurrent operations wherever they meet. -/
def Converges (st : CausalState T) (init : LWW T A) (ops : List (LWW T A)) : Prop :=
  (∀ l l', l.Perm ops → l'.Perm ops → Respects (OpBefore st) l → Respects (OpBefore st) l' →
    ∃ r, l.foldlM (CRDT.apply st) init = .ok r ∧ l'.foldlM (CRDT.apply st) init = .ok r) ∧
  ∀ p x y q, (p ++ x :: y :: q).Perm ops → Respects (OpBefore st) (p ++ x :: y :: q) →
    concurrent st x.time y.time = .ok true →
    ∃ r, (p ++ [x, y]).foldlM (CRDT.apply st) init = .ok r ∧
      (p ++ [y, x]).foldlM (CRDT.apply st) init = .ok r

/-- Some operation overtakes: its time lies between the times of two others that are concurrent
with it, the earlier of which has the greater time. -/
def Overtakes (st : CausalState T) (ops : List (LWW T A)) : Prop :=
  ∃ a ∈ ops, ∃ b ∈ ops, ∃ c ∈ ops, Precedes st a.time b.time ∧
    concurrent st b.time c.time = .ok true ∧ concurrent st a.time c.time = .ok true ∧
    b.time < c.time ∧ c.time < a.time

/-! ### `apply` keeps the later register -/

/-- A history in which the causal order is known between any two operations. -/
structure Applicable (st : CausalState T) (l : List (LWW T A)) : Prop where
  history : History (OpBefore st) LWW.time l
  answers : ∀ x ∈ l, ∀ y ∈ l, Answers st x.time y.time

lemma Applicable.apply (h : Applicable st l) (hx : x ∈ l) (hy : y ∈ l) (hne : x ≠ y) :
    CRDT.apply st x y = .ok (keep (OpBefore st) LWW.time x y) := by
  have hxy := h.answers x hx y hy
  have hyx := h.answers y hy x hx
  by_cases hlt : Later (OpBefore st) LWW.time x y
  · have hcmp := compareWithTiebreak_lt hxy hyx hlt
    simp [CRDT.apply, hcmp, keep, hlt]
  · have hgt := (h.history.later_total hx hy hne).resolve_left hlt
    have hcmp := compareWithTiebreak_gt hxy hyx (fun hp => hlt (Or.inl hp))
      (hgt.imp_right And.right)
    simp [CRDT.apply, hcmp, keep, hlt]

lemma Applicable.foldlM (h : Applicable st (x :: l)) :
    l.foldlM (CRDT.apply st) x = .ok (l.foldl (keep (OpBefore st) LWW.time) x) := by
  induction l using List.reverseRecOn with
  | nil => rfl
  | append_singleton l y ih =>
    have hsub : (x :: l).Sublist (x :: (l ++ [y])) :=
      (List.sublist_append_left l [y]).cons_cons x
    have hih := ih ⟨h.history.sublist hsub, fun a ha b hb =>
      h.answers a (hsub.subset ha) b (hsub.subset hb)⟩
    have hmem : l.foldl (keep (OpBefore st) LWW.time) x ∈ x :: l := foldl_keep_mem x l
    have hy : y ∈ x :: (l ++ [y]) := by simp
    have hne : l.foldl (keep (OpBefore st) LWW.time) x ≠ y := by
      intro heq
      have hnodup := h.history.nodup
      rw [← List.cons_append, List.map_append, List.nodup_append] at hnodup
      exact hnodup.2.2 _ (List.mem_map_of_mem (heq ▸ hmem)) _ (by simp) rfl
    rw [List.foldlM_append, List.foldl_append, hih, ok_bind, List.foldlM_cons,
      h.apply (hsub.subset hmem) hy hne]
    rfl

omit [LinearOrder T] in
lemma Applicable.perm {l' : List (LWW T A)} (h : Applicable st l) (hp : l.Perm l') :
    Applicable st l' :=
  ⟨h.history.perm hp, fun x hx y hy => h.answers x (hp.mem_iff.mpr hx) y (hp.mem_iff.mpr hy)⟩

omit [LinearOrder T] in
lemma Applicable.sublist {l' : List (LWW T A)} (h : Applicable st l) (hs : l'.Sublist l) :
    Applicable st l' :=
  ⟨h.history.sublist hs, fun x hx y hy => h.answers x (hs.subset hx) y (hs.subset hy)⟩

omit [LinearOrder T] in
lemma Applicable.concurrent (h : Applicable st l) (hx : x ∈ l) (hy : y ∈ l) :
    concurrent st x.time y.time = .ok true ↔ ¬ OpBefore st x y ∧ ¬ OpBefore st y x :=
  concurrent_eq_true (h.answers x hx y hy) (h.answers y hy x hx)

lemma Applicable.overtakes_iff (h : Applicable st ops) :
    Overtakes st ops ↔ Cyclic (OpBefore st) LWW.time ops := by
  constructor
  · rintro ⟨a, ha, b, hb, c, hc, hab, hbc, hac, h₁, h₂⟩
    obtain ⟨hbc, hcb⟩ := (h.concurrent hb hc).mp hbc
    obtain ⟨hac, hca⟩ := (h.concurrent ha hc).mp hac
    exact ⟨a, ha, b, hb, c, hc, hab, hbc, hcb, hac, hca, h₁, h₂⟩
  · rintro ⟨a, ha, b, hb, c, hc, hab, hbc, hcb, hac, hca, h₁, h₂⟩
    exact ⟨a, ha, b, hb, c, hc, hab, (h.concurrent hb hc).mpr ⟨hbc, hcb⟩,
      (h.concurrent ha hc).mpr ⟨hac, hca⟩, h₁, h₂⟩

/-- A register that converges does so unless an operation overtakes, and only then. -/
theorem Applicable.converges_iff (h : Applicable st (init :: ops))
    (hinit : ∀ o ∈ ops, OpBefore st init o) : Converges st init ops ↔ ¬ Overtakes st ops := by
  have hops : Applicable st ops := h.sublist (List.sublist_cons_self init ops)
  -- what is applied next to each other is part of an order of the history
  have hrun : ∀ p x y q, (p ++ x :: y :: q).Perm ops → (p ++ [x, y]).foldlM (CRDT.apply st) init =
      .ok ((p ++ [x, y]).foldl (keep (OpBefore st) LWW.time) init) := by
    intro p x y q hp
    have hsub : (init :: (p ++ [x, y])).Sublist (init :: (p ++ x :: y :: q)) :=
      (((List.nil_sublist q).cons_cons y).cons_cons x |>.append_left p).cons_cons init
    exact ((h.perm (hp.symm.cons init)).sublist hsub).foldlM
  have hswap : ∀ {p q : List (LWW T A)} {x y : LWW T A}, (p ++ x :: y :: q).Perm ops →
      (p ++ y :: x :: q).Perm ops := fun hp =>
    (List.Perm.append_left _ (List.Perm.swap _ _ _)).trans hp
  rw [hops.overtakes_iff]
  constructor
  · intro hconv hcyc
    obtain ⟨p, b, c, q, hp, hr, hbc, hcb, hne⟩ := exists_not_comm h.history hinit hcyc
    have hb : b ∈ ops := hp.mem_iff.mp (by simp)
    have hc : c ∈ ops := hp.mem_iff.mp (by simp)
    obtain ⟨r, hr₁, hr₂⟩ := hconv.2 p b c q hp hr ((hops.concurrent hb hc).mpr ⟨hbc, hcb⟩)
    rw [hrun p b c q hp] at hr₁
    rw [hrun p c b q (hswap hp)] at hr₂
    exact hne (Except.ok.inj (hr₁.trans hr₂.symm))
  · intro hcyc
    have hcomm : ∀ p x y q, (p ++ x :: y :: q).Perm ops →
        (p ++ [x, y]).foldlM (CRDT.apply st) init = (p ++ [y, x]).foldlM (CRDT.apply st) init := by
      intro p x y q hp
      rw [hrun p x y q hp, hrun p y x q (hswap hp), foldl_keep_comm h.history hinit hcyc hp]
    refine ⟨fun l l' hl hl' hr hr' => ?_, fun p x y q hp _ _ => ⟨_, hrun p x y q hp, ?_⟩⟩
    · have hfold := (h.perm (hl.symm.cons init)).foldlM
      refine ⟨_, hfold, ?_⟩
      rw [← foldlM_eq_of_perm (hl.trans hl'.symm) hr hr' fun p x y q hp _ _ _ =>
        hcomm p x y q (hp.trans hl), hfold]
    · rw [← hcomm p x y q hp, hrun p x y q hp]

end Ossa.Crdt

namespace Ossa.Ecg

open Ossa.Loop Ossa.Crdt Ossa.Linearize

variable {HeaderId Header A : Type} [LinearOrder HeaderId] [ECGHeader Header HeaderId]
  {s : UntypedState HeaderId Header}

omit [ECGHeader Header HeaderId] in
lemma not_precedes_self (t : OperationId HeaderId) : ¬ Precedes (toCausalState s) t t := by
  have hself : happensBefore s t t = .ok (decide (t.operationPosition < t.operationPosition)) :=
    if_pos rfl
  show ¬ happensBefore s t t = .ok true
  rw [hself]
  simp

omit [ECGHeader Header HeaderId] in
/-- The source panics on headers it does not know, so a time that precedes one is known. -/
lemma known_of_precedes {a b : OperationId HeaderId} (h : Precedes (toCausalState s) a b)
    (hb : ∃ y, b.headerId = some y ∧ s.contains y) : Known s a := by
  intro x hx
  obtain ⟨y, hy, hc⟩ := hb
  have h' : happensBefore s a b = .ok true := h
  unfold happensBefore at h'
  rw [hx, hy] at h'
  by_cases heq : some x = some y
  · cases heq
    exact hc
  · rw [if_neg heq] at h'
    obtain ⟨found, hfound, hor⟩ := bind_eq_ok.mp h'
    rw [orFault_eq_ok.mp hor] at hfound
    unfold UntypedState.isAncestorOf at hfound
    cases hn : s.getNode x with
    | none => simp [hn] at hfound
    | some info => exact UntypedState.contains_iff_getNode.mpr ⟨info, hn⟩

lemma applicable (hs : s.WellFormed) {l : List (LWW (OperationId HeaderId) A)}
    (hnodup : (l.map LWW.time).Nodup) (hl : ∀ x ∈ l, Known s x.time) :
    Applicable (toCausalState s) l := by
  refine ⟨⟨fun x _ => not_precedes_self x.time, fun x hx y hy z hz hxy hyz => ?_, hnodup⟩,
    fun x hx y hy => answers hs (hl x hx) (hl y hy)⟩
  have hxy' := (precedes_iff hs (hl x hx) (hl y hy)).mp hxy
  have hyz' := (precedes_iff hs (hl y hy) (hl z hz)).mp hyz
  exact (precedes_iff hs (hl x hx) (hl z hz)).mpr (before_trans hs hxy' hyz')

omit [ECGHeader Header HeaderId] in
lemma applicable_singleton (x : LWW (OperationId HeaderId) A) :
    Applicable (toCausalState s) [x] := by
  have hirr := not_precedes_self (s := s) x.time
  refine ⟨⟨?_, ?_, List.nodup_singleton _⟩, ?_⟩
  · intro y hy
    rw [List.mem_singleton.mp hy]
    exact hirr
  · intro y hy z hz _ _ hyz
    rw [List.mem_singleton.mp hy, List.mem_singleton.mp hz] at hyz
    exact absurd hyz hirr
  · intro y hy z hz
    rw [List.mem_singleton.mp hy, List.mem_singleton.mp hz]
    exact ⟨_, if_pos rfl⟩

/-- **LWW converges unless an operation overtakes**: for any graph, any operations of its
headers with distinct times, and any register before all of them. -/
theorem lww_converges_iff (hs : s.WellFormed) (init : LWW (OperationId HeaderId) A)
    (ops : List (LWW (OperationId HeaderId) A)) (hnodup : (ops.map LWW.time).Nodup)
    (hops : ∀ o ∈ ops, ∃ h, o.time.headerId = some h ∧ s.contains h)
    (hinit : ∀ o ∈ ops, Precedes (toCausalState s) init.time o.time) :
    Converges (toCausalState s) init ops ↔ ¬ Overtakes (toCausalState s) ops := by
  refine Applicable.converges_iff ?_ hinit
  cases ops with
  | nil => exact applicable_singleton init
  | cons o os =>
    have ho : o ∈ o :: os := List.mem_cons_self
    refine applicable hs ?_ fun x hx => ?_
    · rw [List.map_cons, List.nodup_cons]
      refine ⟨fun hmem => ?_, hnodup⟩
      obtain ⟨x, hx, htime⟩ := List.mem_map.mp hmem
      exact not_precedes_self init.time (htime ▸ hinit x hx)
    · rcases List.mem_cons.mp hx with rfl | hx
      · exact known_of_precedes (hinit o ho) (hops o ho)
      · obtain ⟨h, hh, hc⟩ := hops x hx
        intro h' hh'
        rw [hh] at hh'
        cases hh'
        exact hc

/-! Header 5 is the parent of header 3, and header 4 is concurrent with both. With 6 in place of
4, nothing overtakes. -/

section Overtaking

open V0

def overtaking : UntypedState ℕ TestHeader :=
  insertAll .new [(⟨5, []⟩, []), (⟨3, [5]⟩, []), (⟨4, []⟩, []), (⟨6, []⟩, [])]

def write (h : ℕ) : LWW (OperationId ℕ) ℕ := ⟨⟨some h, 0⟩, h⟩

/-- The first operation of a header. -/
def firstOf (h : Option ℕ) : OperationId ℕ := ⟨h, 0⟩

def blank : LWW (OperationId ℕ) ℕ := ⟨⟨none, 0⟩, 0⟩

lemma overtaking_wellFormed : overtaking.WellFormed := (records_insertAll _).wf

lemma write_known {h : ℕ} (hh : overtaking.contains h) :
    ∃ x, (write h).time.headerId = some x ∧ overtaking.contains x := ⟨h, rfl, hh⟩

theorem lww_converges_iff_overtaking :
    Converges (toCausalState overtaking) blank [write 5, write 3, write 6] := by
  refine (lww_converges_iff overtaking_wellFormed blank _ (by decide) ?_ (by decide)).mpr ?_
  · simp only [List.forall_mem_cons]
    exact ⟨write_known (by decide), write_known (by decide), write_known (by decide), by simp⟩
  · unfold Overtakes
    decide

/-- **Two orders of three writes** end in different registers. -/
theorem lww_diverges : ¬ ∀ (s : UntypedState ℕ TestHeader) (init : LWW (OperationId ℕ) ℕ)
    (ops : List (LWW (OperationId ℕ) ℕ)), s.WellFormed → (ops.map LWW.time).Nodup →
      (∀ o ∈ ops, ∃ h, o.time.headerId = some h ∧ s.contains h) →
      (∀ o ∈ ops, Precedes (toCausalState s) init.time o.time) →
      Converges (toCausalState s) init ops := by
  intro hall
  have hconv := hall overtaking blank [write 5, write 3, write 4] overtaking_wellFormed (by decide)
    (by
      simp only [List.forall_mem_cons]
      exact ⟨write_known (by decide), write_known (by decide), write_known (by decide), by simp⟩)
    (by decide)
  have hr : Respects (OpBefore (toCausalState overtaking)) [write 5, write 3, write 4] := by
    unfold Respects OpBefore
    decide
  have hr' : Respects (OpBefore (toCausalState overtaking)) [write 4, write 5, write 3] := by
    unfold Respects OpBefore
    decide
  obtain ⟨r, h₁, h₂⟩ := hconv.1 _ _ (List.Perm.refl _) (by decide) hr hr'
  have h₁' : [write 5, write 3, write 4].foldlM (CRDT.apply (toCausalState overtaking)) blank =
      .ok (write 4) := by decide
  have h₂' : [write 4, write 5, write 3].foldlM (CRDT.apply (toCausalState overtaking)) blank =
      .ok (write 3) := by decide
  rw [h₁'] at h₁
  rw [h₂', ← h₁] at h₂
  exact absurd h₂ (by decide)

end Overtaking

end Ossa.Ecg
