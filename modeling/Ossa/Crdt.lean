import Mathlib.Order.Compare
import Ossa.Loop

/-!
The `CRDT` trait of `ossa-crdt`, and the comparison of logical times of `ossa-crdt/time.rs`.
-/

namespace Ossa.Crdt

open Ossa.Loop

/-- What an operation may ask about the causal order. -/
structure CausalState (Time : Type) where
  happensBefore : Time → Time → Exec Bool

class CRDT (T : Type) (Op Time : outParam Type) where
  apply : CausalState Time → T → Op → Exec T

variable {Time : Type}

def concurrent (st : CausalState Time) (t1 t2 : Time) : Exec Bool := do
  if ← st.happensBefore t1 t2 then pure false
  else do
    let after ← st.happensBefore t2 t1
    pure !after

def compareWithTiebreak [LinearOrder Time] (st : CausalState Time) (t1 t2 : Time) :
    Exec Ordering := do
  if ← st.happensBefore t1 t2 then pure .lt
  else if ← st.happensBefore t2 t1 then pure .gt
  -- For concurrent operations, fall back to total order on time.
  else pure (compare t1 t2)

/-- Time `t1` happens before time `t2`. -/
def Precedes (st : CausalState Time) (t1 t2 : Time) : Prop := st.happensBefore t1 t2 = .ok true

instance {st : CausalState Time} {t1 t2 : Time} : Decidable (Precedes st t1 t2) :=
  inferInstanceAs (Decidable (_ = _))

/-- The question which of the two times happens before the other has an answer. -/
def Answers (st : CausalState Time) (t1 t2 : Time) : Prop := ∃ b, st.happensBefore t1 t2 = .ok b

variable {st : CausalState Time} {t1 t2 : Time}

lemma Answers.eq_false (h : Answers st t1 t2) (hn : ¬ Precedes st t1 t2) :
    st.happensBefore t1 t2 = .ok false := by
  obtain ⟨b, hb⟩ := h
  cases b with
  | false => exact hb
  | true => exact absurd hb hn

lemma concurrent_eq_true (h : Answers st t1 t2) (h' : Answers st t2 t1) :
    concurrent st t1 t2 = .ok true ↔ ¬ Precedes st t1 t2 ∧ ¬ Precedes st t2 t1 := by
  unfold concurrent Precedes
  obtain ⟨b, hb⟩ := h
  obtain ⟨b', hb'⟩ := h'
  cases b <;> cases b' <;> simp [hb, hb']

lemma compareWithTiebreak_lt [LinearOrder Time] (h : Answers st t1 t2) (h' : Answers st t2 t1)
    (hlt : Precedes st t1 t2 ∨ ¬ Precedes st t2 t1 ∧ t1 < t2) :
    compareWithTiebreak st t1 t2 = .ok .lt := by
  unfold compareWithTiebreak
  by_cases h₁ : Precedes st t1 t2
  · rw [show st.happensBefore t1 t2 = .ok true from h₁]
    rfl
  · obtain ⟨h₂, hlt⟩ := hlt.resolve_left h₁
    rw [h.eq_false h₁, h'.eq_false h₂, compare_lt_iff_lt.mpr hlt]
    rfl

lemma compareWithTiebreak_gt [LinearOrder Time] (h : Answers st t1 t2) (h' : Answers st t2 t1)
    (hn : ¬ Precedes st t1 t2) (hgt : Precedes st t2 t1 ∨ t2 < t1) :
    compareWithTiebreak st t1 t2 = .ok .gt := by
  unfold compareWithTiebreak
  rw [h.eq_false hn]
  by_cases h₂ : Precedes st t2 t1
  · rw [show st.happensBefore t2 t1 = .ok true from h₂]
    rfl
  · rw [h'.eq_false h₂, compare_gt_iff_gt.mpr (hgt.resolve_left h₂)]
    rfl

end Ossa.Crdt
