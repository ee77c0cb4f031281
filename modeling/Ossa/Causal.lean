import Mathlib.Data.Prod.Lex
import Mathlib.Order.WithBot
import Ossa.Crdt
import Ossa.EcgAncestor

/-!
The logical times of `store/ecg/v0.rs`: the header of an operation and its position there.
-/

namespace Ossa.Ecg

open Ossa.Loop Ossa.Crdt

structure OperationId (HeaderId : Type) where
  /-- None when in the initial state. -/
  headerId : Option HeaderId
  operationPosition : Fin 256
  deriving DecidableEq

variable {HeaderId Header : Type} [LinearOrder HeaderId] [ECGHeader Header HeaderId]

/-- The derived order compares the headers first; no header comes before all headers. -/
def OperationId.key (t : OperationId HeaderId) : WithBot HeaderId ×ₗ Fin 256 :=
  toLex (t.headerId, t.operationPosition)

omit [LinearOrder HeaderId] in
lemma OperationId.key_injective : Function.Injective (@OperationId.key HeaderId) := by
  intro a b h
  cases a
  cases b
  exact OperationId.mk.injEq _ _ _ _ ▸ Prod.mk.inj (toLex.injective h)

instance : LinearOrder (OperationId HeaderId) := LinearOrder.lift' _ OperationId.key_injective

def happensBefore (s : UntypedState HeaderId Header) (a b : OperationId HeaderId) : Exec Bool :=
  if a.headerId = b.headerId then .ok (a.operationPosition < b.operationPosition)
  else
    match a.headerId with
    | some aHeaderId =>
      match b.headerId with
      | some bHeaderId => do
        let found ← s.isAncestorOf aHeaderId bHeaderId
        orFault (.expect "Invariant violated. Unknown header id.") found
      | none => .ok false
    | none => .ok true

def toCausalState (s : UntypedState HeaderId Header) : CausalState (OperationId HeaderId) :=
  ⟨happensBefore s⟩

/-! ### The causal order -/

/-- The causal order of the times of a graph. -/
def Before (s : UntypedState HeaderId Header) (a b : OperationId HeaderId) : Prop :=
  a.headerId = b.headerId ∧ a.operationPosition < b.operationPosition ∨
    a.headerId = none ∧ b.headerId ≠ none ∨
    ∃ x y, a.headerId = some x ∧ b.headerId = some y ∧ x ≠ y ∧ s.AncestorOrSelf x y

/-- The header of a time is in the graph. -/
def Known (s : UntypedState HeaderId Header) (t : OperationId HeaderId) : Prop :=
  ∀ h, t.headerId = some h → s.contains h

variable {s : UntypedState HeaderId Header} {a b c : OperationId HeaderId}

/-- **`happens_before` decides the causal order** on the times of a graph. -/
theorem happensBefore_spec (hs : s.WellFormed) (ha : Known s a) (hb : Known s b) :
    ∃ r, happensBefore s a b = .ok r ∧ (r = true ↔ Before s a b) := by
  obtain ⟨ah, ap⟩ := a
  obtain ⟨bh, bp⟩ := b
  unfold happensBefore Before
  simp only
  by_cases heq : ah = bh
  · subst heq
    refine ⟨_, if_pos rfl, ?_⟩
    cases ah <;> simp
  · rw [if_neg heq]
    cases ah with
    | none => exact ⟨true, rfl, by simp [Ne.symm heq]⟩
    | some x =>
      cases bh with
      | none => exact ⟨false, rfl, by simp⟩
      | some y =>
        obtain ⟨found, hfound, hiff⟩ := hs.isAncestorOf (ha x rfl) (hb y rfl)
        refine ⟨found, by simp [hfound], ?_⟩
        have hne : x ≠ y := fun hxy => heq (congrArg some hxy)
        simp [hiff, hne]

lemma precedes_iff (hs : s.WellFormed) (ha : Known s a) (hb : Known s b) :
    Precedes (toCausalState s) a b ↔ Before s a b := by
  obtain ⟨r, hr, hiff⟩ := happensBefore_spec hs ha hb
  show happensBefore s a b = .ok true ↔ _
  rw [hr, Except.ok.injEq, hiff]

lemma answers (hs : s.WellFormed) (ha : Known s a) (hb : Known s b) :
    Answers (toCausalState s) a b := by
  obtain ⟨r, hr, -⟩ := happensBefore_spec hs ha hb
  exact ⟨r, hr⟩

lemma ancestor_antisymm (hs : s.WellFormed) {x y : HeaderId} (hxy : s.AncestorOrSelf x y)
    (hyx : s.AncestorOrSelf y x) : x = y := by
  have hrank : ∀ {x y}, s.AncestorOrSelf x y → x = y ∨ s.rank x < s.rank y := by
    intro x y h
    induction h with
    | refl => exact Or.inl rfl
    | tail _ hp ih =>
      have := hs.rank_lt_rank hp
      rcases ih with rfl | hlt
      · exact Or.inr this
      · exact Or.inr (hlt.trans this)
  rcases hrank hxy with heq | hlt
  · exact heq
  · rcases hrank hyx with heq | hlt'
    · exact heq.symm
    · omega

lemma before_irrefl (a : OperationId HeaderId) : ¬ Before s a a := by
  rintro (⟨-, hlt⟩ | ⟨hn, hs⟩ | ⟨x, y, hx, hy, hne, -⟩)
  · exact lt_irrefl _ hlt
  · exact hs hn
  · exact hne (Option.some.inj (hx.symm.trans hy))

lemma before_trans (hs : s.WellFormed) (hab : Before s a b) (hbc : Before s b c) :
    Before s a c := by
  obtain ⟨ah, ap⟩ := a
  obtain ⟨bh, bp⟩ := b
  obtain ⟨ch, cp⟩ := c
  unfold Before at *
  simp only at *
  rcases hab with ⟨rfl, hab⟩ | ⟨rfl, hb⟩ | ⟨x, y, rfl, rfl, hne, hanc⟩
  · rcases hbc with ⟨rfl, hbc⟩ | h | h
    · exact Or.inl ⟨rfl, hab.trans hbc⟩
    · exact Or.inr (Or.inl h)
    · exact Or.inr (Or.inr h)
  · refine Or.inr (Or.inl ⟨rfl, ?_⟩)
    rcases hbc with ⟨rfl, -⟩ | ⟨hb', -⟩ | ⟨x, y, -, rfl, -, -⟩
    · exact hb
    · exact absurd hb' hb
    · simp
  · rcases hbc with ⟨rfl, -⟩ | ⟨hb, -⟩ | ⟨y', z, hy, rfl, hne', hanc'⟩
    · exact Or.inr (Or.inr ⟨x, y, rfl, rfl, hne, hanc⟩)
    · cases hb
    · cases hy
      refine Or.inr (Or.inr ⟨x, z, rfl, rfl, ?_, hanc.trans hanc'⟩)
      rintro rfl
      exact hne (ancestor_antisymm hs hanc hanc')

end Ossa.Ecg
