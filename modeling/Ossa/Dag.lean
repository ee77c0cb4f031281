import Mathlib.Data.Fintype.EquivFin
import Mathlib.Data.List.Basic
import Mathlib.Logic.Function.Iterate
import Mathlib.Logic.Relation
import Mathlib.Order.WellFounded

/-!
Directed acyclic graphs that only grow.

The model of `StableDag` of the crate `daggy`, as its documentation describes it: nodes are
numbered in the order they are added, the edges of a node are listed with the newest first, and
adding edges is refused exactly when the graph would no longer be acyclic. That is decided by
repeatedly dropping the edges that leave a node no edge enters: what remains in the end is the
edges on cycles and after them.
-/

namespace Ossa.Dag

/-! ### Cycles -/

/-- No walk along the edges comes back to its first node. -/
def NoCycle (es : List (ℕ × ℕ)) : Prop := ∀ i, ¬ Relation.TransGen (fun a b => (a, b) ∈ es) i i

/-- The edges whose source some edge enters. -/
def peel (es : List (ℕ × ℕ)) : List (ℕ × ℕ) := es.filter fun e => es.any fun e' => e'.2 = e.1

variable {es : List (ℕ × ℕ)} {i j : ℕ}

lemma mem_peel {e : ℕ × ℕ} : e ∈ peel es ↔ e ∈ es ∧ ∃ e' ∈ es, e'.2 = e.1 := by
  simp [peel]

lemma transGen_peel (hi : ∃ e ∈ es, e.2 = i) (h : Relation.TransGen (fun a b => (a, b) ∈ es) i j) :
    Relation.TransGen (fun a b => (a, b) ∈ peel es) i j := by
  induction h with
  | single he => exact .single (mem_peel.mpr ⟨he, hi⟩)
  | tail hwalk he ih =>
    obtain ⟨k, -, hk⟩ := Relation.TransGen.tail'_iff.mp hwalk
    exact ih.tail (mem_peel.mpr ⟨he, _, hk, rfl⟩)

lemma NoCycle.of_peel (h : NoCycle (peel es)) : NoCycle es := by
  intro i hi
  obtain ⟨k, -, hk⟩ := Relation.TransGen.tail'_iff.mp hi
  exact h i (transGen_peel ⟨_, hk, rfl⟩ hi)

lemma NoCycle.peel (h : NoCycle es) : NoCycle (peel es) :=
  fun i hi => h i (Relation.TransGen.mono (fun _ _ he => (mem_peel.mp he).1) _ _ hi)

/-- Without a cycle, some edge has a source that no edge enters. -/
lemma NoCycle.peel_length_lt (h : NoCycle es) (hne : es ≠ []) :
    (Dag.peel es).length < es.length := by
  let before : {e // e ∈ es} → {e // e ∈ es} → Prop := fun e e' =>
    Relation.TransGen (fun a b => (a, b) ∈ es) e.1.1 e'.1.1
  have : IsTrans _ before := ⟨fun _ _ _ => Relation.TransGen.trans⟩
  have : Std.Irrefl before := ⟨fun e => h e.1.1⟩
  obtain ⟨e₀, he₀⟩ := List.exists_mem_of_ne_nil es hne
  obtain ⟨⟨e, he⟩, -, hmin⟩ := (Finite.wellFounded_of_trans_of_irrefl before).has_min
    Set.univ ⟨⟨e₀, he₀⟩, trivial⟩
  refine List.length_filter_lt_length_iff_exists.mpr ⟨e, he, fun hany => ?_⟩
  obtain ⟨e', he', heq⟩ := List.any_eq_true.mp hany
  refine hmin ⟨e', he'⟩ trivial (.single ?_)
  rwa [← of_decide_eq_true heq]

lemma noCycle_nil : NoCycle [] := by
  simp [NoCycle, Relation.TransGen.head'_iff]

lemma noCycle_iff_peel : NoCycle es ↔ (peel^[es.length] es).isEmpty = true := by
  have key : ∀ n (es : List (ℕ × ℕ)), es.length ≤ n → (peel^[n] es = [] ↔ NoCycle es) := by
    intro n
    induction n with
    | zero =>
      intro es hn
      obtain rfl := List.length_eq_zero_iff.mp (Nat.le_zero.mp hn)
      exact iff_of_true rfl noCycle_nil
    | succ n ih =>
      intro es hn
      rw [Function.iterate_succ_apply]
      by_cases hall : (peel es).length < es.length
      · rw [ih _ (by omega)]
        exact ⟨NoCycle.of_peel, NoCycle.peel⟩
      · -- nothing is dropped any more
        have hfix : peel es = es := List.filter_sublist.eq_of_length_le (Nat.not_lt.mp hall)
        rw [hfix, Function.iterate_fixed hfix]
        refine ⟨fun hnil => hnil ▸ noCycle_nil, fun hno => ?_⟩
        by_contra hne
        exact hall (hno.peel_length_lt hne)
  rw [List.isEmpty_iff, key _ es (Nat.le_refl _)]

instance : DecidablePred NoCycle := fun _ => decidable_of_iff _ noCycle_iff_peel.symm

/-! ### Graphs -/

variable {N : Type}

/-- A growing graph: the weights of its nodes, and its edges with the newest first. -/
structure StableDag (N : Type) where
  nodes : List N
  edges : List (ℕ × ℕ)

namespace StableDag

def new : StableDag N := ⟨[], []⟩

def addNode (g : StableDag N) (weight : N) : StableDag N × ℕ :=
  ({ g with nodes := g.nodes ++ [weight] }, g.nodes.length)

def nodeWeight (g : StableDag N) (i : ℕ) : Option N := g.nodes[i]?

def parents (g : StableDag N) (i : ℕ) : List ℕ := (g.edges.filter (·.2 = i)).map Prod.fst

def children (g : StableDag N) (i : ℕ) : List ℕ := (g.edges.filter (·.1 = i)).map Prod.snd

/-- Add edges in order, unless that would close a cycle. -/
def addEdges (g : StableDag N) (es : List (ℕ × ℕ)) : Option (StableDag N) :=
  if NoCycle (es.reverse ++ g.edges) then some { g with edges := es.reverse ++ g.edges } else none

def Edge (g : StableDag N) (i j : ℕ) : Prop := (i, j) ∈ g.edges

def Acyclic (g : StableDag N) : Prop := NoCycle g.edges

/-- Every edge goes from an older node to a newer one. -/
def Ascending (es : List (ℕ × ℕ)) : Prop := ∀ e ∈ es, e.1 < e.2

@[simp] lemma mem_parents {g : StableDag N} {i j : ℕ} : i ∈ g.parents j ↔ g.Edge i j := by
  simp [parents, Edge]

@[simp] lemma mem_children {g : StableDag N} {i j : ℕ} : j ∈ g.children i ↔ g.Edge i j := by
  simp [children, Edge]

lemma Ascending.lt_of_transGen {g : StableDag N} (h : Ascending g.edges) {i j : ℕ}
    (hij : Relation.TransGen g.Edge i j) : i < j := by
  induction hij with
  | single e => exact h _ e
  | tail _ e ih => exact Nat.lt_trans ih (h _ e)

lemma Ascending.acyclic {g : StableDag N} (h : Ascending g.edges) : g.Acyclic :=
  fun _ hi => Nat.lt_irrefl _ (h.lt_of_transGen hi)

lemma addEdges_eq_some {g : StableDag N} {es : List (ℕ × ℕ)}
    (h : Ascending (es.reverse ++ g.edges)) :
    g.addEdges es = some { g with edges := es.reverse ++ g.edges } :=
  if_pos (Ascending.acyclic (g := ⟨g.nodes, _⟩) h)

end StableDag

end Ossa.Dag
