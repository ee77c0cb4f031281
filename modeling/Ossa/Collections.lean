import Mathlib.Data.List.Sort
import Mathlib.Data.Prod.Lex
import Mathlib.Data.Finset.Card
import Mathlib.Order.Lex
import Mathlib.Order.Compare
import Std.Data.ExtTreeSet
import Std.Data.ExtTreeMap

/-!
Ordered sets and maps, and a priority queue.

The ordered collections are the standard library's extensional trees, so that two of them
with the same entries are equal. The priority queue keeps its entries in descending order;
entries that compare equal are equal, so this order says all a binary heap promises.
-/

namespace Ossa.Collections

variable {α β : Type} [LinearOrder α]

abbrev BTreeSet (α : Type) [LinearOrder α] := Std.ExtTreeSet α compare
abbrev BTreeMap (α β : Type) [LinearOrder α] := Std.ExtTreeMap α β compare

instance instTransCmpCompare : Std.TransCmp (compare : α → α → Ordering) := inferInstance

/-! ### Lists -/

variable {γ δ : Type}

lemma mapM_cons_eq_some {f : γ → Option δ} {a : γ} {l : List γ} {r : List δ} :
    (a :: l).mapM f = some r ↔ ∃ b t, f a = some b ∧ l.mapM f = some t ∧ r = b :: t := by
  rw [List.mapM_cons]
  simp only [bind, Option.bind_eq_some_iff, pure, Option.some.injEq]
  grind

lemma mem_of_mapM {f : γ → Option δ} {l : List γ} {r : List δ} (h : l.mapM f = some r) {b : δ} :
    b ∈ r ↔ ∃ a ∈ l, f a = some b := by
  induction l generalizing r with
  | nil => cases h; simp
  | cons a l ih =>
    obtain ⟨c, t, hc, ht, rfl⟩ := mapM_cons_eq_some.mp h
    rw [List.mem_cons, ih ht, List.exists_mem_cons_iff, hc, Option.some.injEq, eq_comm]

lemma exists_mapM {f : γ → Option δ} {l : List γ} (h : ∀ a ∈ l, ∃ b, f a = some b) :
    ∃ r, l.mapM f = some r := by
  induction l with
  | nil => exact ⟨[], rfl⟩
  | cons a l ih =>
    obtain ⟨b, hb⟩ := h a List.mem_cons_self
    obtain ⟨t, ht⟩ := ih fun a ha => h a (List.mem_cons_of_mem _ ha)
    exact ⟨b :: t, mapM_cons_eq_some.mpr ⟨b, t, hb, ht, rfl⟩⟩

lemma exists_of_mapM {f : γ → Option δ} {l : List γ} {r : List δ} (h : l.mapM f = some r)
    {a : γ} (ha : a ∈ l) : ∃ b ∈ r, f a = some b := by
  induction l generalizing r with
  | nil => cases ha
  | cons c l ih =>
    obtain ⟨b, t, hb, ht, rfl⟩ := mapM_cons_eq_some.mp h
    rcases List.mem_cons.mp ha with rfl | ha
    · exact ⟨b, List.mem_cons_self, hb⟩
    · obtain ⟨b', hb', hf⟩ := ih ht ha
      exact ⟨b', List.mem_cons_of_mem _ hb', hf⟩

lemma length_of_mapM {f : γ → Option δ} {l : List γ} {r : List δ} (h : l.mapM f = some r) :
    r.length = l.length := by
  induction l generalizing r with
  | nil => cases h; rfl
  | cons a l ih =>
    obtain ⟨b, t, -, ht, rfl⟩ := mapM_cons_eq_some.mp h
    rw [List.length_cons, List.length_cons, ih ht]

lemma getElem?_of_mapM {f : γ → Option δ} {l : List γ} {r : List δ} (h : l.mapM f = some r)
    (i : ℕ) : r[i]? = l[i]? >>= f := by
  induction l generalizing r i with
  | nil => cases h; rfl
  | cons a l ih =>
    obtain ⟨b, t, hb, ht, rfl⟩ := mapM_cons_eq_some.mp h
    cases i with
    | zero => simp [hb]
    | succ i => simp only [List.getElem?_cons_succ, ih ht]

lemma mapM_isEmpty {f : γ → Option δ} {l : List γ} {r : List δ} (h : l.mapM f = some r) :
    r.isEmpty = l.isEmpty := by
  cases l with
  | nil => cases h; rfl
  | cons a l =>
    obtain ⟨b, t, -, -, rfl⟩ := mapM_cons_eq_some.mp h
    rfl

/-! ### Sets -/

lemma mem_insert {s : BTreeSet α} {a b : α} : a ∈ s.insert b ↔ a = b ∨ a ∈ s := by
  rw [Std.ExtTreeSet.mem_insert, compare_eq_iff_eq, eq_comm]

lemma mem_erase {s : BTreeSet α} {a b : α} : a ∈ s.erase b ↔ a ≠ b ∧ a ∈ s := by
  rw [Std.ExtTreeSet.mem_erase, ne_eq, compare_eq_iff_eq, eq_comm]

lemma mem_foldl_erase (l : List α) (s : BTreeSet α) (a : α) :
    a ∈ l.foldl Std.ExtTreeSet.erase s ↔ a ∉ l ∧ a ∈ s := by
  induction l generalizing s with
  | nil => simp
  | cons b l ih =>
    rw [List.foldl_cons, ih, mem_erase, List.mem_cons]
    tauto

lemma set_ext {s t : BTreeSet α} (h : ∀ a, a ∈ s ↔ a ∈ t) : s = t :=
  Std.ExtTreeSet.ext_mem fun {a} => h a

lemma nodup_toList (s : BTreeSet α) : s.toList.Nodup :=
  (Std.ExtTreeSet.distinct_toList (t := s)).imp fun {x y} hxy => by simpa using hxy

lemma card_toFinset (s : BTreeSet α) : s.toList.toFinset.card = s.size := by
  rw [List.toFinset_card_of_nodup (nodup_toList s), Std.ExtTreeSet.length_toList]

lemma size_le_size {s t : BTreeSet α} (h : ∀ a ∈ s, a ∈ t) : s.size ≤ t.size := by
  rw [← card_toFinset s, ← card_toFinset t]
  exact Finset.card_le_card fun x hx => by simpa using h x (by simpa using hx)

lemma size_le_length {s : BTreeSet α} {l : List α} (h : ∀ a ∈ s, a ∈ l) : s.size ≤ l.length := by
  rw [← card_toFinset s]
  calc s.toList.toFinset.card ≤ l.toFinset.card :=
        Finset.card_le_card fun x hx => by simpa using h x (by simpa using hx)
    _ ≤ l.length := l.toFinset_card_le

lemma size_lt_size {s t : BTreeSet α} (h : ∀ a ∈ s, a ∈ t) {a : α} (ht : a ∈ t) (hs : a ∉ s) :
    s.size < t.size := by
  rw [← card_toFinset s, ← card_toFinset t]
  refine Finset.card_lt_card ⟨fun x hx => ?_, fun hsub => hs ?_⟩
  · simpa using h x (by simpa using hx)
  · simpa using hsub (by simpa using ht)

/-! ### Maps -/

lemma get_insert {m : BTreeMap α β} {a b : α} {v : β} :
    (m.insert b v)[a]? = if a = b then some v else m[a]? := by
  rw [Std.ExtTreeMap.getElem?_insert]
  simp only [compare_eq_iff_eq, @eq_comm _ b a]

def containsKey (m : BTreeMap α β) (a : α) : Bool := m.contains a

/-- An entry that is there stays. -/
def tryInsert (m : BTreeMap α β) (a : α) (v : β) : BTreeMap α β × Bool :=
  if containsKey m a then (m, false) else (m.insert a v, true)

lemma insert_insert (m : BTreeMap α β) (a : α) (v w : β) :
    (m.insert a v).insert a w = m.insert a w := by
  refine Std.ExtTreeMap.ext_getElem? fun b => ?_
  simp only [get_insert]
  split_ifs <;> rfl

lemma contains_iff {m : BTreeMap α β} {a : α} : m.contains a ↔ ∃ v, m[a]? = some v := by
  rw [Std.ExtTreeMap.contains_eq_isSome_getElem?, Option.isSome_iff_exists]

lemma mem_toList {m : BTreeMap α β} {a : α} {v : β} : (a, v) ∈ m.toList ↔ m[a]? = some v :=
  Std.ExtTreeMap.mem_toList_iff_getElem?_eq_some

lemma nodup_keys (m : BTreeMap α β) : (m.toList.map Prod.fst).Nodup := by
  rw [List.Nodup, List.pairwise_map]
  exact Std.ExtTreeMap.distinct_keys_toList.imp fun h => mt compare_eq_iff_eq.mpr h

lemma toList_empty : (∅ : BTreeMap α β).toList = [] := by
  refine List.eq_nil_iff_forall_not_mem.mpr fun e he => ?_
  have hget := mem_toList.mp (show (e.1, e.2) ∈ (∅ : BTreeMap α β).toList from he)
  rw [Std.ExtTreeMap.getElem?_empty] at hget
  cases hget

lemma mem_toList_insert {m : BTreeMap α β} {a : α} {v : β} {e : α × β}
    (h : e ∈ (m.insert a v).toList) : e = (a, v) ∨ e ∈ m.toList := by
  have hget := mem_toList.mp (show (e.1, e.2) ∈ _ from h)
  rw [get_insert] at hget
  split_ifs at hget with hk
  · exact Or.inl (Prod.ext hk (Option.some.inj hget).symm)
  · exact Or.inr (mem_toList.mpr hget)

lemma perm_toList_insert {m : BTreeMap α β} {a : α} {v : β} (h : m[a]? = none) :
    (m.insert a v).toList.Perm ((a, v) :: m.toList) := by
  have hnodup : ∀ m : BTreeMap α β, m.toList.Nodup := fun m => (nodup_keys m).of_map
  have hnot : (a, v) ∉ m.toList := fun hmem => by
    rw [mem_toList.mp hmem] at h
    cases h
  refine (List.perm_ext_iff_of_nodup (hnodup _) (List.nodup_cons.mpr ⟨hnot, hnodup m⟩)).mpr
    fun e => ?_
  rw [List.mem_cons]
  refine ⟨mem_toList_insert, fun hmem => ?_⟩
  refine mem_toList.mpr (get_insert.trans ?_)
  rcases hmem with rfl | hmem
  · exact if_pos rfl
  · have hget := mem_toList.mp (show (e.1, e.2) ∈ m.toList from hmem)
    rw [if_neg, hget]
    rintro rfl
    rw [h] at hget
    cases hget

/-! ### The priority queue -/

/-- A binary heap, as the descending list of its entries. -/
structure BinaryHeap (α : Type) [LinearOrder α] where
  elems : List α
  sorted : elems.Pairwise (· ≥ ·)

namespace BinaryHeap

def empty : BinaryHeap α := ⟨[], .nil⟩

def push (q : BinaryHeap α) (a : α) : BinaryHeap α :=
  ⟨q.elems.orderedInsert (· ≥ ·) a, q.sorted.orderedInsert a⟩

def extend (q : BinaryHeap α) (l : List α) : BinaryHeap α := l.foldl push q

def pop (q : BinaryHeap α) : Option (α × BinaryHeap α) :=
  match q with
  | ⟨[], _⟩ => none
  | ⟨a :: l, h⟩ => some (a, ⟨l, h.tail⟩)

/-- The entries, without their order. -/
def entries (q : BinaryHeap α) : Multiset α := q.elems

instance : Membership α (BinaryHeap α) := ⟨fun q a => a ∈ q.elems⟩

lemma mem_entries {q : BinaryHeap α} {a : α} : a ∈ q.entries ↔ a ∈ q := Iff.rfl

@[simp] lemma not_mem_empty (a : α) : a ∉ (empty : BinaryHeap α) := List.not_mem_nil

@[simp] lemma entries_push (q : BinaryHeap α) (a : α) : (q.push a).entries = a ::ₘ q.entries :=
  Multiset.coe_eq_coe.mpr (List.perm_orderedInsert _ a q.elems)

@[simp] lemma entries_extend (q : BinaryHeap α) (l : List α) :
    (q.extend l).entries = q.entries + l := by
  induction l generalizing q with
  | nil => simp [extend]
  | cons a l ih =>
    have h : q.extend (a :: l) = (q.push a).extend l := rfl
    rw [h, ih, entries_push, ← Multiset.cons_coe, Multiset.add_cons, Multiset.cons_add]

@[simp] lemma mem_push {q : BinaryHeap α} {a b : α} : a ∈ q.push b ↔ a = b ∨ a ∈ q := by
  simp [← mem_entries]

@[simp] lemma mem_extend {q : BinaryHeap α} {l : List α} {a : α} :
    a ∈ q.extend l ↔ a ∈ q ∨ a ∈ l := by
  simp [← mem_entries]

lemma entries_of_pop {q q' : BinaryHeap α} {a : α} (h : q.pop = some (a, q')) :
    q.entries = a ::ₘ q'.entries := by
  obtain ⟨l, hl⟩ := q
  cases l with
  | nil => cases h
  | cons b l => cases h; rfl

lemma mem_of_pop {q q' : BinaryHeap α} {a b : α} (h : q.pop = some (a, q')) :
    b ∈ q ↔ b = a ∨ b ∈ q' := by
  simp [← mem_entries, entries_of_pop h]

lemma le_of_pop {q q' : BinaryHeap α} {a b : α} (h : q.pop = some (a, q')) (hb : b ∈ q) :
    b ≤ a := by
  obtain ⟨l, hl⟩ := q
  cases l with
  | nil => cases h
  | cons c l =>
    cases h
    rcases List.mem_cons.mp hb with rfl | hb
    · exact le_refl _
    · exact (List.pairwise_cons.mp hl).1 b hb

lemma pop_eq_none {q : BinaryHeap α} (h : q.pop = none) (a : α) : a ∉ q := by
  obtain ⟨l, hl⟩ := q
  cases l with
  | nil => exact List.not_mem_nil
  | cons b l => cases h

end BinaryHeap

end Ossa.Collections
