import Mathlib.Data.List.Induction
import Mathlib.Data.List.Perm.Basic
import Mathlib.Data.List.Pairwise

/-!
Orders of a finite history that respect what happens before what.

Two such orders of the same history can be turned into each other by swapping neighbours
neither of which happens before the other. So a fold gives the same result along both as soon
as such neighbours commute where they are applied.
-/

namespace Ossa.Linearize

variable {α σ ε : Type} (before : α → α → Prop)

/-- No element happens before one that stands ahead of it. -/
def Respects (l : List α) : Prop := l.Pairwise fun x y => ¬ before y x

variable {before} {l l' p q : List α} {x y : α} {f : σ → α → Except ε σ} {s : σ}

lemma respects_append : Respects before (p ++ q) ↔
    Respects before p ∧ Respects before q ∧ ∀ x ∈ p, ∀ y ∈ q, ¬ before y x :=
  List.pairwise_append

lemma respects_cons : Respects before (x :: l) ↔ (∀ y ∈ l, ¬ before y x) ∧ Respects before l :=
  List.pairwise_cons

lemma Respects.swap (h : Respects before (p ++ x :: y :: q)) (hxy : ¬ before x y) :
    Respects before (p ++ y :: x :: q) := by
  simp only [respects_append, respects_cons, List.mem_cons] at h ⊢
  obtain ⟨hp, ⟨hx, hy, hq⟩, hpq⟩ := h
  refine ⟨hp, ⟨?_, fun z hz => hx z (Or.inr hz), hq⟩, fun a ha z hz => hpq a ha z (by tauto)⟩
  rintro z (rfl | hz)
  · exact hxy
  · exact hy z hz

/-- Adjacent swaps of concurrent elements. -/
inductive Swaps (before : α → α → Prop) : List α → List α → Prop
  | refl (l : List α) : Swaps before l l
  | swap {p q l : List α} {x y : α} : ¬ before x y → ¬ before y x →
      Swaps before (p ++ y :: x :: q) l → Swaps before (p ++ x :: y :: q) l

lemma Swaps.trans {l₁ l₂ l₃ : List α} (h : Swaps before l₁ l₂) (h' : Swaps before l₂ l₃) :
    Swaps before l₁ l₃ := by
  induction h with
  | refl => exact h'
  | swap hxy hyx _ ih => exact .swap hxy hyx (ih h')

lemma Swaps.cons (x : α) (h : Swaps before l l') : Swaps before (x :: l) (x :: l') := by
  induction h with
  | refl => exact .refl _
  | swap hxy hyx _ ih => exact .swap (p := x :: _) hxy hyx ih

lemma swaps_to_front (h : ∀ y ∈ p, ¬ before x y ∧ ¬ before y x) :
    Swaps before (p ++ x :: q) (x :: (p ++ q)) := by
  induction p with
  | nil => exact .refl _
  | cons y p ih =>
    obtain ⟨hxy, hyx⟩ := h y List.mem_cons_self
    have htail := ih fun z hz => h z (List.mem_cons_of_mem y hz)
    have hlast : Swaps before (y :: x :: (p ++ q)) (x :: (y :: p ++ q)) :=
      .swap (p := []) hyx hxy (.refl _)
    exact (htail.cons y).trans hlast

/-- **Two orders of one history** differ by swaps of concurrent neighbours. -/
theorem swaps_of_perm (h : l.Perm l') (hl : Respects before l) (hl' : Respects before l') :
    Swaps before l l' := by
  induction l' generalizing l with
  | nil =>
    rw [h.eq_nil]
    exact .refl _
  | cons x l' ih =>
    obtain ⟨p, q, rfl⟩ := List.append_of_mem (h.mem_iff.mpr List.mem_cons_self)
    have hperm : (p ++ q).Perm l' := (List.perm_middle.symm.trans h).cons_inv
    obtain ⟨hp, hxq, hpx⟩ := respects_append.mp hl
    obtain ⟨hx, hq⟩ := respects_cons.mp hxq
    obtain ⟨hx', htail⟩ := respects_cons.mp hl'
    have hfront := swaps_to_front (q := q) fun y hy =>
      ⟨hpx y hy x List.mem_cons_self, hx' y (hperm.mem_iff.mp (List.mem_append_left q hy))⟩
    have hpq : Respects before (p ++ q) :=
      respects_append.mpr ⟨hp, hq, fun a ha b hb => hpx a ha b (List.mem_cons_of_mem x hb)⟩
    exact hfront.trans ((ih hperm hpq htail).cons x)

/-- **Confluence**: a fold gives one result along all orders of a history, if concurrent
neighbours may be swapped wherever they meet. -/
theorem foldlM_eq_of_perm (h : l.Perm l') (hl : Respects before l) (hl' : Respects before l')
    (hswap : ∀ p x y q, (p ++ x :: y :: q).Perm l → Respects before (p ++ x :: y :: q) →
      ¬ before x y → ¬ before y x → (p ++ [x, y]).foldlM f s = (p ++ [y, x]).foldlM f s) :
    l.foldlM f s = l'.foldlM f s := by
  have hs := swaps_of_perm h hl hl'
  clear h hl'
  induction hs with
  | refl => rfl
  | @swap p q l' x y hxy hyx _ ih =>
    have hperm : (p ++ y :: x :: q).Perm (p ++ x :: y :: q) :=
      List.Perm.append_left p (List.Perm.swap x y q)
    rw [← ih (hl.swap hxy) fun p' x' y' q' hp => hswap p' x' y' q' (hp.trans hperm)]
    have hsplit : ∀ a b, (p ++ a :: b :: q).foldlM f s =
        (p ++ [a, b]).foldlM f s >>= fun t => q.foldlM f t := fun a b => by
      rw [← List.foldlM_append, List.append_assoc]
      rfl
    rw [hsplit, hsplit, hswap p x y q (List.Perm.refl _) hl hxy hyx]

/-- Two folds agree if their steps do, wherever the first of them gets. -/
theorem foldlM_congr {g : σ → α → Except ε σ} (h : ∀ p x q t, l = p ++ x :: q →
    p.foldlM f s = .ok t → g t x = f t x) : l.foldlM g s = l.foldlM f s := by
  induction l using List.reverseRecOn with
  | nil => rfl
  | append_singleton l x ih =>
    have hl : l.foldlM g s = l.foldlM f s := ih fun p y q t hl =>
      h p y (q ++ [x]) t (by rw [hl, List.append_assoc]; rfl)
    rw [List.foldlM_append, List.foldlM_append, hl]
    cases hr : l.foldlM f s with
    | error e => rfl
    | ok t =>
      change [x].foldlM g t = [x].foldlM f t
      rw [List.foldlM_cons, List.foldlM_cons, h l x [] t rfl hr]
      rfl

lemma foldlM_flatMap {β : Type} (g : β → List α) (l : List β) (s : σ) :
    (l.flatMap g).foldlM f s = l.foldlM (fun s a => (g a).foldlM f s) s := by
  induction l generalizing s with
  | nil => rfl
  | cons a l ih => simp only [List.flatMap_cons, List.foldlM_append, List.foldlM_cons, ih]

/-- Every finite history has an order: each element goes right after all that happens before
it. -/
lemma exists_respects (l : List α) (hirr : ∀ x ∈ l, ¬ before x x)
    (htrans : ∀ x ∈ l, ∀ y ∈ l, ∀ z ∈ l, before x y → before y z → before x z) :
    ∃ l', l'.Perm l ∧ Respects before l' := by
  classical
  induction l with
  | nil => exact ⟨[], List.Perm.refl _, List.Pairwise.nil⟩
  | cons x l ih =>
    obtain ⟨l', hperm, hl'⟩ := ih (fun y hy => hirr y (List.mem_cons_of_mem x hy))
      fun a ha b hb c hc => htrans a (List.mem_cons_of_mem x ha) b (List.mem_cons_of_mem x hb) c
        (List.mem_cons_of_mem x hc)
    have hx : x ∈ x :: l := List.mem_cons_self
    have hmem : ∀ {y}, y ∈ l' → y ∈ x :: l := fun hy =>
      List.mem_cons_of_mem x (hperm.mem_iff.mp hy)
    refine ⟨l'.filter (fun y => before y x) ++ x :: l'.filter (fun y => !before y x), ?_, ?_⟩
    · exact List.perm_middle.trans (((List.filter_append_perm _ l').trans hperm).cons x)
    · rw [respects_append, respects_cons]
      simp only [List.mem_filter, List.mem_cons, decide_eq_true_eq, Bool.not_eq_true',
        decide_eq_false_iff_not]
      refine ⟨hl'.filter _, ⟨fun y hy => hy.2, hl'.filter _⟩, ?_⟩
      rintro y ⟨hy, hyx⟩ z (rfl | ⟨hz, hzx⟩) hzy
      · exact hirr _ hx (htrans _ hx _ (hmem hy) _ hx hzy hyx)
      · exact hzx (htrans _ (hmem hz) _ (hmem hy) _ hx hzy hyx)

/-- Two elements can be made neighbours and swapped, unless the first happens before the second:
what happens after the first goes behind both. -/
lemma Respects.exists_swap {m : List α} (h : Respects before (p ++ x :: (m ++ y :: q)))
    (htrans : ∀ a ∈ m, ∀ b ∈ y :: m, before x a → before a b → before x b) (hxy : ¬ before x y) :
    ∃ m₁ m₂, (m₁ ++ m₂).Perm m ∧ Respects before (p ++ m₁ ++ y :: x :: (m₂ ++ q)) := by
  classical
  refine ⟨m.filter (fun z => !before x z), m.filter (fun z => before x z), ?_, ?_⟩
  · exact List.perm_append_comm.trans (List.filter_append_perm _ m)
  · simp only [respects_append, respects_cons, List.mem_append, List.mem_cons, List.mem_filter,
      decide_eq_true_eq, Bool.not_eq_true', decide_eq_false_iff_not] at h ⊢
    obtain ⟨hp, ⟨hx, hm, ⟨hy, hq⟩, hmy⟩, hpx⟩ := h
    refine ⟨⟨hp, hm.filter _, fun a ha b hb => hpx a ha b (by tauto)⟩,
      ⟨?_, ?_, hm.filter _, hq, fun a ha b hb => hmy a ha.1 b (Or.inr hb)⟩, ?_⟩
    · rintro z (rfl | ⟨hz, hxz⟩ | hz)
      · exact hxy
      · exact fun hzy => hxy (htrans z hz _ List.mem_cons_self hxz hzy)
      · exact hy z hz
    · rintro z (⟨hz, -⟩ | hz)
      · exact hx z (by tauto)
      · exact hx z (by tauto)
    · rintro a (ha | ⟨ha, hxa⟩) b (rfl | rfl | ⟨hb, hxb⟩ | hb)
      · exact hpx a ha _ (by tauto)
      · exact hpx a ha _ (by tauto)
      · exact hpx a ha b (by tauto)
      · exact hpx a ha b (by tauto)
      · exact hmy a ha _ (by tauto)
      · exact hxa
      · exact fun hba => hxa (htrans b hb a (List.mem_cons_of_mem y ha) hxb hba)
      · exact hmy a ha b (by tauto)

lemma exists_adjacent {β : Type} {g : α → Option β} {p q : List β} {u w : β}
    (hr : Respects before l) (hsel : l.filterMap g = p ++ u :: w :: q)
    (htrans : ∀ x ∈ l, ∀ y ∈ l, ∀ z ∈ l, before x y → before y z → before x z)
    (huw : ∀ x y, g x = some u → g y = some w → ¬ before x y) :
    ∃ p' q' x y, g x = some u ∧ g y = some w ∧ p'.filterMap g = p ∧ q'.filterMap g = q ∧
      (p' ++ y :: x :: q').Perm l ∧ Respects before (p' ++ y :: x :: q') := by
  obtain ⟨p', l₁, rfl, hp', h₁⟩ := List.filterMap_eq_append_iff.mp hsel
  obtain ⟨p₁, x, l₂, rfl, hp₁, hx, h₂⟩ := List.filterMap_eq_cons_iff.mp h₁
  obtain ⟨n, y, q', rfl, hn, hy, hq'⟩ := List.filterMap_eq_cons_iff.mp h₂
  rw [← List.append_assoc] at hr htrans ⊢
  obtain ⟨n₁, n₂, hperm, hr'⟩ := hr.exists_swap (fun a ha b hb => htrans x (by simp) a (by simp [ha])
    b (by simp only [List.mem_cons] at hb; simp; tauto)) (huw x y hx hy)
  have hnone : ∀ z ∈ n₁ ++ n₂, g z = none := fun z hz => hn z (hperm.mem_iff.mp hz)
  have hn₁ : n₁.filterMap g = [] := List.filterMap_eq_nil_iff.mpr fun z hz =>
    hnone z (List.mem_append_left _ hz)
  have hn₂ : n₂.filterMap g = [] := List.filterMap_eq_nil_iff.mpr fun z hz =>
    hnone z (List.mem_append_right _ hz)
  have hp₁' : p₁.filterMap g = [] := List.filterMap_eq_nil_iff.mpr hp₁
  refine ⟨p' ++ p₁ ++ n₁, n₂ ++ q', x, y, hx, hy, ?_, ?_, ?_, hr'⟩
  · simp only [List.filterMap_append, hp', hp₁', hn₁, List.append_nil]
  · simp only [List.filterMap_append, hn₂, hq', List.nil_append]
  · rw [List.append_assoc (p' ++ p₁)]
    refine List.Perm.append_left _ ?_
    calc (n₁ ++ y :: x :: (n₂ ++ q')).Perm (y :: x :: (n₁ ++ (n₂ ++ q'))) :=
          List.perm_middle.trans (List.perm_middle.cons y)
      List.Perm _ (x :: y :: (n ++ q')) := by
          rw [← List.append_assoc]
          exact (List.Perm.swap x y _).trans (((hperm.append_right q').cons y).cons x)
      List.Perm _ (x :: (n ++ y :: q')) := List.perm_middle.symm.cons x

/-- **An order of a part of a history** is that of an order of the whole history. -/
theorem exists_extension {β : Type} {g : α → Option β} {before' : β → β → Prop} {m m' : List β}
    (hs : Swaps before' m m')
    (hg : ∀ x y u w, g x = some u → g y = some w → before x y → before' u w)
    (htrans : ∀ x ∈ l, ∀ y ∈ l, ∀ z ∈ l, before x y → before y z → before x z)
    (hr : Respects before l) (hm : l.filterMap g = m) :
    ∃ l', l'.Perm l ∧ Respects before l' ∧ l'.filterMap g = m' := by
  induction hs generalizing l with
  | refl => exact ⟨l, .refl _, hr, hm⟩
  | @swap p q m' u w huw hwu _ ih =>
    obtain ⟨p', q', x, y, hx, hy, rfl, rfl, hperm, hr'⟩ :=
      exists_adjacent hr hm htrans fun x y hx hy hxy => huw (hg x y u w hx hy hxy)
    have hsel : (p' ++ y :: x :: q').filterMap g = p'.filterMap g ++ w :: u :: q'.filterMap g := by
      simp only [List.filterMap_append, List.filterMap_cons, hx, hy]
    obtain ⟨l', hl', hresp, hsel'⟩ := ih (fun a ha b hb c hc => htrans a (hperm.mem_iff.mp ha) b
      (hperm.mem_iff.mp hb) c (hperm.mem_iff.mp hc)) hr' hsel
    exact ⟨l', hl'.trans hperm, hresp, hsel'⟩

end Ossa.Linearize
