import Mathlib.Order.WellFounded
import Mathlib.Data.List.Induction
import Mathlib.Data.List.Nodup
import Ossa.Linearize

/-!
Choosing the later of two elements, by a causal order first and by a key where the two are
concurrent.

The mixture of the two orders need not be transitive: `a` may happen before `b`, while a third
element `c`, concurrent with both, comes after `b` and before `a` by its key. Without such a
triple the choice is the maximum of a linear order, and does not depend on the order in which
the elements come. With one, it does.
-/

namespace Ossa.Linearize

variable {α κ : Type} (before : α → α → Prop) (key : α → κ)

/-- The history is strictly ordered by what happens before what, and has distinct keys. -/
structure History (l : List α) : Prop where
  irrefl : ∀ x ∈ l, ¬ before x x
  trans : ∀ x ∈ l, ∀ y ∈ l, ∀ z ∈ l, before x y → before y z → before x z
  nodup : (l.map key).Nodup

variable {before key} {l l' : List α} {a b c m m' x y z : α}

lemma History.inj (h : History before key l) (hx : x ∈ l) (hy : y ∈ l) (hk : key x = key y) :
    x = y := List.inj_on_of_nodup_map h.nodup hx hy hk

lemma History.sublist (h : History before key l) (hs : l'.Sublist l) : History before key l' where
  irrefl x hx := h.irrefl x (hs.subset hx)
  trans x hx y hy z hz := h.trans x (hs.subset hx) y (hs.subset hy) z (hs.subset hz)
  nodup := h.nodup.sublist (hs.map key)

variable (before key) [LinearOrder κ]

/-- `y` is chosen over `x`. -/
def Later (x y : α) : Prop := before x y ∨ ¬ before y x ∧ key x < key y

/-- `a` happens before `b`, and the key of `c`, which is concurrent with both, lies between the
key of `b` and that of `a`. -/
structure Overtaken (a b c : α) : Prop where
  causal : before a b
  not_bc : ¬ before b c
  not_cb : ¬ before c b
  not_ac : ¬ before a c
  not_ca : ¬ before c a
  key_bc : key b < key c
  key_ca : key c < key a

def Cyclic (l : List α) : Prop := ∃ a ∈ l, ∃ b ∈ l, ∃ c ∈ l, Overtaken before key a b c

/-- Nothing else in the list is later than `m`. -/
def IsLast (m : α) (l : List α) : Prop := m ∈ l ∧ ∀ x ∈ l, x = m ∨ Later before key x m

open Classical in
/-- Keep the later of two elements. -/
noncomputable def keep (x y : α) : α := if Later before key x y then y else x

variable {before key}

/-! ### The choice between two -/

lemma History.later_total (h : History before key l) (hx : x ∈ l) (hy : y ∈ l) (hne : x ≠ y) :
    Later before key x y ∨ Later before key y x := by
  have hk : key x ≠ key y := fun hk => hne (h.inj hx hy hk)
  by_cases hxy : before x y
  · exact Or.inl (Or.inl hxy)
  by_cases hyx : before y x
  · exact Or.inr (Or.inl hyx)
  exact hk.lt_or_gt.imp (fun hlt => Or.inr ⟨hyx, hlt⟩) fun hlt => Or.inr ⟨hxy, hlt⟩

lemma History.later_asymm (h : History before key l) (hx : x ∈ l) (hy : y ∈ l)
    (hxy : Later before key x y) : ¬ Later before key y x := by
  rintro (hyx | ⟨hnxy, hlt⟩)
  · rcases hxy with hxy | ⟨hnyx, -⟩
    · exact h.irrefl x hx (h.trans x hx y hy x hx hxy hyx)
    · exact hnyx hyx
  · rcases hxy with hxy | ⟨-, hlt'⟩
    · exact hnxy hxy
    · exact lt_asymm hlt hlt'

lemma overtaken_of_cycle (hxy : before x y) (hyz : ¬ before y z) (hzx : ¬ before z x)
    (h₁ : Later before key y z) (h₂ : Later before key z x) : Overtaken before key x y z where
  causal := hxy
  not_bc := hyz
  not_cb := (h₁.resolve_left hyz).1
  not_ac := (h₂.resolve_left hzx).1
  not_ca := hzx
  key_bc := (h₁.resolve_left hyz).2
  key_ca := (h₂.resolve_left hzx).2

lemma History.no_return (h : History before key l) (hx : x ∈ l) (hy : y ∈ l) (hz : z ∈ l)
    (hxy : before x y) (hyz : before y z) : ¬ Later before key z x := fun hzx =>
  h.later_asymm hx hz (Or.inl (h.trans x hx y hy z hz hxy hyz)) hzx

lemma History.no_cycle (h : History before key l) (hc : ¬ Cyclic before key l) (hx : x ∈ l)
    (hy : y ∈ l) (hz : z ∈ l) (hxy : Later before key x y) (hyz : Later before key y z) :
    ¬ Later before key z x := by
  intro hzx
  -- by the number of causal steps on the cycle
  by_cases h₁ : before x y
  · by_cases h₂ : before y z
    · exact h.no_return hx hy hz h₁ h₂ hzx
    by_cases h₃ : before z x
    · exact h.no_return hz hx hy h₃ h₁ hyz
    exact hc ⟨x, hx, y, hy, z, hz, overtaken_of_cycle h₁ h₂ h₃ hyz hzx⟩
  · by_cases h₂ : before y z
    · by_cases h₃ : before z x
      · exact h.no_return hy hz hx h₂ h₃ hxy
      exact hc ⟨y, hy, z, hz, x, hx, overtaken_of_cycle h₂ h₃ h₁ hzx hxy⟩
    · by_cases h₃ : before z x
      · exact hc ⟨z, hz, x, hx, y, hy, overtaken_of_cycle h₃ h₁ h₂ hxy hyz⟩
      have hlt := (hxy.resolve_left h₁).2.trans (hyz.resolve_left h₂).2
      exact lt_asymm hlt (hzx.resolve_left h₃).2

/-- **Without such triples** the choice is transitive. -/
theorem History.later_trans (h : History before key l) (hc : ¬ Cyclic before key l) (hx : x ∈ l)
    (hy : y ∈ l) (hz : z ∈ l) (hxy : Later before key x y) (hyz : Later before key y z) :
    Later before key x z := by
  have hne : x ≠ z := by
    rintro rfl
    exact h.later_asymm hx hy hxy hyz
  exact (h.later_total hx hz hne).resolve_right (h.no_cycle hc hx hy hz hxy hyz)

/-! ### Keeping the last -/

lemma IsLast.unique (h : History before key l) (hm : IsLast before key m l)
    (hm' : IsLast before key m' l) : m = m' := by
  rcases hm.2 m' hm'.1 with heq | hlt
  · exact heq.symm
  · rcases hm'.2 m hm.1 with heq | hlt'
    · exact heq
    · exact absurd hlt' (h.later_asymm hm'.1 hm.1 hlt)

lemma IsLast.perm (hp : l.Perm l') (hm : IsLast before key m l) : IsLast before key m l' :=
  ⟨hp.mem_iff.mp hm.1, fun x hx => hm.2 x (hp.mem_iff.mpr hx)⟩

lemma foldl_keep_mem (x : α) (l : List α) : l.foldl (keep before key) x ∈ x :: l := by
  induction l generalizing x with
  | nil => exact List.mem_cons_self
  | cons y l ih =>
    have hstep : keep before key x y = x ∨ keep before key x y = y := by
      unfold keep
      split_ifs
      · exact Or.inr rfl
      · exact Or.inl rfl
    rw [List.foldl_cons]
    rcases List.mem_cons.mp (ih (keep before key x y)) with heq | hmem
    · rw [heq]
      rcases hstep with h | h <;> simp [h]
    · exact List.mem_cons_of_mem x (List.mem_cons_of_mem y hmem)

/-- A fold that keeps the later of two keeps the last of all. -/
theorem foldl_keep_isLast (h : History before key (x :: l)) (hc : ¬ Cyclic before key (x :: l)) :
    IsLast before key (l.foldl (keep before key) x) (x :: l) := by
  induction l using List.reverseRecOn with
  | nil => exact ⟨List.mem_cons_self, fun y hy => Or.inl (List.mem_singleton.mp hy)⟩
  | append_singleton l y ih =>
    have hsub : (x :: l).Sublist (x :: (l ++ [y])) :=
      (List.sublist_append_left l [y]).cons_cons x
    have hc' : ¬ Cyclic before key (x :: l) := by
      rintro ⟨a, ha, b, hb, c, hc', ho⟩
      exact hc ⟨a, hsub.subset ha, b, hsub.subset hb, c, hsub.subset hc', ho⟩
    obtain ⟨hmem, hlast⟩ := ih (h.sublist hsub) hc'
    set m := l.foldl (keep before key) x with hm
    have hmx : m ∈ x :: (l ++ [y]) := hsub.subset hmem
    have hy : y ∈ x :: (l ++ [y]) := by simp
    have hsplit : ∀ z ∈ x :: (l ++ [y]), z ∈ x :: l ∨ z = y := by
      intro z hz
      simp only [List.mem_cons, List.mem_append, List.not_mem_nil, or_false] at hz ⊢
      tauto
    rw [List.foldl_append, ← hm]
    by_cases hlt : Later before key m y
    · have hkeep : List.foldl (keep before key) m [y] = y := if_pos hlt
      rw [hkeep]
      refine ⟨hy, fun z hz => ?_⟩
      rcases hsplit z hz with hzl | rfl
      · rcases hlast z hzl with rfl | hzm
        · exact Or.inr hlt
        · exact Or.inr (h.later_trans hc hz hmx hy hzm hlt)
      · exact Or.inl rfl
    · have hkeep : List.foldl (keep before key) m [y] = m := if_neg hlt
      rw [hkeep]
      refine ⟨hmx, fun z hz => ?_⟩
      rcases hsplit z hz with hzl | rfl
      · exact hlast z hzl
      · rcases eq_or_ne z m with rfl | hne
        · exact Or.inl rfl
        · exact Or.inr ((h.later_total hz hmx hne).resolve_right hlt)

/-! ### Orders of a history -/

omit [LinearOrder κ] in
lemma History.perm (h : History before key l) (hp : l.Perm l') : History before key l' where
  irrefl x hx := h.irrefl x (hp.mem_iff.mpr hx)
  trans x hx y hy z hz := h.trans x (hp.mem_iff.mpr hx) y (hp.mem_iff.mpr hy) z (hp.mem_iff.mpr hz)
  nodup := (hp.map key).nodup_iff.mp h.nodup

omit [LinearOrder κ] in
lemma History.cons (h : History before key l) (hs : l'.Sublist l) (hx : x ∈ l) (hn : x ∉ l') :
    History before key (x :: l') := by
  have hmem : ∀ y ∈ x :: l', y ∈ l := fun y hy =>
    (List.mem_cons.mp hy).elim (fun heq => heq ▸ hx) fun hy => hs.subset hy
  refine ⟨fun y hy => h.irrefl y (hmem y hy), fun y hy z hz w hw =>
    h.trans y (hmem y hy) z (hmem z hz) w (hmem w hw), ?_⟩
  rw [List.map_cons, List.nodup_cons]
  refine ⟨fun hk => ?_, h.nodup.sublist (hs.map key)⟩
  obtain ⟨y, hy, hkey⟩ := List.mem_map.mp hk
  exact hn (h.inj (hs.subset hy) hx hkey ▸ hy)

omit [LinearOrder κ] in
lemma History.of_mem (h : History before key l) (hs : ∀ x ∈ l', x ∈ l) (hn : l'.Nodup) :
    History before key l' where
  irrefl x hx := h.irrefl x (hs x hx)
  trans x hx y hy z hz := h.trans x (hs x hx) y (hs y hy) z (hs z hz)
  nodup := hn.map_on fun x hx y hy => h.inj (hs x hx) (hs y hy)

lemma Cyclic.mono (hs : ∀ x ∈ l, x ∈ l') (hc : Cyclic before key l) : Cyclic before key l' := by
  obtain ⟨a, ha, b, hb, c, hc, ho⟩ := hc
  exact ⟨a, hs a ha, b, hs b hb, c, hs c hc, ho⟩

lemma Cyclic.of_cons (h : History before key (x :: l)) (hx : ∀ y ∈ l, before x y)
    (hc : Cyclic before key (x :: l)) : Cyclic before key l := by
  have hirr := h.irrefl x List.mem_cons_self
  obtain ⟨a, ha, b, hb, c, hc, ho⟩ := hc
  have hcx : c ≠ x := by
    rintro rfl
    rcases List.mem_cons.mp hb with rfl | hb
    · exact lt_irrefl _ ho.key_bc
    · exact ho.not_cb (hx b hb)
  have hcl : c ∈ l := (List.mem_cons.mp hc).resolve_left hcx
  have hax : a ≠ x := by
    rintro rfl
    exact ho.not_ac (hx c hcl)
  have hbx : b ≠ x := by
    rintro rfl
    exact ho.not_bc (hx c hcl)
  exact ⟨a, (List.mem_cons.mp ha).resolve_left hax, b, (List.mem_cons.mp hb).resolve_left hbx, c,
    hcl, ho⟩

/-- **Neighbours commute** if the choice is transitive. -/
theorem foldl_keep_comm (h : History before key (a :: l)) (ha : ∀ x ∈ l, before a x)
    (hc : ¬ Cyclic before key l) {p q : List α} (hp : (p ++ x :: y :: q).Perm l) :
    (p ++ [x, y]).foldl (keep before key) a = (p ++ [y, x]).foldl (keep before key) a := by
  have hsub : (a :: (p ++ [x, y])).Sublist (a :: (p ++ x :: y :: q)) :=
    (((List.nil_sublist q).cons_cons y).cons_cons x |>.append_left p).cons_cons a
  have hist : History before key (a :: (p ++ [x, y])) :=
    (h.perm (hp.symm.cons a)).sublist hsub
  have hno : ¬ Cyclic before key (a :: (p ++ [x, y])) := fun hcyc =>
    hc ((hcyc.mono fun z hz => (hp.cons a).mem_iff.mp (hsub.subset hz)).of_cons h ha)
  have hswap : (a :: (p ++ [x, y])).Perm (a :: (p ++ [y, x])) :=
    (List.Perm.append_left p (List.Perm.swap y x [])).cons a
  have hlast := foldl_keep_isLast hist hno
  have hlast' := foldl_keep_isLast (hist.perm hswap) fun hcyc =>
    hno (hcyc.mono fun z hz => hswap.mem_iff.mpr hz)
  exact hlast.unique hist (hlast'.perm hswap.symm)

/-! ### A history on which neighbours do not commute -/

/-- What happens before `b` or before `c`. -/
def Below (before : α → α → Prop) (b c x : α) : Prop := before x b ∨ before x c

open Classical in
/-- The size of the history that `b` and `c` end. -/
noncomputable def belowSize (before : α → α → Prop) (l : List α) (t : α × α) : ℕ :=
  (l.filter fun x => Below before t.1 t.2 x).length

/-- A triple whose history is as small as possible. -/
lemma exists_least (hc : Cyclic before key l) : ∃ a ∈ l, ∃ b ∈ l, ∃ c ∈ l,
    Overtaken before key a b c ∧ ∀ a' ∈ l, ∀ b' ∈ l, ∀ c' ∈ l, Overtaken before key a' b' c' →
      belowSize before l (b, c) ≤ belowSize before l (b', c') := by
  obtain ⟨a₀, ha₀, b₀, hb₀, c₀, hc₀, ho₀⟩ := hc
  obtain ⟨t, ⟨a, ha, hb, hc, ho⟩, hmin⟩ := (measure (belowSize before l)).wf.has_min
    {t | ∃ a ∈ l, t.1 ∈ l ∧ t.2 ∈ l ∧ Overtaken before key a t.1 t.2}
    ⟨(b₀, c₀), a₀, ha₀, hb₀, hc₀, ho₀⟩
  refine ⟨a, ha, t.1, hb, t.2, hc, ho, fun a' ha' b' hb' c' hc' ho' => ?_⟩
  exact Nat.le_of_not_lt (hmin (b', c') ⟨a', ha', hb', hc', ho'⟩)

open Classical in
/-- Inside its history, a least triple meets no other. -/
lemma not_cyclic_below (h : History before key l) (hb : b ∈ l) (hc : c ∈ l)
    (hmin : ∀ a' ∈ l, ∀ b' ∈ l, ∀ c' ∈ l, Overtaken before key a' b' c' →
      belowSize before l (b, c) ≤ belowSize before l (b', c')) :
    ¬ Cyclic before key (c :: l.filter fun x => Below before b c x) := by
  rintro ⟨a', ha', b', hb', c', hc', ho⟩
  have hsub : ∀ {x}, x ∈ c :: l.filter (fun x => Below before b c x) →
      x ∈ l ∧ (x = c ∨ Below before b c x) := by
    intro x hx
    rcases List.mem_cons.mp hx with rfl | hx
    · exact ⟨hc, Or.inl rfl⟩
    · obtain ⟨hx, hbelow⟩ := List.mem_filter.mp hx
      exact ⟨hx, Or.inr (by simpa using hbelow)⟩
  obtain ⟨hbl, hbb⟩ := hsub hb'
  obtain ⟨hcl, hcc⟩ := hsub hc'
  -- everything below `b'` or `c'` is below `b` or `c`
  have hdown : ∀ y ∈ l, (y = c ∨ Below before b c y) → ∀ x ∈ l, before x y →
      Below before b c x := by
    rintro y hy (rfl | hyb | hyc) x hx hxy
    · exact Or.inr hxy
    · exact Or.inl (h.trans x hx y hy b hb hxy hyb)
    · exact Or.inr (h.trans x hx y hy c hc hxy hyc)
  have hle : ∀ x ∈ l, Below before b' c' x → Below before b c x := by
    rintro x hx (hxb | hxc)
    · exact hdown b' hbl hbb x hx hxb
    · exact hdown c' hcl hcc x hx hxc
  -- and one of `b'` and `c'` is itself below `b` or `c`
  obtain ⟨y, hy, hyb, hny⟩ : ∃ y ∈ l, Below before b c y ∧ ¬ Below before b' c' y := by
    rcases hbb with rfl | hbb
    · have hne : c' ≠ b' := by
        rintro rfl
        exact lt_irrefl _ ho.key_bc
      exact ⟨c', hcl, hcc.resolve_left hne, fun hbel =>
        hbel.elim ho.not_cb (h.irrefl c' hcl)⟩
    · exact ⟨b', hbl, hbb, fun hbel => hbel.elim (h.irrefl b' hbl) ho.not_bc⟩
  have hfilter : l.filter (fun x => Below before b' c' x) =
      (l.filter fun x => Below before b c x).filter fun x => Below before b' c' x := by
    rw [List.filter_filter]
    refine List.filter_congr fun x hx => ?_
    have := hle x hx
    by_cases hb' : Below before b' c' x <;> simp_all
  have hlt : belowSize before l (b', c') < belowSize before l (b, c) := by
    unfold belowSize
    rw [hfilter]
    exact List.length_filter_lt_length_iff_exists.mpr ⟨y, by simp [hy, hyb], by simpa using hny⟩
  exact absurd (hmin a' (hsub ha').1 b' hbl c' hcl ho) (Nat.not_le.mpr hlt)

open Classical in
omit [LinearOrder κ] in
/-- The history of `b` and `c`, then these two, then everything else. -/
lemma exists_order (h : History before key l) (hb : b ∈ l) (hc : c ∈ l) (hbc : ¬ before b c)
    (hcb : ¬ before c b) (hne : b ≠ c) :
    ∃ p q, p.Perm (l.filter fun x => Below before b c x) ∧ (p ++ b :: c :: q).Perm l ∧
      Respects before (p ++ b :: c :: q) := by
  have hnb : ¬ Below before b c b := fun hbel => hbel.elim (h.irrefl b hb) hbc
  have hnc : ¬ Below before b c c := fun hbel => hbel.elim hcb (h.irrefl c hc)
  have hsorted : ∀ r : α → Prop, ∃ p, p.Perm (l.filter fun x => r x) ∧ Respects before p :=
    fun r => exists_respects _ (fun x hx => h.irrefl x (List.mem_of_mem_filter hx))
      fun x hx y hy z hz => h.trans x (List.mem_of_mem_filter hx) y (List.mem_of_mem_filter hy) z
        (List.mem_of_mem_filter hz)
  obtain ⟨p, hp, hrp⟩ := hsorted (Below before b c)
  obtain ⟨q, hq, hrq⟩ := hsorted fun x => ¬ Below before b c x ∧ x ≠ b ∧ x ≠ c
  have hmemp : ∀ x, x ∈ p ↔ x ∈ l ∧ Below before b c x := fun x => by simp [hp.mem_iff]
  have hmemq : ∀ x, x ∈ q ↔ x ∈ l ∧ ¬ Below before b c x ∧ x ≠ b ∧ x ≠ c := fun x => by
    simp [hq.mem_iff]
  have hnodup : l.Nodup := h.nodup.of_map
  have hback : ∀ x ∈ l, Below before b c x → ∀ y ∈ l, before y x → Below before b c y := by
    rintro x hx (hxb | hxc) y hy hyx
    · exact Or.inl (h.trans y hy x hx b hb hyx hxb)
    · exact Or.inr (h.trans y hy x hx c hc hyx hxc)
  refine ⟨p, q, hp, ?_, ?_⟩
  · refine (List.perm_ext_iff_of_nodup ?_ hnodup).mpr fun x => ?_
    · have hndp : p.Nodup := hp.nodup_iff.mpr (hnodup.filter _)
      have hndq : q.Nodup := hq.nodup_iff.mpr (hnodup.filter _)
      rw [List.nodup_append, List.nodup_cons, List.nodup_cons]
      simp only [List.mem_cons, hmemp, hmemq]
      refine ⟨hndp, ⟨by tauto, by tauto, hndq⟩, ?_⟩
      rintro x ⟨hx, hbel⟩ y hy rfl
      rcases hy with rfl | rfl | hy
      · exact hnb hbel
      · exact hnc hbel
      · exact hy.2.1 hbel
    · simp only [List.mem_append, List.mem_cons, hmemp, hmemq]
      constructor
      · rintro (hx | rfl | rfl | hx)
        · exact hx.1
        · exact hb
        · exact hc
        · exact hx.1
      · intro hx
        tauto
  · simp only [respects_append, respects_cons, List.mem_cons, hmemp, hmemq]
    refine ⟨hrp, ⟨?_, fun y hy hyc => hy.2.1 (Or.inr hyc), hrq⟩, ?_⟩
    · rintro y (rfl | hy) hyb
      · exact hcb hyb
      · exact hy.2.1 (Or.inl hyb)
    · rintro x ⟨hx, hbel⟩ y (rfl | rfl | hy) hyx
      · exact hnb (hback x hx hbel _ hb hyx)
      · exact hnc (hback x hx hbel _ hc hyx)
      · exact hy.2.1 (hback x hx hbel y hy.1 hyx)

open Classical in
/-- **Neighbours do not commute** on some order of a history with such a triple. -/
theorem exists_not_comm (h : History before key (x :: l)) (hx : ∀ y ∈ l, before x y)
    (hc : Cyclic before key l) : ∃ p b c q, (p ++ b :: c :: q).Perm l ∧
      Respects before (p ++ b :: c :: q) ∧ ¬ before b c ∧ ¬ before c b ∧
      (p ++ [b, c]).foldl (keep before key) x ≠ (p ++ [c, b]).foldl (keep before key) x := by
  have hl : History before key l := h.sublist (List.sublist_cons_self x l)
  obtain ⟨a, ha, b, hb, c, hc, ho, hmin⟩ := exists_least hc
  have hne : b ≠ c := by
    rintro rfl
    exact lt_irrefl _ ho.key_bc
  obtain ⟨p, q, hp, hperm, hr⟩ := exists_order hl hb hc ho.not_bc ho.not_cb hne
  refine ⟨p, b, c, q, hperm, hr, ho.not_bc, ho.not_cb, ?_⟩
  have hno := not_cyclic_below hl hb hc hmin
  have hsub : (l.filter fun x => Below before b c x).Sublist l := List.filter_sublist
  have hmem : ∀ y, y ∈ p ↔ y ∈ l ∧ Below before b c y := fun y => by simp [hp.mem_iff]
  -- the fold over the history of `b` and `c` ends in some `e` of this history
  have hsub' : (x :: l.filter fun x => Below before b c x).Sublist (x :: l) := hsub.cons_cons x
  have hist : History before key (x :: p) := (h.sublist hsub').perm (hp.symm.cons x)
  have hxp : ∀ y ∈ p, before x y := fun y hy => hx y ((hmem y).mp hy).1
  obtain ⟨hmeme, hlast⟩ := foldl_keep_isLast hist fun hcyc =>
    hno ((hcyc.of_cons hist hxp).mono fun y hy => List.mem_cons_of_mem c (hp.mem_iff.mp hy))
  set e := p.foldl (keep before key) x with he
  have hap : a ∈ p := (hmem a).mpr ⟨ha, Or.inl ho.causal⟩
  have hxa : Later before key x a := Or.inl (hx a ha)
  have hxl : x ∈ x :: l := List.mem_cons_self
  have hal : a ∈ x :: l := List.mem_cons_of_mem x ha
  have hep : e ∈ p := by
    refine (List.mem_cons.mp hmeme).resolve_left fun hex => ?_
    rcases hlast a (List.mem_cons_of_mem x hap) with heq | hlt
    · rw [hex] at heq
      exact h.irrefl x hxl (heq ▸ hx a ha)
    · rw [hex] at hlt
      exact h.later_asymm hxl hal hxa hlt
  obtain ⟨hel, hbel⟩ := (hmem e).mp hep
  -- `e` is later than `c`, since `a` is; so it happens before `b`
  have hcl : ∀ {y}, y ∈ p → y ∈ c :: l.filter fun x => Below before b c x := fun hy =>
    List.mem_cons_of_mem c (hp.mem_iff.mp hy)
  have hca : Later before key c a := Or.inr ⟨ho.not_ac, ho.key_ca⟩
  have hce : Later before key c e := by
    rcases hlast a (List.mem_cons_of_mem x hap) with heq | hlt
    · exact heq ▸ hca
    · have hnc : c ∉ l.filter fun x => Below before b c x := fun hmc => by
        have hbel : Below before b c c := by simpa using (List.mem_filter.mp hmc).2
        exact hbel.elim ho.not_cb (hl.irrefl c hc)
      exact (hl.cons hsub hc hnc).later_trans hno List.mem_cons_self (hcl hap) (hcl hep) hca hlt
  have heb : Later before key e b := by
    rcases hbel with hbel | hbel
    · exact Or.inl hbel
    · exact absurd (Or.inl hbel) (hl.later_asymm hc hel hce)
  have hbc : Later before key b c := Or.inr ⟨ho.not_cb, ho.key_bc⟩
  have hec : ¬ Later before key e c := hl.later_asymm hc hel hce
  rw [List.foldl_append, List.foldl_append, ← he]
  simp [keep, heb, hbc, hec, hne.symm]

end Ossa.Linearize
