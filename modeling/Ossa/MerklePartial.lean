import Ossa.MerkleLayout

/-!
The partial merkle tree, as it is filled in by peers.

Nodes are verified from the root down, two siblings at a time. What is kept between calls of
`set` is that the children of a node are verified together, below a verified node, and that a
verified node never has two unverified children: those would have been checked. While a call
runs, some nodes still wait for this check.
-/

namespace Ossa.Util.MerkleTree

open Ossa.Loop Ossa.Collections

variable {H : Type} {t t' t'' : MerkleTree (Potential H)} {i k : ℕ} {p l r : Potential H}

@[simp] lemma verified?_none : (Potential.none : Potential H).verified? = none := rfl

@[simp] lemma verified?_unverified (h : H) : (Potential.unverified h).verified? = none := rfl

@[simp] lemma verified?_verified (h : H) : (Potential.verified h).verified? = some h := rfl

lemma verified?_eq_some {p : Potential H} {h : H} : p.verified? = some h ↔ p = .verified h := by
  cases p <;> simp

/-! ### Replacing children -/

/-- The verified nodes of `t` are verified in `t'`. -/
structure Keeps (t t' : MerkleTree (Potential H)) : Prop where
  length : t'.nodes.length = t.nodes.length
  verified (k : ℕ) (h : H) : t.nodes[k]? = some (.verified h) → t'.nodes[k]? = some (.verified h)

lemma Keeps.refl (t : MerkleTree (Potential H)) : Keeps t t := ⟨rfl, fun _ _ hk => hk⟩

lemma Keeps.trans (h₁ : Keeps t t') (h₂ : Keeps t' t'') : Keeps t t'' :=
  ⟨h₂.length.trans h₁.length, fun k h hk => h₂.verified k h (h₁.verified k h hk)⟩

lemma getElem?_setChildren_left (hi : 2 * i + 1 < t.nodes.length) :
    (t.setChildren i l r).nodes[2 * i + 1]? = some l := by
  rw [setChildren, List.getElem?_set_ne (by omega), List.getElem?_set_self hi]

lemma getElem?_setChildren_right (hi : 2 * i + 2 < t.nodes.length) :
    (t.setChildren i l r).nodes[2 * i + 2]? = some r := by
  rw [setChildren, List.getElem?_set_self (by rw [List.length_set]; exact hi)]

lemma getElem?_setChildren_ne (hl : k ≠ 2 * i + 1) (hr : k ≠ 2 * i + 2) :
    (t.setChildren i l r).nodes[k]? = t.nodes[k]? := by
  rw [setChildren, List.getElem?_set_ne hr.symm, List.getElem?_set_ne hl.symm]

lemma length_setChildren : (t.setChildren i l r).nodes.length = t.nodes.length := by
  simp [setChildren]

lemma keeps_setChildren {a b : Potential H} (hl : t.nodes[2 * i + 1]? = some a)
    (hr : t.nodes[2 * i + 2]? = some b) (ha : a.verified? = none) (hb : b.verified? = none) :
    Keeps t (t.setChildren i l r) := by
  refine ⟨length_setChildren, fun k h hk => ?_⟩
  rw [getElem?_setChildren_ne ?_ ?_, hk]
  · rintro rfl
    rw [hl] at hk
    cases hk
    cases ha
  · rintro rfl
    rw [hr] at hk
    cases hk
    cases hb

/-! ### A node and its children -/

variable [Hash H]

/-- What holds of a node and its children between calls. -/
inductive Settled : Potential H → Potential H → Potential H → Prop
  | verified (l r : H) : Settled (.verified (hashPair l r)) (.verified l) (.verified r)
  | unverified {p l r : Potential H} : l.verified? = none → r.verified? = none →
      (p.verified? = none ∨ l = .none ∨ r = .none) → Settled p l r

/-- The children of `k` are settled or, if `k` is pending, not verified. -/
def SettledAt (pending : ℕ → Prop) (t : MerkleTree (Potential H)) (k : ℕ) : Prop :=
  ∀ p l r, t.nodes[k]? = some p → t.nodes[2 * k + 1]? = some l → t.nodes[2 * k + 2]? = some r →
    (pending k → l.verified? = none ∧ r.verified? = none) ∧ (¬ pending k → Settled p l r)

/-- The invariant of a partial tree below `root`; nothing is pending between calls. -/
structure Sound (root : H) (pending : ℕ → Prop) (t : MerkleTree (Potential H)) : Prop where
  odd : t.nodes.length % 2 = 1
  root : t.nodes[0]? = some (.verified root)
  settled (k : ℕ) : SettledAt pending t k

variable {root left right : H} {pending pending' : ℕ → Prop} {fuel : ℕ}

lemma SettledAt.unverified (hs : SettledAt pending t k) (hp : t.nodes[k]? = some p)
    (hn : p.verified? = none) (hl : t.nodes[2 * k + 1]? = some l)
    (hr : t.nodes[2 * k + 2]? = some r) : l.verified? = none ∧ r.verified? = none := by
  obtain ⟨hpend, hset⟩ := hs p l r hp hl hr
  by_cases hk : pending k
  · exact hpend hk
  · cases hset hk with
    | verified a b => simp at hn
    | unverified hl hr _ => exact ⟨hl, hr⟩

lemma SettledAt.frame (hs : SettledAt pending t k) (hk : t'.nodes[k]? = t.nodes[k]?)
    (hl : t'.nodes[2 * k + 1]? = t.nodes[2 * k + 1]?)
    (hr : t'.nodes[2 * k + 2]? = t.nodes[2 * k + 2]?) (hp : pending' k ↔ pending k) :
    SettledAt pending' t' k := by
  intro p l r hkp hlp hrp
  rw [hp]
  exact hs p l r (hk ▸ hkp) (hl ▸ hlp) (hr ▸ hrp)

lemma SettledAt.change (hs : SettledAt pending t k) (hp : t.nodes[k]? = some p)
    (hn : p.verified? = none) (hl : t'.nodes[2 * k + 1]? = t.nodes[2 * k + 1]?)
    (hr : t'.nodes[2 * k + 2]? = t.nodes[2 * k + 2]?)
    (hpend : pending' k ∨ ∀ q, t'.nodes[k]? = some q → q.verified? = none) :
    SettledAt pending' t' k := by
  intro q l r hkq hlq hrq
  obtain ⟨hln, hrn⟩ := hs.unverified hp hn (hl ▸ hlq) (hr ▸ hrq)
  refine ⟨fun _ => ⟨hln, hrn⟩, fun hnp => .unverified hln hrn (Or.inl ?_)⟩
  exact (hpend.resolve_left hnp) q hkq

/-- A node that is neither `i` nor a child of `i` does not see that the children of `i` are
replaced. -/
lemma Sound.setChildren (hs : Sound root pending t) {a b : Potential H}
    (hl : t.nodes[2 * i + 1]? = some a) (hr : t.nodes[2 * i + 2]? = some b)
    (ha : a.verified? = none) (hb : b.verified? = none)
    (hi : SettledAt pending' (t.setChildren i l r) i)
    (hchild : ∀ k, k = 2 * i + 1 ∨ k = 2 * i + 2 → pending' k ∨ l.verified? = none ∧ r.verified? = none)
    (hpend : ∀ k, k ≠ i → k ≠ 2 * i + 1 → k ≠ 2 * i + 2 → (pending' k ↔ pending k)) :
    Sound root pending' (t.setChildren i l r) := by
  have hlt := (List.getElem?_eq_some_iff.mp hr).1
  refine ⟨by rw [length_setChildren, hs.odd], ?_, fun k => ?_⟩
  · rw [getElem?_setChildren_ne (by omega) (by omega), hs.root]
  · rcases eq_or_ne k i with rfl | hki
    · exact hi
    have hkl := getElem?_setChildren_ne (t := t) (k := 2 * k + 1) (i := i) (l := l) (r := r)
      (by omega) (by omega)
    have hkr := getElem?_setChildren_ne (t := t) (k := 2 * k + 2) (i := i) (l := l) (r := r)
      (by omega) (by omega)
    rcases eq_or_ne k (2 * i + 1) with rfl | hk₁
    · refine (hs.settled _).change hl ha hkl hkr ((hchild _ (Or.inl rfl)).imp_right ?_)
      intro hn q hq
      rw [getElem?_setChildren_left (by omega)] at hq
      cases hq
      exact hn.1
    rcases eq_or_ne k (2 * i + 2) with rfl | hk₂
    · refine (hs.settled _).change hr hb hkl hkr ((hchild _ (Or.inr rfl)).imp_right ?_)
      intro hn q hq
      rw [getElem?_setChildren_right hlt] at hq
      cases hq
      exact hn.2
    exact (hs.settled k).frame (getElem?_setChildren_ne hk₁ hk₂) hkl hkr (hpend k hki hk₁ hk₂)

/-! ### Validating children -/

lemma Sound.leafCount (hs : Sound root pending t) : t.nodes.length = 2 * t.leafCount - 1 := by
  have hodd := hs.odd
  unfold MerkleTree.leafCount
  omega

lemma Sound.settle (hs : Sound root (fun k => pending k ∨ k = i) t)
    (hi : ∀ p l r, t.nodes[i]? = some p → t.nodes[2 * i + 1]? = some l →
      t.nodes[2 * i + 2]? = some r → Settled p l r) (hn : ¬ pending i) : Sound root pending t := by
  refine ⟨hs.odd, hs.root, fun k => ?_⟩
  rcases eq_or_ne k i with rfl | hk
  · exact fun p l r hp hl hr => ⟨fun hc => absurd hc hn, fun _ => hi p l r hp hl hr⟩
  · exact (hs.settled k).frame rfl rfl rfl (by simp [hk])

lemma Sound.settle_unverified (hs : Sound root (fun k => pending k ∨ k = i) t) (hn : ¬ pending i)
    (hi : ∀ p l r, t.nodes[i]? = some p → t.nodes[2 * i + 1]? = some l →
      t.nodes[2 * i + 2]? = some r → p.verified? = none ∨ l = .none ∨ r = .none) :
    Sound root pending t := by
  refine hs.settle (fun p l r hp hl hr => ?_) hn
  obtain ⟨hln, hrn⟩ := (hs.settled i p l r hp hl hr).1 (Or.inr rfl)
  exact .unverified hln hrn (hi p l r hp hl hr)

lemma Sound.accept (hs : Sound root (fun k => pending k ∨ k = i) t) (hn : ¬ pending i)
    (hp : t.nodes[i]? = some (.verified (hashPair left right)))
    (hl : t.nodes[2 * i + 1]? = some (.unverified left))
    (hr : t.nodes[2 * i + 2]? = some (.unverified right)) :
    Sound root (fun k => (pending k ∨ k = 2 * i + 2) ∨ k = 2 * i + 1)
      (t.setChildren i (.verified left) (.verified right)) := by
  have hlt := (List.getElem?_eq_some_iff.mp hr).1
  refine hs.setChildren hl hr rfl rfl ?_ (fun k hk => Or.inl (by tauto)) fun k h₁ h₂ h₃ => by tauto
  intro p l r hpi hli hri
  rw [getElem?_setChildren_ne (by omega) (by omega), hp] at hpi
  rw [getElem?_setChildren_left (by omega)] at hli
  rw [getElem?_setChildren_right hlt] at hri
  cases hpi
  cases hli
  cases hri
  refine ⟨fun hc => ?_, fun _ => .verified left right⟩
  rcases hc with (hc | hc) | hc
  · exact absurd hc hn
  · omega
  · omega

lemma Sound.reject (hs : Sound root (fun k => pending k ∨ k = i) t) (hn : ¬ pending i)
    (hl : t.nodes[2 * i + 1]? = some (.unverified left))
    (hr : t.nodes[2 * i + 2]? = some (.unverified right)) :
    Sound root pending (t.setChildren i .none .none) := by
  have hlt := (List.getElem?_eq_some_iff.mp hr).1
  refine hs.setChildren hl hr rfl rfl ?_ (fun _ _ => Or.inr ⟨rfl, rfl⟩) fun k hk _ _ => by tauto
  intro p l r hpi hli hri
  rw [getElem?_setChildren_left (by omega)] at hli
  rw [getElem?_setChildren_right hlt] at hri
  cases hli
  cases hri
  exact ⟨fun hc => absurd hc hn, fun _ => .unverified rfl rfl (Or.inr (Or.inl rfl))⟩

variable [DecidableEq H]

/-- **`validate_children` settles**: on a tree in which only node `i` waits for its check, it
returns, and nothing waits any more. -/
theorem validateChildren_spec (hs : Sound root (fun k => pending k ∨ k = i) t) (hn : ¬ pending i)
    (hv : ∀ k, pending k → ∃ h, t.nodes[k]? = some (.verified h)) (hi : i < t.nodes.length)
    (hf : t.nodes.length ≤ fuel + i) :
    ∃ t' v, t.validateChildren i fuel = .ok (t', v) ∧ Sound root pending t' ∧ Keeps t t' := by
  induction fuel generalizing t i pending with
  | zero => omega
  | succ fuel ih =>
    have hlen := hs.leafCount
    obtain ⟨p, hp⟩ : ∃ p, t.nodes[i]? = some p := ⟨_, List.getElem?_eq_getElem hi⟩
    rw [validateChildren]
    rcases le_or_gt (t.leafCount - 1) i with hleaf | hbranch
    · -- a leaf has no children
      refine ⟨t, none, by simp [isLeaf, hleaf], hs.settle (fun p l r _ hl _ => ?_) hn, .refl t⟩
      have := (List.getElem?_eq_some_iff.mp hl).1
      omega
    have hnl : isLeaf t.leafCount i = false := by simp [isLeaf]; omega
    rw [hnl, if_neg (by decide), index_eq_ok.mpr hp, ok_bind]
    have hskip : (∀ l r, t.nodes[2 * i + 1]? = some l → t.nodes[2 * i + 2]? = some r →
        p.verified? = none ∨ l = .none ∨ r = .none) → Sound root pending t := fun hno =>
      hs.settle_unverified hn fun q l r hq hl hr => by
        rw [hp] at hq
        cases hq
        exact hno l r hl hr
    cases p with
    | none => exact ⟨t, none, rfl, hskip fun _ _ _ _ => Or.inl rfl, .refl t⟩
    | unverified h => exact ⟨t, none, rfl, hskip fun _ _ _ _ => Or.inl rfl, .refl t⟩
    | verified h =>
      obtain ⟨l, hl⟩ : ∃ l, t.nodes[2 * i + 1]? = some l :=
        ⟨_, List.getElem?_eq_getElem (by omega)⟩
      obtain ⟨r, hr⟩ : ∃ r, t.nodes[2 * i + 2]? = some r :=
        ⟨_, List.getElem?_eq_getElem (by omega)⟩
      obtain ⟨hln, hrn⟩ := (hs.settled i _ _ _ hp hl hr).1 (Or.inr rfl)
      simp only [index_eq_ok.mpr hl, index_eq_ok.mpr hr, ok_bind]
      rw [hl, hr] at hskip
      cases l with
      | verified a => cases hln
      | none =>
        exact ⟨t, none, rfl, hskip fun l r hl _ => Or.inr (Or.inl (Option.some.inj hl).symm), .refl t⟩
      | unverified a =>
        cases r with
        | verified b => cases hrn
        | none =>
          exact ⟨t, none, rfl, hskip fun l r _ hr => Or.inr (Or.inr (Option.some.inj hr).symm),
            .refl t⟩
        | unverified b =>
          have hkeeps : ∀ c d, Keeps t (t.setChildren i c d) := fun c d =>
            keeps_setChildren hl hr rfl rfl
          by_cases hvalid : h = hashPair a b
          · -- the children are verified, and each of them is checked in turn
            subst hvalid
            have haccept := hs.accept hn hp hl hr
            have hnl : ¬ (pending (2 * i + 1) ∨ 2 * i + 1 = 2 * i + 2) := by
              rintro (hc | hc)
              · obtain ⟨v, hv⟩ := hv _ hc
                rw [hl] at hv
                cases hv
              · omega
            have hnr : ¬ pending (2 * i + 2) := fun hc => by
              obtain ⟨v, hv⟩ := hv _ hc
              rw [hr] at hv
              cases hv
            have hlt := (List.getElem?_eq_some_iff.mp hr).1
            have hlen' := (hkeeps (.verified a) (.verified b)).length
            obtain ⟨t₁, v₁, ht₁, hs₁, hk₁⟩ := ih haccept hnl (fun k hk => by
              rcases hk with hk | rfl
              · exact (hv k hk).imp fun v hv => (hkeeps _ _).verified k v hv
              · exact ⟨b, getElem?_setChildren_right hlt⟩) (by omega) (by omega)
            have hk := (hkeeps _ _).trans hk₁
            have hlen₁ := hk.length
            obtain ⟨t₂, v₂, ht₂, hs₂, hk₂⟩ := ih hs₁ hnr
              (fun k hk' => (hv k hk').imp fun v hv => hk.verified k v hv) (by omega) (by omega)
            refine ⟨t₂, some true, ?_, hs₂, hk.trans hk₂⟩
            simp only [if_pos, ht₁, ht₂, ok_bind, pure_eq_ok]
          · refine ⟨_, some false, ?_, hs.reject hn hl hr, hkeeps _ _⟩
            simp only [if_neg hvalid, pure_eq_ok]

/-! ### Runs -/

omit [DecidableEq H] in
lemma newWithCapacity_spec (root : H) {leafCount : ℕ} (hl : 1 ≤ leafCount) :
    ∃ t, newWithCapacity root leafCount = .ok t ∧ t.nodes.length = 2 * leafCount - 1 ∧
      Sound root (fun _ => False) t := by
  have hlt : 0 < (List.replicate (2 * leafCount - 1) (Potential.none : Potential H)).length := by
    rw [List.length_replicate]
    omega
  have hnone : ∀ k, k ≠ 0 → ∀ p, ((List.replicate (2 * leafCount - 1) .none).set 0
      (.verified root))[k]? = some p → p = (.none : Potential H) := fun k hk p hp => by
    rw [List.getElem?_set_ne hk.symm] at hp
    exact List.eq_of_mem_replicate (List.mem_of_getElem? hp)
  refine ⟨⟨(List.replicate (2 * leafCount - 1) .none).set 0 (.verified root)⟩, ?_, by simp, ?_⟩
  · simp only [newWithCapacity, nodeCountForLeafCount, if_neg (show leafCount ≠ 0 by omega),
      ok_bind, assign_of_lt hlt, pure_eq_ok]
  · refine ⟨?_, List.getElem?_set_self hlt, fun k p l r _ hkl hkr => ⟨False.elim, fun _ => ?_⟩⟩
    · rw [List.length_set, List.length_replicate]
      omega
    · rw [hnone _ (by omega) l hkl, hnone _ (by omega) r hkr]
      exact .unverified rfl rfl (Or.inr (Or.inl rfl))

/-! ### Setting a node -/

omit [DecidableEq H] in
lemma Sound.setUnverified (hs : Sound root (fun _ => False) t) (hi : t.nodes[i]? = some .none)
    (h0 : i ≠ 0) (h : H) :
    Sound root (fun k => False ∨ k = (i - 1) / 2) ⟨t.nodes.set i (.unverified h)⟩ := by
  have hlt := (List.getElem?_eq_some_iff.mp hi).1
  have hne : ∀ {k}, k ≠ i → (t.nodes.set i (.unverified h))[k]? = t.nodes[k]? := fun hk =>
    List.getElem?_set_ne hk.symm
  have hself : (t.nodes.set i (.unverified h))[i]? = some (.unverified h) :=
    List.getElem?_set_self hlt
  refine ⟨by simpa using hs.odd, (hne h0.symm).trans hs.root, fun k => ?_⟩
  rcases eq_or_ne k i with rfl | hki
  · refine (hs.settled k).change hi rfl (hne (by omega)) (hne (by omega)) (Or.inr fun q hq => ?_)
    rw [hself] at hq
    cases hq
    rfl
  by_cases hparent : k = (i - 1) / 2
  · -- the children of the parent are not verified, since one of them was empty
    subst hparent
    intro p l r hp hl hr
    refine ⟨fun _ => ?_, fun hc => absurd (Or.inr rfl) hc⟩
    rw [hne hki] at hp
    rcases (by omega : 2 * ((i - 1) / 2) + 1 = i ∨ 2 * ((i - 1) / 2) + 2 = i) with hi' | hi'
    · rw [hi', hself] at hl
      rw [hne (by omega)] at hr
      cases hl
      cases ((hs.settled _) _ _ _ hp (hi' ▸ hi) hr).2 id with
      | unverified _ hr _ => exact ⟨rfl, hr⟩
    · rw [hi', hself] at hr
      rw [hne (by omega)] at hl
      cases hr
      cases ((hs.settled _) _ _ _ hp hl (hi' ▸ hi)).2 id with
      | unverified hl _ _ => exact ⟨hl, rfl⟩
  · exact (hs.settled k).frame (hne hki) (hne (by omega)) (hne (by omega)) (by simp [hparent])

omit [Hash H] [DecidableEq H] in
lemma keeps_set (hi : t.nodes[i]? = some .none) (h : H) :
    Keeps t ⟨t.nodes.set i (.unverified h)⟩ := by
  refine ⟨List.length_set, fun k v hk => ?_⟩
  have hne : i ≠ k := by
    rintro rfl
    rw [hi] at hk
    cases hk
  exact (List.getElem?_set_ne hne).trans hk

/-- **`set` keeps the invariant**, and every node that was verified. -/
theorem set_spec (hs : Sound root (fun _ => False) t) (index : ℕ) (h : H) :
    ∃ t' valid, t.set index h = .ok (t', valid) ∧ Sound root (fun _ => False) t' ∧ Keeps t t' := by
  unfold set
  cases hi : t.nodes[index]? with
  | none => exact ⟨t, false, rfl, hs, .refl t⟩
  | some p =>
    cases p with
    | unverified v => exact ⟨t, true, rfl, hs, .refl t⟩
    | verified v => exact ⟨t, decide (v = h), rfl, hs, .refl t⟩
    | none =>
      have h0 : index ≠ 0 := by
        rintro rfl
        rw [hs.root] at hi
        cases hi
      have hlt := (List.getElem?_eq_some_iff.mp hi).1
      have hkeeps := keeps_set hi h
      have hlen := hkeeps.length
      obtain ⟨t', v, ht', hs', hk⟩ := validateChildren_spec (hs.setUnverified hi h0 h) id
        (fun _ hc => hc.elim) (by omega) (Nat.le_add_right _ ((index - 1) / 2))
      refine ⟨t', v.getD true, ?_, hs', hkeeps.trans hk⟩
      simp only [if_neg h0, ht', ok_bind, pure_eq_ok]

/-- A sequence of calls of `set`. -/
def setAll (t : MerkleTree (Potential H)) (calls : List (ℕ × H)) :
    Exec (MerkleTree (Potential H)) :=
  calls.foldlM (fun t call => do
    let (t, _) ← t.set call.1 call.2
    pure t) t

lemma setAll_spec (hs : Sound root (fun _ => False) t) (calls : List (ℕ × H)) :
    ∃ t', t.setAll calls = .ok t' ∧ Sound root (fun _ => False) t' ∧ Keeps t t' := by
  refine foldlM_returns (I := fun t' => Sound root (fun _ => False) t' ∧ Keeps t t') calls
    ⟨hs, .refl t⟩ fun s call _ hI => ?_
  obtain ⟨t', valid, ht', hs', hk⟩ := set_spec hI.1 call.1 call.2
  exact ⟨t', by simp [ht'], hs', hI.2.trans hk⟩

/-! ### What is verified -/

omit [DecidableEq H] in
lemma Sound.verified (hs : Sound root (fun _ => False) t) (h0 : i ≠ 0)
    (hi : t.nodes[i]? = some (.verified h)) : ∃ l r,
      t.nodes[(i - 1) / 2]? = some (.verified (hashPair l r)) ∧
      t.nodes[2 * ((i - 1) / 2) + 1]? = some (.verified l) ∧
      t.nodes[2 * ((i - 1) / 2) + 2]? = some (.verified r) := by
  have hlt := (List.getElem?_eq_some_iff.mp hi).1
  have hodd := hs.odd
  obtain ⟨p, hp⟩ : ∃ p, t.nodes[(i - 1) / 2]? = some p :=
    ⟨_, List.getElem?_eq_getElem (by omega)⟩
  obtain ⟨l, hl⟩ : ∃ l, t.nodes[2 * ((i - 1) / 2) + 1]? = some l :=
    ⟨_, List.getElem?_eq_getElem (by omega)⟩
  obtain ⟨r, hr⟩ : ∃ r, t.nodes[2 * ((i - 1) / 2) + 2]? = some r :=
    ⟨_, List.getElem?_eq_getElem (by omega)⟩
  cases (hs.settled _ p l r hp hl hr).2 id with
  | verified a b => exact ⟨a, b, hp, hl, hr⟩
  | unverified hln hrn _ =>
    rcases (by omega : 2 * ((i - 1) / 2) + 1 = i ∨ 2 * ((i - 1) / 2) + 2 = i) with hi' | hi'
    · rw [hi', hi] at hl
      cases hl
      cases hln
    · rw [hi', hi] at hr
      cases hr
      cases hrn

omit [DecidableEq H] in
/-- When no node is empty, all are verified: by induction from the root down. -/
lemma Sound.verified_of_filled (hs : Sound root (fun _ => False) t)
    (hn : ∀ k : ℕ, t.nodes[k]? ≠ some .none) (hi : i < t.nodes.length) :
    ∃ h, t.nodes[i]? = some (.verified h) := by
  induction i using Nat.strong_induction_on with
  | _ i ih =>
    rcases eq_or_ne i 0 with rfl | h0
    · exact ⟨root, hs.root⟩
    have hodd := hs.odd
    obtain ⟨v, hv⟩ := ih ((i - 1) / 2) (by omega) (by omega)
    obtain ⟨l, hl⟩ : ∃ l, t.nodes[2 * ((i - 1) / 2) + 1]? = some l :=
      ⟨_, List.getElem?_eq_getElem (by omega)⟩
    obtain ⟨r, hr⟩ : ∃ r, t.nodes[2 * ((i - 1) / 2) + 2]? = some r :=
      ⟨_, List.getElem?_eq_getElem (by omega)⟩
    cases (hs.settled _ _ l r hv hl hr).2 id with
    | verified a b =>
      rcases (by omega : 2 * ((i - 1) / 2) + 1 = i ∨ 2 * ((i - 1) / 2) + 2 = i) with hi' | hi'
      · exact ⟨a, hi' ▸ hl⟩
      · exact ⟨b, hi' ▸ hr⟩
    | unverified _ _ hp =>
      rcases hp with hp | rfl | rfl
      · cases hp
      · exact absurd hl (hn _)
      · exact absurd hr (hn _)

omit [Hash H] [DecidableEq H] in
lemma mem_missingIndices : i ∈ t.missingIndices ↔ t.nodes[i]? = some .none := by
  simp only [missingIndices, List.mem_filterMap, List.mem_zipIdx_iff_getElem?, Prod.exists]
  constructor
  · rintro ⟨p, k, hk, hp⟩
    split_ifs at hp with hn
    cases hp
    cases p <;> first | exact hk | cases hn
  · exact fun hi => ⟨.none, i, hi, rfl⟩

omit [Hash H] [DecidableEq H] in
lemma missingIndices_eq_nil : t.missingIndices = [] ↔ ∀ k : ℕ, t.nodes[k]? ≠ some .none := by
  simp only [List.eq_nil_iff_forall_not_mem, mem_missingIndices, ne_eq]

omit [Hash H] [DecidableEq H] in
lemma tryComplete_eq_some {t' : MerkleTree H} (h : t.tryComplete = some t') (i : ℕ) :
    t'.nodes[i]? = t.nodes[i]? >>= Potential.verified? := by
  obtain ⟨nodes, hnodes, rfl⟩ := Option.map_eq_some_iff.mp h
  exact getElem?_of_mapM hnodes i

omit [Hash H] [DecidableEq H] in
lemma length_tryComplete {t' : MerkleTree H} (h : t.tryComplete = some t') :
    t'.nodes.length = t.nodes.length := by
  obtain ⟨nodes, hnodes, rfl⟩ := Option.map_eq_some_iff.mp h
  exact length_of_mapM hnodes

omit [DecidableEq H] in
/-- **Never stuck**: the tree is complete as soon as no node is missing. -/
theorem Sound.missingIndices_eq_nil (hs : Sound root (fun _ => False) t) :
    t.missingIndices = [] ↔ t.tryComplete.isSome := by
  rw [MerkleTree.missingIndices_eq_nil]
  constructor
  · intro hn
    obtain ⟨nodes, hnodes⟩ := exists_mapM (f := Potential.verified?) (l := t.nodes) fun p hp => by
      obtain ⟨i, hi, rfl⟩ := List.mem_iff_getElem.mp hp
      obtain ⟨h, hh⟩ := hs.verified_of_filled hn hi
      rw [List.getElem?_eq_getElem hi] at hh
      exact ⟨h, by rw [Option.some.inj hh]; rfl⟩
    simp [tryComplete, hnodes]
  · intro hc k hk
    obtain ⟨t', ht'⟩ := Option.isSome_iff_exists.mp hc
    have hlt := (List.getElem?_eq_some_iff.mp hk).1
    have hget := tryComplete_eq_some ht' k
    rw [hk, List.getElem?_eq_getElem (by rw [length_tryComplete ht']; exact hlt)] at hget
    cases hget

/-! ### Soundness -/

/-- No collision with what is hashed for the branches of a tree. -/
def BranchesUnique (t : MerkleTree H) : Prop :=
  ∀ (p : ℕ) (l r : H), t.nodes[2 * p + 1]? = some l → t.nodes[2 * p + 2]? = some r →
    NoCollision H (asRef l ++ asRef r)

omit [DecidableEq H] in
lemma Sound.eq_honest {leaves : List H} {honest : MerkleTree H}
    (hs : Sound root (fun _ => False) t) (hb : Built leaves honest)
    (hlen : t.nodes.length = 2 * leaves.length - 1) (hroot : honest.nodes[0]? = some root)
    (hf : FixedLength H) (hu : honest.BranchesUnique) (hi : t.nodes[i]? = some (.verified h)) :
    honest.nodes[i]? = some h := by
  induction i using Nat.strong_induction_on generalizing h with
  | _ i ih =>
    rcases eq_or_ne i 0 with rfl | h0
    · rw [hs.root] at hi
      cases hi
      exact hroot
    have hlt := (List.getElem?_eq_some_iff.mp hi).1
    obtain ⟨l, r, hp, hl, hr⟩ := hs.verified h0 hi
    obtain ⟨l', r', hl', hr', hp'⟩ := hb.branch ((i - 1) / 2) (by omega)
    have heq : hashPair l' r' = hashPair l r :=
      Option.some.inj (hp'.symm.trans (ih _ (by omega) hp))
    obtain ⟨rfl, rfl⟩ := hf.hashPair_inj (hu _ _ _ hl' hr') heq.symm
    rcases (by omega : 2 * ((i - 1) / 2) + 1 = i ∨ 2 * ((i - 1) / 2) + 2 = i) with hi' | hi'
    · rw [hi', hi] at hl
      cases hl
      exact hi' ▸ hl'
    · rw [hi', hi] at hr
      cases hr
      exact hi' ▸ hr'

omit [DecidableEq H] in
lemma Sound.complete_eq_honest {leaves : List H} {honest t' : MerkleTree H}
    (hs : Sound root (fun _ => False) t) (hb : Built leaves honest)
    (hlen : t.nodes.length = 2 * leaves.length - 1) (hroot : honest.nodes[0]? = some root)
    (hf : FixedLength H) (hu : honest.BranchesUnique) (hc : t.tryComplete = some t') :
    t' = honest := by
  have hlen' := length_tryComplete hc
  have hnodes : t'.nodes = honest.nodes := by
    refine List.ext_getElem? fun i => ?_
    rcases lt_or_ge i t'.nodes.length with hi | hi
    · have hget := tryComplete_eq_some hc i
      rw [List.getElem?_eq_getElem hi] at hget ⊢
      obtain ⟨p, hp, hv⟩ := Option.bind_eq_some_iff.mp hget.symm
      rw [verified?_eq_some.mp hv] at hp
      exact (hs.eq_honest hb hlen hroot hf hu hp).symm
    · rw [List.getElem?_eq_none hi, List.getElem?_eq_none (by rw [hb.length]; omega)]
  cases t'
  cases honest
  exact congrArg MerkleTree.mk hnodes

/-- **The partial tree is sound and never stuck**: whatever is set, from the root alone. -/
theorem setAll_sound (root : H) (leafCount : ℕ) (hl : 1 ≤ leafCount) (calls : List (ℕ × H)) :
    ∃ t₀ t, newWithCapacity root leafCount = .ok t₀ ∧ t₀.setAll calls = .ok t ∧
      (∀ i h, i ≠ 0 → t.get i = some (.verified h) → ∃ l r,
        t.get ((i - 1) / 2) = some (.verified (hashPair l r)) ∧
        t.get (2 * ((i - 1) / 2) + 1) = some (.verified l) ∧
        t.get (2 * ((i - 1) / 2) + 2) = some (.verified r)) ∧
      (t.missingIndices = [] ↔ t.tryComplete.isSome) ∧
      ∀ (leaves : List H) (honest : MerkleTree H), leaves.length = leafCount →
        fromLeaves leaves = .ok honest → honest.merkleRoot = .ok root → FixedLength H →
        honest.BranchesUnique →
        (∀ i h, t.get i = some (.verified h) → honest.get i = some h) ∧
          ∀ t', t.tryComplete = some t' → t' = honest := by
  obtain ⟨t₀, ht₀, hlen₀, hs₀⟩ := newWithCapacity_spec root hl
  obtain ⟨t, ht, hs, hk⟩ := setAll_spec hs₀ calls
  refine ⟨t₀, t, ht₀, ht, fun i h h0 hi => hs.verified h0 hi, hs.missingIndices_eq_nil, ?_⟩
  intro leaves honest hleaves hfrom hroot hf hu
  have hne : leaves ≠ [] := List.length_pos_iff.mp (by omega)
  obtain ⟨honest', hfrom', hb⟩ := fromLeaves_built hne
  rw [hfrom] at hfrom'
  cases hfrom'
  have hlen : t.nodes.length = 2 * leaves.length - 1 := by rw [hk.length, hlen₀, hleaves]
  have hroot' := index_eq_ok.mp hroot
  exact ⟨fun i h hi => hs.eq_honest hb hlen hroot' hf hu hi,
    fun t' hc => hs.complete_eq_honest hb hlen hroot' hf hu hc⟩

/-! Two leaves; the first value for the second of them is wrong. -/

section Pair

local instance : Hash UInt8 := tableHash [[1, 2]]

lemma pair_branchesUnique : BranchesUnique (H := UInt8) ⟨[0, 1, 2]⟩ := by
  intro p l r hl hr
  cases p with
  | zero =>
    cases hl
    cases hr
    exact noCollision_tableHash (by decide) List.mem_cons_self
  | succ p =>
    have hlt : 2 * (p + 1) + 1 < 3 := (List.getElem?_eq_some_iff.mp hl).1
    omega

theorem setAll_sound_pair : ∃ t₀ t : MerkleTree (Potential UInt8),
    newWithCapacity 0 2 = .ok t₀ ∧ t₀.setAll [(2, 7), (1, 1), (2, 2), (1, 1)] = .ok t ∧
      (∃ t', t.tryComplete = some t') ∧ ∀ t', t.tryComplete = some t' → t' = ⟨[0, 1, 2]⟩ := by
  obtain ⟨t₀, t, h₀, ht, -, hm, hh⟩ :=
    setAll_sound (H := UInt8) 0 2 (by decide) [(2, 7), (1, 1), (2, 2), (1, 1)]
  have hmissing : t.missingIndices = [] := by
    cases h₀
    have hrun : setAll (H := UInt8) ⟨[.verified 0, .none, .none]⟩
        [(2, 7), (1, 1), (2, 2), (1, 1)] =
          .ok ⟨[.verified 0, .verified 1, .verified 2]⟩ := by decide
    cases ht.symm.trans hrun
    rfl
  refine ⟨t₀, t, h₀, ht, Option.isSome_iff_exists.mp (hm.mp hmissing), ?_⟩
  exact (hh [1, 2] ⟨[0, 1, 2]⟩ rfl (by decide) rfl (fixedLength_tableHash _)
    pair_branchesUnique).2

end Pair

end Ossa.Util.MerkleTree
