import Ossa.MerkleRounds

/-!
A partial merkle tree that only honest values are put in.

Then no value is ever dropped: both children of a verified node hash to it. So a node that is set
stays, and what is missing afterwards is what was missing before and has not been set.
-/

namespace Ossa.Util.MerkleTree

open Ossa.Loop Ossa.Collections

variable {H : Type} {t t' : MerkleTree (Potential H)} {honest : MerkleTree H} {i k fuel : ℕ} {h : H}

/-- The values in the partial tree, verified or not, are those of the honest one. -/
def Within (honest : MerkleTree H) (t : MerkleTree (Potential H)) : Prop :=
  ∀ (k : ℕ) h, t.nodes[k]? = some (.unverified h) ∨ t.nodes[k]? = some (.verified h) →
    honest.nodes[k]? = some h

/-- Each branch of the tree is the hash of its children. -/
def Hashed [Hash H] (honest : MerkleTree H) : Prop :=
  ∀ p l r, honest.nodes[2 * p + 1]? = some l → honest.nodes[2 * p + 2]? = some r →
    honest.nodes[p]? = some (hashPair l r)

lemma Built.hashed [Hash H] {leaves : List H} (hb : Built leaves honest) : Hashed honest := by
  intro p l r hl hr
  have hlt := (List.getElem?_eq_some_iff.mp hr).1
  rw [hb.length] at hlt
  obtain ⟨l', r', hl', hr', hp⟩ := hb.branch p (by omega)
  rw [hl] at hl'
  rw [hr] at hr'
  cases hl'
  cases hr'
  exact hp

lemma Within.setChildren {a b : H} (ha : Within honest t)
    (hl : t.nodes[2 * i + 1]? = some (.unverified a))
    (hr : t.nodes[2 * i + 2]? = some (.unverified b)) :
    Within honest (t.setChildren i (.verified a) (.verified b)) := by
  have hlt := (List.getElem?_eq_some_iff.mp hr).1
  intro k h hk
  by_cases hkl : k = 2 * i + 1
  · subst hkl
    rw [getElem?_setChildren_left (by omega)] at hk
    rcases hk with hk | hk
    · cases hk
    · cases hk
      exact ha _ _ (Or.inl hl)
  by_cases hkr : k = 2 * i + 2
  · subst hkr
    rw [getElem?_setChildren_right hlt] at hk
    rcases hk with hk | hk
    · cases hk
    · cases hk
      exact ha _ _ (Or.inl hr)
  · rw [getElem?_setChildren_ne hkl hkr] at hk
    exact ha k h hk

lemma missing_setChildren {a b : H} (hl : t.nodes[2 * i + 1]? = some (.unverified a))
    (hr : t.nodes[2 * i + 2]? = some (.unverified b)) (k : ℕ) :
    (t.setChildren i (.verified a) (.verified b)).nodes[k]? = some .none ↔
      t.nodes[k]? = some .none := by
  have hlt := (List.getElem?_eq_some_iff.mp hr).1
  by_cases hkl : k = 2 * i + 1
  · subst hkl
    rw [getElem?_setChildren_left (by omega), hl]
    simp
  by_cases hkr : k = 2 * i + 2
  · subst hkr
    rw [getElem?_setChildren_right hlt, hr]
    simp
  · rw [getElem?_setChildren_ne hkl hkr]

variable [Hash H] [DecidableEq H]

/-- **The check of a node drops nothing**: by induction on the fuel. -/
theorem validateChildren_within (hh : Hashed honest) {v : Option Bool} (ha : Within honest t)
    (hr : t.validateChildren i fuel = .ok (t', v)) : Within honest t' ∧
      ∀ k : ℕ, t'.nodes[k]? = some .none ↔ t.nodes[k]? = some .none := by
  induction fuel generalizing t t' i v with
  | zero => cases hr
  | succ fuel ih =>
    rw [validateChildren] at hr
    split_ifs at hr with hleaf
    · cases hr
      exact ⟨ha, fun _ => Iff.rfl⟩
    obtain ⟨p, hp, hr⟩ := bind_eq_ok.mp hr
    cases p with
    | none => cases hr; exact ⟨ha, fun _ => Iff.rfl⟩
    | unverified h => cases hr; exact ⟨ha, fun _ => Iff.rfl⟩
    | verified h =>
      obtain ⟨l, hl, hr⟩ := bind_eq_ok.mp hr
      obtain ⟨r, hr', hr⟩ := bind_eq_ok.mp hr
      have hp' := index_eq_ok.mp hp
      have hl' := index_eq_ok.mp hl
      have hr'' := index_eq_ok.mp hr'
      cases l with
      | none => cases hr; exact ⟨ha, fun _ => Iff.rfl⟩
      | verified a =>
        cases r with
        | none => cases hr; exact ⟨ha, fun _ => Iff.rfl⟩
        | unverified b => cases hr
        | verified b => cases hr
      | unverified a =>
        cases r with
        | none => cases hr; exact ⟨ha, fun _ => Iff.rfl⟩
        | verified b => cases hr
        | unverified b =>
          -- the children hash to their parent, as they do in the honest tree
          have hvalid : h = hashPair a b := Option.some.inj ((ha i h (Or.inr hp')).symm.trans
            (hh i a b (ha _ a (Or.inl hl')) (ha _ b (Or.inl hr''))))
          dsimp only at hr
          rw [if_pos hvalid] at hr
          obtain ⟨⟨t₁, v₁⟩, h₁, hr⟩ := bind_eq_ok.mp hr
          obtain ⟨⟨t₂, v₂⟩, h₂, hr⟩ := bind_eq_ok.mp hr
          cases hr
          obtain ⟨ha₁, hm₁⟩ := ih (ha.setChildren hl' hr'') h₁
          obtain ⟨ha₂, hm₂⟩ := ih ha₁ h₂
          exact ⟨ha₂, fun k => ((hm₂ k).trans (hm₁ k)).trans (missing_setChildren hl' hr'' k)⟩

/-- **A call with an honest value**: the node is there, and nothing else is lost. -/
theorem set_within (hh : Hashed honest) {valid : Bool} (ha : Within honest t)
    (hi : honest.nodes[i]? = some h) (hr : t.set i h = .ok (t', valid)) : Within honest t' ∧
      ∀ k : ℕ, t'.nodes[k]? = some .none ↔ t.nodes[k]? = some .none ∧ k ≠ i := by
  by_cases hmissing : t.nodes[i]? = some .none
  · obtain ⟨-, v, hv⟩ := set_missing hmissing hr
    have hlt := (List.getElem?_eq_some_iff.mp hmissing).1
    have hset : Within honest ⟨t.nodes.set i (.unverified h)⟩ := by
      intro k h' hk
      by_cases hki : i = k
      · subst hki
        rw [List.getElem?_set_self hlt] at hk
        rcases hk with hk | hk
        · cases hk
          exact hi
        · cases hk
      · rw [List.getElem?_set_ne hki] at hk
        exact ha k h' hk
    obtain ⟨ha', hm⟩ := validateChildren_within hh hset hv
    refine ⟨ha', fun k => (hm k).trans ?_⟩
    by_cases hki : i = k
    · subst hki
      rw [List.getElem?_set_self hlt]
      simp
    · rw [List.getElem?_set_ne hki]
      simp [Ne.symm hki]
  · rw [set_present hmissing hr]
    refine ⟨ha, fun k => ⟨fun hk => ⟨hk, ?_⟩, And.left⟩⟩
    rintro rfl
    exact hmissing hk

/-- **A batch of honest values**: what was missing and is not among them stays missing. -/
theorem setAll_within (hh : Hashed honest) {calls : List (ℕ × H)} (ha : Within honest t)
    (hc : ∀ c ∈ calls, honest.nodes[c.1]? = some c.2) (hr : t.setAll calls = .ok t') :
    Within honest t' ∧
      ∀ k : ℕ, t'.nodes[k]? = some .none ↔ t.nodes[k]? = some .none ∧ k ∉ calls.map Prod.fst := by
  induction calls generalizing t with
  | nil =>
    cases hr
    exact ⟨ha, fun k => by simp⟩
  | cons c calls ih =>
    obtain ⟨t₁, valid, hset, hr⟩ := setAll_cons hr
    obtain ⟨ha₁, hm₁⟩ := set_within hh ha (hc c List.mem_cons_self) hset
    obtain ⟨ha', hm⟩ := ih ha₁ (fun c hmem => hc c (List.mem_cons_of_mem _ hmem)) hr
    refine ⟨ha', fun k => ?_⟩
    rw [hm, hm₁, List.map_cons, List.mem_cons, not_or, and_assoc]

omit [Hash H] [DecidableEq H] in
lemma Within.complete {t' : MerkleTree H} (ha : Within honest t)
    (hlen : t.nodes.length = honest.nodes.length) (hc : t.tryComplete = some t') : t' = honest := by
  have hnodes : t'.nodes = honest.nodes := by
    refine List.ext_getElem? fun i => ?_
    rcases lt_or_ge i t'.nodes.length with hi | hi
    · have hget := tryComplete_eq_some hc i
      rw [List.getElem?_eq_getElem hi] at hget ⊢
      obtain ⟨p, hp, hv⟩ := Option.bind_eq_some_iff.mp hget.symm
      rw [verified?_eq_some.mp hv] at hp
      exact (ha i _ (Or.inr hp)).symm
    · have hlen' := length_tryComplete hc
      rw [List.getElem?_eq_none hi, List.getElem?_eq_none (by omega)]
  cases t'
  cases honest
  exact congrArg MerkleTree.mk hnodes

omit [Hash H] [DecidableEq H] in
lemma within_newWithCapacity {root : H} {n : ℕ} (hroot : honest.nodes[0]? = some root)
    (h : newWithCapacity root n = .ok t) : Within honest t := by
  obtain ⟨capacity, -, h⟩ := bind_eq_ok.mp h
  obtain ⟨nodes, hset, heq⟩ := bind_eq_ok.mp h
  cases heq
  unfold assign at hset
  split_ifs at hset with hlt
  cases hset
  intro k v hk
  by_cases h0 : 0 = k
  · subst h0
    rw [List.getElem?_set_self hlt] at hk
    rcases hk with hk | hk
    · cases hk
    · cases hk
      exact hroot
  · rw [List.getElem?_set_ne h0] at hk
    rcases hk with hk | hk
    · cases List.eq_of_mem_replicate (List.mem_of_getElem? hk)
    · cases List.eq_of_mem_replicate (List.mem_of_getElem? hk)

end Ossa.Util.MerkleTree
