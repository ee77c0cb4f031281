import Mathlib.Data.Finset.Card
import Mathlib.Data.Finset.Max
import Ossa.MerklePartial

/-!
Completing a partial merkle tree that peers have put wrong values in.

In a round, every node that is missing is set to its value in the honest tree, in some order. A
wrong value keeps its place until its sibling is set as well; then both are dropped, and the next
round verifies them. So below every verified node the two children are verified after two rounds,
and a tree with `L` leaves, which has `L - 1` branches, is complete after `2 L` rounds.
-/

namespace Ossa.Util.MerkleTree

open Ossa.Loop Ossa.Collections

variable {H : Type} {t t' s s' : MerkleTree (Potential H)} {i j k p fuel : ℕ} {h a b : H}

/-- Node `k` is verified. -/
def IsVerified (t : MerkleTree (Potential H)) (k : ℕ) : Prop :=
  ∃ h, t.nodes[k]? = some (.verified h)

/-- The children of node `k` are the same in both trees. -/
def SameChildren (t t' : MerkleTree (Potential H)) (k : ℕ) : Prop :=
  ∀ c, c = 2 * k + 1 ∨ c = 2 * k + 2 → t'.nodes[c]? = t.nodes[c]?

lemma Keeps.isVerified (hk : Keeps t t') (hv : IsVerified t k) : IsVerified t' k :=
  hv.imp fun h => hk.verified k h

lemma sameChildren_setChildren (l r : Potential H) (hk : k ≠ i) :
    SameChildren t (t.setChildren i l r) k := fun _ _ =>
  getElem?_setChildren_ne (by omega) (by omega)

/-! ### One pair of children -/

section Pair

variable [Hash H] [DecidableEq H]

/-- **The check of node `i`** keeps what is verified, and looks at the children of no other node
that was verified before: by induction on the fuel. -/
theorem validateChildren_frame {v : Option Bool}
    (hr : t.validateChildren i fuel = .ok (t', v)) :
    Keeps t t' ∧ ∀ k, k ≠ i → IsVerified t k → SameChildren t t' k := by
  have hrefl : ∀ {t t' : MerkleTree (Potential H)} {i : ℕ}, t = t' →
      Keeps t t' ∧ ∀ k, k ≠ i → IsVerified t k → SameChildren t t' k := by
    rintro t _ i rfl
    exact ⟨.refl t, fun k _ _ c _ => rfl⟩
  induction fuel generalizing t t' i v with
  | zero => cases hr
  | succ fuel ih =>
    rw [validateChildren] at hr
    split_ifs at hr with hleaf
    · exact hrefl (congrArg Prod.fst (Except.ok.inj hr))
    obtain ⟨p, hp, hr⟩ := bind_eq_ok.mp hr
    cases p with
    | none => exact hrefl (congrArg Prod.fst (Except.ok.inj hr))
    | unverified h => exact hrefl (congrArg Prod.fst (Except.ok.inj hr))
    | verified h =>
      obtain ⟨l, hl, hr⟩ := bind_eq_ok.mp hr
      obtain ⟨r, hr', hr⟩ := bind_eq_ok.mp hr
      have hl' := index_eq_ok.mp hl
      have hr'' := index_eq_ok.mp hr'
      have hself := hrefl (t := t) (i := i) rfl
      cases l with
      | none => cases hr; exact hself
      | verified a =>
        cases r with
        | none => cases hr; exact hself
        | unverified b => cases hr
        | verified b => cases hr
      | unverified a =>
        cases r with
        | none => cases hr; exact hself
        | verified b => cases hr
        | unverified b =>
          dsimp only at hr
          split_ifs at hr with hvalid
          · obtain ⟨⟨t₁, v₁⟩, h₁, hr⟩ := bind_eq_ok.mp hr
            obtain ⟨⟨t₂, v₂⟩, h₂, hr⟩ := bind_eq_ok.mp hr
            cases hr
            have hk₀ := keeps_setChildren (l := .verified a) (r := .verified b) hl' hr'' rfl rfl
            obtain ⟨hk₁, hf₁⟩ := ih h₁
            obtain ⟨hk₂, hf₂⟩ := ih h₂
            refine ⟨hk₀.trans (hk₁.trans hk₂), fun k hk hv c hc => ?_⟩
            -- a node that was verified before is not a child of `i`
            have hleft : k ≠ 2 * i + 1 := by
              rintro rfl
              obtain ⟨w, hw⟩ := hv
              rw [hl'] at hw
              cases hw
            have hright : k ≠ 2 * i + 2 := by
              rintro rfl
              obtain ⟨w, hw⟩ := hv
              rw [hr''] at hw
              cases hw
            have hv₁ := hk₀.isVerified hv
            rw [hf₂ k hright (hk₁.isVerified hv₁) c hc, hf₁ k hleft hv₁ c hc,
              sameChildren_setChildren _ _ hk c hc]
          · cases hr
            exact ⟨keeps_setChildren hl' hr'' rfl rfl, fun k hk _ =>
              sameChildren_setChildren _ _ hk⟩

/-- Both children are there: they are verified, or dropped. -/
lemma validateChildren_pair {v : Option Bool} (hp : t.nodes[p]? = some (.verified h))
    (hl : t.nodes[2 * p + 1]? = some (.unverified a))
    (hr : t.nodes[2 * p + 2]? = some (.unverified b))
    (hv : t.validateChildren p (fuel + 1) = .ok (t', v)) :
    h = hashPair a b ∧ IsVerified t' (2 * p + 1) ∧ IsVerified t' (2 * p + 2) ∨
      h ≠ hashPair a b ∧ t'.nodes[2 * p + 1]? = some .none ∧ t'.nodes[2 * p + 2]? = some .none := by
  have hlt := (List.getElem?_eq_some_iff.mp hr).1
  have hnl : isLeaf t.leafCount p = false := by
    unfold isLeaf leafCount
    exact decide_eq_false (by omega)
  rw [validateChildren, hnl, if_neg (by decide), index_eq_ok.mpr hp, ok_bind] at hv
  simp only [index_eq_ok.mpr hl, index_eq_ok.mpr hr, ok_bind] at hv
  split_ifs at hv with hvalid
  · obtain ⟨⟨t₁, v₁⟩, h₁, hv⟩ := bind_eq_ok.mp hv
    obtain ⟨⟨t₂, v₂⟩, h₂, hv⟩ := bind_eq_ok.mp hv
    cases hv
    have hk := (validateChildren_frame h₁).1.trans (validateChildren_frame h₂).1
    refine Or.inl ⟨hvalid, hk.isVerified ⟨a, ?_⟩, hk.isVerified ⟨b, ?_⟩⟩
    · exact getElem?_setChildren_left (by omega)
    · exact getElem?_setChildren_right hlt
  · cases hv
    exact Or.inr ⟨hvalid, getElem?_setChildren_left (by omega), getElem?_setChildren_right hlt⟩

/-- One child is missing: nothing happens. -/
lemma validateChildren_missing {v : Option Bool} {c : ℕ} (hp : t.nodes[p]? = some (.verified h))
    (hc : c = 2 * p + 1 ∨ c = 2 * p + 2) (hmissing : t.nodes[c]? = some .none)
    (hv : t.validateChildren p (fuel + 1) = .ok (t', v)) : t' = t := by
  rw [validateChildren] at hv
  split_ifs at hv with hleaf
  · cases hv
    rfl
  obtain ⟨q, hq, hv⟩ := bind_eq_ok.mp hv
  rw [index_eq_ok, hp] at hq
  cases hq
  obtain ⟨l, hl, hv⟩ := bind_eq_ok.mp hv
  obtain ⟨r, hr, hv⟩ := bind_eq_ok.mp hv
  rw [index_eq_ok] at hl hr
  dsimp only at hv
  split at hv
  · cases hv
    rfl
  · cases hv
    rfl
  · rcases hc with rfl | rfl
    · rw [hmissing] at hl
      cases hl
    · rw [hmissing] at hr
      cases hr
  · cases hv

lemma set_missing {valid : Bool} (hi : t.nodes[i]? = some .none)
    (hr : t.set i h = .ok (t', valid)) : i ≠ 0 ∧ ∃ v,
      validateChildren ⟨t.nodes.set i (.unverified h)⟩ ((i - 1) / 2) t.nodes.length = .ok (t', v) := by
  unfold set at hr
  simp only [hi] at hr
  split_ifs at hr with h0
  obtain ⟨⟨t₁, v⟩, hv, hr⟩ := bind_eq_ok.mp hr
  rw [List.length_set] at hv
  cases hr
  exact ⟨h0, v, hv⟩

lemma set_present {valid : Bool} (hi : t.nodes[i]? ≠ some .none)
    (hr : t.set i h = .ok (t', valid)) : t' = t := by
  unfold set at hr
  split at hr
  · cases hr; rfl
  · cases hr; rfl
  · cases hr; rfl
  · next hnone => exact absurd hnone hi

lemma set_keeps {valid : Bool} (hr : t.set i h = .ok (t', valid)) : Keeps t t' := by
  by_cases hi : t.nodes[i]? = some .none
  · obtain ⟨-, v, hv⟩ := set_missing hi hr
    exact (keeps_set hi h).trans (validateChildren_frame hv).1
  · rw [set_present hi hr]
    exact .refl t

lemma set_frame {valid : Bool} (hr : t.set i h = .ok (t', valid)) (hp : IsVerified t p)
    (hl : i ≠ 2 * p + 1) (hr' : i ≠ 2 * p + 2) : SameChildren t t' p := by
  by_cases hi : t.nodes[i]? = some .none
  · obtain ⟨h0, v, hv⟩ := set_missing hi hr
    intro c hc
    rw [(validateChildren_frame hv).2 p (by omega) ((keeps_set hi h).isVerified hp) c hc]
    exact List.getElem?_set_ne (by omega)
  · rw [set_present hi hr]
    exact fun c _ => rfl

end Pair

/-! ### One round -/

lemma nodup_missingIndices : t.missingIndices.Nodup := by
  have hfilter : t.missingIndices = (t.nodes.zipIdx.filter fun n => n.1.isNone).map Prod.snd := by
    unfold missingIndices
    induction t.nodes.zipIdx with
    | nil => rfl
    | cons n l ih => cases hn : n.1.isNone <;> simp [hn, ih]
  have hall : (t.nodes.zipIdx.map Prod.snd).Nodup := by
    rw [List.zipIdx_map_snd]
    exact List.nodup_range'
  rw [hfilter]
  exact hall.sublist (List.filter_sublist.map _)

lemma Settled.children [Hash H] {x l r : Potential H} (hs : Settled x l r) :
    (∃ a b, l = .verified a ∧ r = .verified b) ∨
      l.verified? = none ∧ r.verified? = none ∧ (x.verified? = none ∨ l = .none ∨ r = .none) := by
  cases hs with
  | verified a b => exact Or.inl ⟨a, b, rfl, rfl⟩
  | unverified hl hr hx => exact Or.inr ⟨hl, hr, hx⟩

/-- Every missing node is set to its value in the honest tree. -/
def Round [Hash H] [DecidableEq H] (honest : MerkleTree H) (t t' : MerkleTree (Potential H)) :
    Prop :=
  ∃ calls : List (ℕ × H), (calls.map Prod.fst).Perm t.missingIndices ∧
    (∀ c ∈ calls, honest.get c.1 = some c.2) ∧ t.setAll calls = .ok t'

/-- The children of a verified node in the course of a round that started at `t`, when the nodes
in `done` have been set. -/
inductive PairAt (honest : MerkleTree H) (t : MerkleTree (Potential H)) (p : ℕ) (done : List ℕ)
    (s : MerkleTree (Potential H)) : Prop
  | verified : IsVerified s (2 * p + 1) → IsVerified s (2 * p + 2) → PairAt honest t p done s
  /-- A wrong value has been found out; no value comes in its place in this round. -/
  | dropped : s.nodes[2 * p + 1]? = some .none → s.nodes[2 * p + 2]? = some .none →
    (∀ c, c = 2 * p + 1 ∨ c = 2 * p + 2 → t.nodes[c]? = some .none → c ∈ done) →
    (∃ c, (c = 2 * p + 1 ∨ c = 2 * p + 2) ∧ t.nodes[c]? ≠ some .none) → PairAt honest t p done s
  | waiting : (∀ c, c = 2 * p + 1 ∨ c = 2 * p + 2 →
      s.nodes[c]? = if c ∈ done then honest.nodes[c]?.map .unverified else t.nodes[c]?) →
    (∃ c, (c = 2 * p + 1 ∨ c = 2 * p + 2) ∧ t.nodes[c]? = some .none ∧ c ∉ done) →
    PairAt honest t p done s

section Round

variable [Hash H] [DecidableEq H] {honest : MerkleTree H} {done : List ℕ} {l r : H}

/-- Both children are there: they are verified, or one was wrong before the round. -/
lemma pairAt_of_check {v : Option Bool} (hij : i = 2 * p + 1 ∧ j = 2 * p + 2 ∨
      i = 2 * p + 2 ∧ j = 2 * p + 1)
    (hp : s.nodes[p]? = some (.verified (hashPair l r)))
    (hl : honest.nodes[2 * p + 1]? = some l) (hr : honest.nodes[2 * p + 2]? = some r)
    (hi : s.nodes[i]? = some (.unverified a)) (ha : honest.nodes[i]? = some a)
    (hj : s.nodes[j]? = some (.unverified b))
    (hv : s.validateChildren p (fuel + 1) = .ok (s', v))
    (hb : t.nodes[j]? = some .none → honest.nodes[j]? = some b) :
    PairAt honest t p (done ++ [i]) s' := by
  have hchecked : (IsVerified s' (2 * p + 1) ∧ IsVerified s' (2 * p + 2)) ∨
      (honest.nodes[j]? ≠ some b ∧ s'.nodes[2 * p + 1]? = some .none ∧
        s'.nodes[2 * p + 2]? = some .none) := by
    rcases hij with ⟨rfl, rfl⟩ | ⟨rfl, rfl⟩
    · rw [hl] at ha
      cases ha
      refine (validateChildren_pair hp hi hj hv).imp And.right fun h => ⟨fun heq => h.1 ?_, h.2⟩
      rw [Option.some.inj (hr.symm.trans heq)]
    · rw [hr] at ha
      cases ha
      refine (validateChildren_pair hp hj hi hv).imp And.right fun h => ⟨fun heq => h.1 ?_, h.2⟩
      rw [Option.some.inj (hl.symm.trans heq)]
  rcases hchecked with ⟨h₁, h₂⟩ | ⟨hne, h₁, h₂⟩
  · exact .verified h₁ h₂
  · have hjn : t.nodes[j]? ≠ some .none := fun hn => hne (hb hn)
    refine .dropped h₁ h₂ (fun c hc hn => ?_) ⟨j, by omega, hjn⟩
    rcases (by omega : c = i ∨ c = j) with rfl | rfl
    · simp
    · exact absurd hn hjn

lemma PairAt.frame {valid : Bool} {v : H} (hpair : PairAt honest t p done s)
    (hp : s.nodes[p]? = some (.verified v)) (hil : i ≠ 2 * p + 1) (hir : i ≠ 2 * p + 2)
    (hset : s.set i h = .ok (s', valid)) : PairAt honest t p (done ++ [i]) s' := by
  have hkeeps := set_keeps hset
  have hsame := set_frame hset ⟨_, hp⟩ hil hir
  cases hpair with
  | verified h₁ h₂ => exact .verified (hkeeps.isVerified h₁) (hkeeps.isVerified h₂)
  | dropped h₁ h₂ hall hsome =>
    exact .dropped ((hsame _ (Or.inl rfl)).trans h₁) ((hsame _ (Or.inr rfl)).trans h₂)
      (fun c hc hn => List.mem_append_left _ (hall c hc hn)) hsome
  | waiting hvalues hsome =>
    have hne : ∀ c, c = 2 * p + 1 ∨ c = 2 * p + 2 → (c ∈ done ++ [i] ↔ c ∈ done) := by
      rintro c hc
      simp only [List.mem_append, List.mem_singleton, or_iff_left_iff_imp]
      omega
    refine .waiting (fun c hc => ?_) (hsome.imp fun c hc => ⟨hc.1, hc.2.1, ?_⟩)
    · rw [hsame c hc, hvalues c hc, if_congr (hne c hc) rfl rfl]
    · rw [hne c hc.1]
      exact hc.2.2

/-- One call of a round. -/
theorem PairAt.set {valid : Bool} (hpair : PairAt honest t p done s)
    (ht : ∀ c, c = 2 * p + 1 ∨ c = 2 * p + 2 → ∃ x, t.nodes[c]? = some x ∧ x.verified? = none)
    (hp : s.nodes[p]? = some (.verified (hashPair l r)))
    (hl : honest.nodes[2 * p + 1]? = some l) (hr : honest.nodes[2 * p + 2]? = some r)
    (hi : t.nodes[i]? = some .none) (hdone : i ∉ done) (hh : honest.nodes[i]? = some h)
    (hset : s.set i h = .ok (s', valid)) : PairAt honest t p (done ++ [i]) s' := by
  have hkeeps := set_keeps hset
  by_cases hchild : i = 2 * p + 1 ∨ i = 2 * p + 2
  case neg =>
    obtain ⟨hil, hir⟩ := not_or.mp hchild
    exact hpair.frame hp hil hir hset
  case pos =>
    cases hpair with
    | verified h₁ h₂ => exact .verified (hkeeps.isVerified h₁) (hkeeps.isVerified h₂)
    | dropped _ _ hall _ => exact absurd (hall i hchild hi) hdone
    | waiting hvalues hsome =>
      -- the other child
      obtain ⟨j, hj, hij⟩ : ∃ j, (j = 2 * p + 1 ∨ j = 2 * p + 2) ∧ j ≠ i := by
        rcases hchild with rfl | rfl
        · exact ⟨2 * p + 2, Or.inr rfl, by omega⟩
        · exact ⟨2 * p + 1, Or.inl rfl, by omega⟩
      have hcases : ∀ c, c = 2 * p + 1 ∨ c = 2 * p + 2 → c = i ∨ c = j := by omega
      have hmissing : s.nodes[i]? = some .none := by rw [hvalues i hchild, if_neg hdone, hi]
      obtain ⟨h0, v, hv⟩ := set_missing hmissing hset
      rw [show (i - 1) / 2 = p by omega] at hv
      obtain ⟨fuel, hfuel⟩ : ∃ fuel, s.nodes.length = fuel + 1 :=
        ⟨s.nodes.length - 1, by have := (List.getElem?_eq_some_iff.mp hmissing).1; omega⟩
      rw [hfuel] at hv
      have hlt := (List.getElem?_eq_some_iff.mp hmissing).1
      have hi₁ : (s.nodes.set i (.unverified h))[i]? = some (.unverified h) :=
        List.getElem?_set_self hlt
      have hj₁ : (s.nodes.set i (.unverified h))[j]? = s.nodes[j]? :=
        List.getElem?_set_ne hij.symm
      have hp₁ : (s.nodes.set i (.unverified h))[p]? = some (.verified (hashPair l r)) :=
        (List.getElem?_set_ne (by omega)).trans hp
      obtain ⟨x, hx, hxn⟩ := ht j hj
      have hcheck : ∀ y, s.nodes[j]? = some (.unverified y) → (t.nodes[j]? = some .none →
          honest.nodes[j]? = some y) → PairAt honest t p (done ++ [i]) s' := fun y hy =>
        pairAt_of_check (by omega) hp₁ hl hr hi₁ hh (hj₁.trans hy) hv
      by_cases hjd : j ∈ done
      · -- the other child has its value from this round
        obtain ⟨y, hy⟩ : ∃ y, honest.nodes[j]? = some y := by
          rcases hj with rfl | rfl
          · exact ⟨l, hl⟩
          · exact ⟨r, hr⟩
        refine hcheck y ?_ fun _ => hy
        rw [hvalues j hj, if_pos hjd, hy]
        rfl
      · have hsj : s.nodes[j]? = some x := by rw [hvalues j hj, if_neg hjd, hx]
        cases x with
        | verified y => cases hxn
        | unverified y =>
          exact hcheck y hsj fun hn => by rw [hx] at hn; cases hn
        | none =>
          -- the other child is still missing
          have hs' := validateChildren_missing hp₁ hj (hj₁.trans hsj) hv
          subst hs'
          refine .waiting (fun c hc => ?_) ⟨j, hj, hx, by simp [hjd, hij]⟩
          rcases hcases c hc with rfl | rfl
          · rw [if_pos (by simp), hh, hi₁]
            rfl
          · rw [if_neg (by simp [hjd, hij]), hj₁, hvalues c hc, if_neg hjd]

lemma setAll_cons {c : ℕ × H} {calls : List (ℕ × H)} (hr : t.setAll (c :: calls) = .ok t') :
    ∃ t₁ valid, t.set c.1 c.2 = .ok (t₁, valid) ∧ t₁.setAll calls = .ok t' := by
  rw [setAll, List.foldlM_cons] at hr
  obtain ⟨t₁, hset, hr⟩ := bind_eq_ok.mp hr
  obtain ⟨⟨_, valid⟩, hset, heq⟩ := bind_eq_ok.mp hset
  cases heq
  exact ⟨t₁, valid, hset, hr⟩

lemma PairAt.setAll {calls : List (ℕ × H)} (hpair : PairAt honest t p done s)
    (ht : ∀ c, c = 2 * p + 1 ∨ c = 2 * p + 2 → ∃ x, t.nodes[c]? = some x ∧ x.verified? = none)
    (hp : s.nodes[p]? = some (.verified (hashPair l r)))
    (hl : honest.nodes[2 * p + 1]? = some l) (hr : honest.nodes[2 * p + 2]? = some r)
    (hmissing : ∀ c ∈ calls, t.nodes[c.1]? = some .none)
    (hhonest : ∀ c ∈ calls, honest.nodes[c.1]? = some c.2)
    (hnodup : (done ++ calls.map Prod.fst).Nodup) (hset : s.setAll calls = .ok s') :
    PairAt honest t p (done ++ calls.map Prod.fst) s' := by
  induction calls generalizing s done with
  | nil =>
    cases hset
    rwa [List.map_nil, List.append_nil]
  | cons c calls ih =>
    obtain ⟨s₁, valid, hset₁, hset⟩ := setAll_cons hset
    have happend : done ++ (c :: calls).map Prod.fst = done ++ [c.1] ++ calls.map Prod.fst := by
      simp
    rw [happend] at hnodup ⊢
    have hc : c.1 ∉ done := fun hmem => by
      have hdisj := (List.nodup_append.mp (List.nodup_append.mp hnodup).1).2.2
      exact hdisj _ hmem _ (List.mem_singleton_self _) rfl
    have hstep := hpair.set ht hp hl hr (hmissing c List.mem_cons_self) hc
      (hhonest c List.mem_cons_self) hset₁
    exact ih hstep ((set_keeps hset₁).verified p _ hp)
      (fun c hc => hmissing c (List.mem_cons_of_mem _ hc))
      (fun c hc => hhonest c (List.mem_cons_of_mem _ hc)) hnodup hset

/-- **A round at a verified node** verifies its children; or it drops them, if one had a value. -/
theorem Round.pair {root : H} (hround : Round honest t t') (hs : Sound root (fun _ => False) t)
    (hp : t.nodes[p]? = some (.verified (hashPair l r)))
    (hl : honest.nodes[2 * p + 1]? = some l) (hr : honest.nodes[2 * p + 2]? = some r)
    (hlt : 2 * p + 2 < t.nodes.length) (hopen : ¬ IsVerified t (2 * p + 1)) :
    IsVerified t' (2 * p + 1) ∧ IsVerified t' (2 * p + 2) ∨
      (t'.nodes[2 * p + 1]? = some .none ∧ t'.nodes[2 * p + 2]? = some .none ∧
        ¬ (t.nodes[2 * p + 1]? = some .none ∧ t.nodes[2 * p + 2]? = some .none)) := by
  obtain ⟨calls, hperm, hhonest, hset⟩ := hround
  obtain ⟨x, hx⟩ : ∃ x, t.nodes[2 * p + 1]? = some x := ⟨_, List.getElem?_eq_getElem (by omega)⟩
  obtain ⟨y, hy⟩ : ∃ y, t.nodes[2 * p + 2]? = some y := ⟨_, List.getElem?_eq_getElem hlt⟩
  obtain ⟨hxn, hyn, hsome⟩ : x.verified? = none ∧ y.verified? = none ∧ (x = .none ∨ y = .none) := by
    rcases ((hs.settled p _ x y hp hx hy).2 id).children with ⟨a, b, rfl, -⟩ | ⟨hxn, hyn, hsome⟩
    · exact absurd ⟨a, hx⟩ hopen
    · exact ⟨hxn, hyn, hsome.resolve_left (by simp)⟩
  have hmem : ∀ i, i ∈ calls.map Prod.fst ↔ t.nodes[i]? = some .none := fun i => by
    rw [hperm.mem_iff, mem_missingIndices]
  have hnodup : (calls.map Prod.fst).Nodup := hperm.nodup_iff.mpr nodup_missingIndices
  have hend : PairAt honest t p ([] ++ calls.map Prod.fst) t' := by
    refine PairAt.setAll (.waiting (fun c _ => by simp) ?_) ?_ hp hl hr
      (fun c hc => (hmem _).mp (List.mem_map_of_mem hc)) hhonest hnodup hset
    · rcases hsome with rfl | rfl
      · exact ⟨_, Or.inl rfl, hx, List.not_mem_nil⟩
      · exact ⟨_, Or.inr rfl, hy, List.not_mem_nil⟩
    · rintro c (rfl | rfl)
      · exact ⟨x, hx, hxn⟩
      · exact ⟨y, hy, hyn⟩
  cases hend with
  | verified h₁ h₂ => exact Or.inl ⟨h₁, h₂⟩
  | dropped h₁ h₂ _ hsome =>
    refine Or.inr ⟨h₁, h₂, fun hboth => ?_⟩
    obtain ⟨c, rfl | rfl, hc⟩ := hsome
    · exact hc hboth.1
    · exact hc hboth.2
  | waiting _ hsome =>
    obtain ⟨c, -, hc, hn⟩ := hsome
    exact absurd ((hmem c).mpr hc) hn

end Round

/-! ### The branches that are left -/

/-- The branches whose children are not verified. -/
def openBranches (t : MerkleTree (Potential H)) : Finset ℕ :=
  (Finset.range (t.leafCount - 1)).filter fun k =>
    (t.nodes[2 * k + 1]?.bind Potential.verified?).isNone

/-- A verified node has lost both children, so that the next round verifies them. -/
def Cleared (t : MerkleTree (Potential H)) : Prop :=
  ∃ p, IsVerified t p ∧ t.nodes[2 * p + 1]? = some .none ∧ t.nodes[2 * p + 2]? = some .none

lemma mem_openBranches :
    k ∈ openBranches t ↔ k < t.leafCount - 1 ∧ ¬ IsVerified t (2 * k + 1) := by
  rw [openBranches, Finset.mem_filter, Finset.mem_range, Option.isNone_iff_eq_none]
  refine and_congr_right fun _ => ?_
  cases hk : t.nodes[2 * k + 1]? with
  | none => simp [IsVerified, hk]
  | some x => cases x <;> simp [IsVerified, hk]

lemma card_openBranches : (openBranches t).card ≤ t.leafCount - 1 :=
  (Finset.card_filter_le _ _).trans_eq (Finset.card_range _)

lemma Keeps.openBranches (hk : Keeps t t') : openBranches t' ⊆ openBranches t := by
  intro k hmem
  obtain ⟨hlt, hopen⟩ := mem_openBranches.mp hmem
  refine mem_openBranches.mpr ⟨?_, fun hv => hopen (hk.isVerified hv)⟩
  rwa [leafCount, ← hk.length]

section Rounds

variable [Hash H] {root : H}

lemma Sound.isVerified_of_closed (hs : Sound root (fun _ => False) t) (hi : i < t.nodes.length)
    (hclosed : i ≠ 0 → (i - 1) / 2 ∉ openBranches t) : IsVerified t i := by
  rcases eq_or_ne i 0 with rfl | h0
  · exact ⟨root, hs.root⟩
  have hlen := hs.leafCount
  have hv : IsVerified t (2 * ((i - 1) / 2) + 1) := by
    by_contra hv
    exact hclosed h0 (mem_openBranches.mpr ⟨by omega, hv⟩)
  obtain ⟨h, hh⟩ := hv
  obtain ⟨l, r, -, hl, hr⟩ := hs.verified (by omega) hh
  rw [show (2 * ((i - 1) / 2) + 1 - 1) / 2 = (i - 1) / 2 by omega] at hl hr
  rcases (by omega : 2 * ((i - 1) / 2) + 1 = i ∨ 2 * ((i - 1) / 2) + 2 = i) with hi' | hi'
  · exact ⟨l, hi' ▸ hl⟩
  · exact ⟨r, hi' ▸ hr⟩

/-- The first open branch is verified: the branch above it is not open. -/
lemma Sound.exists_frontier (hs : Sound root (fun _ => False) t)
    (hopen : (openBranches t).Nonempty) : ∃ p ∈ openBranches t, IsVerified t p := by
  have hlen := hs.leafCount
  refine ⟨_, (openBranches t).min'_mem hopen, ?_⟩
  have hlt := (mem_openBranches.mp ((openBranches t).min'_mem hopen)).1
  refine hs.isVerified_of_closed (by omega) fun h0 hmem => ?_
  have hle := (openBranches t).min'_le _ hmem
  omega

lemma Sound.complete_of_closed (hs : Sound root (fun _ => False) t) (hclosed : openBranches t = ∅) :
    t.tryComplete.isSome := by
  refine hs.missingIndices_eq_nil.mp (List.eq_nil_iff_forall_not_mem.mpr fun i hi => ?_)
  rw [mem_missingIndices] at hi
  have hlt := (List.getElem?_eq_some_iff.mp hi).1
  obtain ⟨h, hh⟩ := hs.isVerified_of_closed hlt fun _ => by simp [hclosed]
  rw [hi] at hh
  cases hh

variable [DecidableEq H] {leaves : List H} {honest : MerkleTree H} {n : ℕ}

/-- What is assumed of the honest tree: it is the tree over the leaves, its root is the one of
the partial tree, and nothing collides with its branches. -/
structure Honest (leaves : List H) (honest : MerkleTree H) (root : H) : Prop where
  built : Built leaves honest
  root : honest.nodes[0]? = some root
  fixed : FixedLength H
  unique : honest.BranchesUnique

/-- The partial tree is sound, and has as many nodes as the honest one. -/
structure Below (leaves : List H) (root : H) (t : MerkleTree (Potential H)) : Prop where
  sound : Sound root (fun _ => False) t
  length : t.nodes.length = 2 * leaves.length - 1

lemma Below.setAll (ht : Below leaves root t) (calls : List (ℕ × H)) :
    ∃ t', t.setAll calls = .ok t' ∧ Below leaves root t' ∧ Keeps t t' := by
  obtain ⟨t', hset, hs, hk⟩ := setAll_spec ht.sound calls
  exact ⟨t', hset, ⟨hs, hk.length.trans ht.length⟩, hk⟩

lemma Round.stays (hround : Round honest t t') (ht : Below leaves root t) :
    Below leaves root t' ∧ Keeps t t' := by
  obtain ⟨calls, -, -, hset⟩ := hround
  obtain ⟨t₁, hset', hb, hk⟩ := ht.setAll calls
  rw [hset] at hset'
  cases hset'
  exact ⟨hb, hk⟩

lemma Round.frontier (hround : Round honest t t') (hh : Honest leaves honest root)
    (ht : Below leaves root t) (hopen : p ∈ openBranches t) (hv : IsVerified t p) :
    (openBranches t').card < (openBranches t).card ∨
      ¬ (t.nodes[2 * p + 1]? = some .none ∧ t.nodes[2 * p + 2]? = some .none) ∧ Cleared t' := by
  obtain ⟨hb', hk⟩ := hround.stays ht
  obtain ⟨hlt, hno⟩ := mem_openBranches.mp hopen
  have hlen := ht.sound.leafCount
  have hlen' := ht.length
  obtain ⟨v, hp⟩ := hv
  obtain ⟨l, r, hl, hr, hbranch⟩ := hh.built.branch p (by omega)
  have hhonest := ht.sound.eq_honest hh.built ht.length hh.root hh.fixed hh.unique hp
  rw [hbranch] at hhonest
  cases hhonest
  rcases hround.pair ht.sound hp hl hr (by omega) hno with ⟨hv₁, -⟩ | ⟨h₁, h₂, hnot⟩
  · refine Or.inl (Finset.card_lt_card ⟨hk.openBranches, fun hsub => ?_⟩)
    exact (mem_openBranches.mp (hsub hopen)).2 hv₁
  · exact Or.inr ⟨hnot, p, hk.isVerified ⟨_, hp⟩, h₁, h₂⟩

/-- **Each round closes a branch, or clears one** for the next round to close. -/
theorem Round.progress (hround : Round honest t t') (hh : Honest leaves honest root)
    (ht : Below leaves root t) (hopen : (openBranches t).Nonempty) :
    (openBranches t').card < (openBranches t).card ∨ ¬ Cleared t ∧ Cleared t' := by
  by_cases hcleared : Cleared t
  · obtain ⟨p, hv, hl, hr⟩ := hcleared
    have hmem : p ∈ openBranches t := by
      have hlt := (List.getElem?_eq_some_iff.mp hr).1
      have hlen := ht.sound.leafCount
      refine mem_openBranches.mpr ⟨by omega, fun ⟨w, hw⟩ => ?_⟩
      rw [hl] at hw
      cases hw
    exact Or.inl ((hround.frontier hh ht hmem hv).resolve_right fun hc => hc.1 ⟨hl, hr⟩)
  · obtain ⟨p, hmem, hv⟩ := ht.sound.exists_frontier hopen
    exact (hround.frontier hh ht hmem hv).imp_right fun hc => ⟨hcleared, hc.2⟩

/-- A number of rounds. -/
inductive Rounds (honest : MerkleTree H) (t : MerkleTree (Potential H)) :
    ℕ → MerkleTree (Potential H) → Prop
  | refl : Rounds honest t 0 t
  | step {n t' t''} : Rounds honest t n t' → Round honest t' t'' → Rounds honest t (n + 1) t''

lemma Rounds.stays (hrounds : Rounds honest t n t') (ht : Below leaves root t) :
    Below leaves root t' ∧ Keeps t t' := by
  induction hrounds with
  | refl => exact ⟨ht, .refl t⟩
  | step _ hround ih =>
    obtain ⟨hb, hk⟩ := ih
    obtain ⟨hb', hk'⟩ := hround.stays hb
    exact ⟨hb', hk.trans hk'⟩

lemma Rounds.paid (hrounds : Rounds honest t n t') (hh : Honest leaves honest root)
    (ht : Below leaves root t) (hopen : (openBranches t').Nonempty) :
    2 * (openBranches t').card + n ≤ 2 * (openBranches t).card ∨
      Cleared t' ∧ 2 * (openBranches t').card + n ≤ 2 * (openBranches t).card + 1 := by
  induction hrounds with
  | refl => exact Or.inl le_rfl
  | step hrounds hround ih =>
    have hb := (hrounds.stays ht).1
    have hsub := (hround.stays hb).2.openBranches
    have hcard := Finset.card_le_card hsub
    have hopen' := hopen.mono hsub
    rcases hround.progress hh hb hopen' with hlt | ⟨hno, hyes⟩
    · rcases ih hopen' with h | ⟨-, h⟩
      · exact Or.inl (by omega)
      · exact Or.inl (by omega)
    · rcases ih hopen' with h | ⟨hc, -⟩
      · exact Or.inr ⟨hyes, by omega⟩
      · exact absurd hc hno

lemma Rounds.complete (hrounds : Rounds honest t n t') (hh : Honest leaves honest root)
    (ht : Below leaves root t) (hn : 2 * leaves.length ≤ n) (hl : 1 ≤ leaves.length) :
    t'.tryComplete = some honest := by
  have hb := (hrounds.stays ht).1
  have hclosed : openBranches t' = ∅ := by
    by_contra hne
    have hopen := Finset.nonempty_iff_ne_empty.mpr hne
    have hpos := hopen.card_pos
    have hcard := card_openBranches (t := t)
    have hlen := ht.sound.leafCount
    have hlen' := ht.length
    rcases hrounds.paid hh ht hopen with h | ⟨-, h⟩ <;> omega
  obtain ⟨t'', hc⟩ := Option.isSome_iff_exists.mp (hb.sound.complete_of_closed hclosed)
  rw [hc, hb.sound.complete_eq_honest hh.built hb.length hh.root hh.fixed hh.unique hc]

/-- **Honest answers complete a poisoned tree**: whatever was set before, no call loses a verified
node, a round can be made in every order, and after `2 L` rounds the tree is the honest one. -/
theorem rounds_complete {leaves : List H} {honest : MerkleTree H} {root : H} (hne : leaves ≠ [])
    (hfrom : fromLeaves leaves = .ok honest) (hroot : honest.merkleRoot = .ok root)
    (hf : FixedLength H) (hu : honest.BranchesUnique) (calls : List (ℕ × H)) :
    ∃ t₀ t, newWithCapacity root leaves.length = .ok t₀ ∧ t₀.setAll calls = .ok t ∧
      ∀ n t', Rounds honest t n t' →
        Keeps t t' ∧ (∀ calls', ∃ t'', t'.setAll calls' = .ok t'' ∧ Keeps t' t'') ∧
        (∀ order : List ℕ, order.Perm t'.missingIndices → ∃ (calls' : List (ℕ × H)) (t'' : _),
          calls'.map Prod.fst = order ∧ (∀ c ∈ calls', honest.get c.1 = some c.2) ∧
            t'.setAll calls' = .ok t'') ∧
        (2 * leaves.length ≤ n → t'.tryComplete = some honest) := by
  have hl : 1 ≤ leaves.length := List.length_pos_iff.mpr hne
  obtain ⟨honest', hfrom', hbuilt⟩ := fromLeaves_built hne
  rw [hfrom] at hfrom'
  cases hfrom'
  have hh : Honest leaves honest root := ⟨hbuilt, index_eq_ok.mp hroot, hf, hu⟩
  obtain ⟨t₀, ht₀, hlen₀, hs₀⟩ := newWithCapacity_spec root hl
  obtain ⟨t, ht, hb, -⟩ := Below.setAll ⟨hs₀, hlen₀⟩ calls
  refine ⟨t₀, t, ht₀, ht, fun n t' hrounds => ?_⟩
  obtain ⟨hb', hk⟩ := hrounds.stays hb
  refine ⟨hk, fun calls' => ?_, fun order horder => ?_, fun hn => hrounds.complete hh hb hn hl⟩
  · obtain ⟨t'', ht'', -, hk'⟩ := hb'.setAll calls'
    exact ⟨t'', ht'', hk'⟩
  · have hget : ∀ i ∈ order, ∃ v, honest.get i = some v := fun i hi => by
      have hlt := (List.getElem?_eq_some_iff.mp
        (mem_missingIndices.mp (horder.mem_iff.mp hi))).1
      exact ⟨_, List.getElem?_eq_getElem (by rw [hbuilt.length, ← hb'.length]; exact hlt)⟩
    have : Nonempty H := ⟨root⟩
    choose! v hv using hget
    obtain ⟨t'', ht'', -, -⟩ := hb'.setAll (order.map fun i => (i, v i))
    refine ⟨order.map fun i => (i, v i), t'', by simp [Function.comp_def], fun c hc => ?_, ht''⟩
    obtain ⟨i, hi, rfl⟩ := List.mem_map.mp hc
    exact hv i hi

end Rounds

/-! Two leaves; a wrong value for the second of them waits for the first. -/

section Poisoned

local instance poisonedHash : Hash UInt8 := tableHash [[1, 2]]

lemma rounds_poisoned : Rounds (H := UInt8) ⟨[0, 1, 2]⟩ ⟨[.verified 0, .none, .unverified 7]⟩ 4
    ⟨[.verified 0, .verified 1, .verified 2]⟩ := by
  have hidle : Round (H := UInt8) ⟨[0, 1, 2]⟩ ⟨[.verified 0, .verified 1, .verified 2]⟩
      ⟨[.verified 0, .verified 1, .verified 2]⟩ := ⟨[], by decide, by simp, rfl⟩
  have hfirst : Round (H := UInt8) ⟨[0, 1, 2]⟩ ⟨[.verified 0, .none, .unverified 7]⟩
      ⟨[.verified 0, .none, .none]⟩ := ⟨[(1, 1)], by decide, by decide, by decide⟩
  have hsecond : Round (H := UInt8) ⟨[0, 1, 2]⟩ ⟨[.verified 0, .none, .none]⟩
      ⟨[.verified 0, .verified 1, .verified 2]⟩ := ⟨[(2, 2), (1, 1)], by decide, by decide, by decide⟩
  exact (((Rounds.refl.step hfirst).step hsecond).step hidle).step hidle

theorem rounds_complete_poisoned : ∃ t₀ t t' : MerkleTree (Potential UInt8),
    newWithCapacity 0 2 = .ok t₀ ∧ t₀.setAll [(2, 7)] = .ok t ∧ Rounds ⟨[0, 1, 2]⟩ t 4 t' ∧
      t'.tryComplete = some ⟨[0, 1, 2]⟩ := by
  have hne : ([1, 2] : List UInt8) ≠ [] := by decide
  have hfrom : fromLeaves ([1, 2] : List UInt8) = .ok ⟨[0, 1, 2]⟩ := by decide
  obtain ⟨t₀, t, h₀, ht, hall⟩ := rounds_complete hne hfrom rfl (fixedLength_tableHash _)
    pair_branchesUnique [(2, 7)]
  have hstart : t = ⟨[.verified 0, .none, .unverified 7]⟩ := by
    cases h₀
    have hset : setAll (H := UInt8) ⟨[.verified 0, .none, .none]⟩ [(2, 7)] =
        .ok ⟨[.verified 0, .none, .unverified 7]⟩ := by decide
    exact Except.ok.inj (ht.symm.trans hset)
  subst hstart
  exact ⟨t₀, _, _, h₀, ht, rounds_poisoned, (hall 4 _ rounds_poisoned).2.2.2 (by decide)⟩

end Poisoned

end Ossa.Util.MerkleTree
