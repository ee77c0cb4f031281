import Ossa.Collections
import Ossa.MerkleTree

/-!
The layout of a merkle tree built from its leaves.

In breadth-first order the branches of a tree with `L` leaves are the first `L - 1` of its
`2 L - 1` nodes, and the leaves are the rest. The tree is built layer by layer from the bottom,
so the leaves are taken for the bottom layer first, and then for the end of the layer above it.
-/

namespace Ossa.Util.MerkleTree

open Ossa.Loop Ossa.Collections

lemma two_pow_bottomLayer {n : ℕ} (hn : 1 ≤ n) :
    n ≤ 2 ^ bottomLayer n ∧ 2 ^ bottomLayer n ≤ 2 * n - 1 := by
  refine ⟨Nat.le_pow_clog Nat.one_lt_two n, ?_⟩
  rcases hn.eq_or_lt with rfl | hn
  · decide
  · have hlt := Nat.pow_pred_clog_lt_self Nat.one_lt_two hn
    have hpos := Nat.clog_pos Nat.one_lt_two hn
    have hpow : 2 ^ Nat.clog 2 n = 2 * 2 ^ (Nat.clog 2 n).pred := by
      rw [← pow_succ', ← Nat.succ_eq_add_one, Nat.succ_pred_eq_of_pos hpos]
    unfold bottomLayer
    omega

/-- The first position of a layer. -/
def layerStart (layer : ℕ) : ℕ := 2 ^ layer - 1

lemma layerStart_succ (layer : ℕ) : layerStart (layer + 1) = 2 * layerStart layer + 1 := by
  have hpos := Nat.two_pow_pos layer
  unfold layerStart
  rw [pow_succ]
  omega

lemma layerStart_mono {a b : ℕ} (hab : a ≤ b) : layerStart a ≤ layerStart b :=
  Nat.sub_le_sub_right (Nat.pow_le_pow_right (by decide) hab) 1

lemma layerStart_bottomLayer {n : ℕ} (hn : 1 ≤ n) :
    n - 1 ≤ layerStart (bottomLayer n) ∧ layerStart (bottomLayer n) ≤ 2 * n - 2 := by
  have hpow := two_pow_bottomLayer hn
  unfold layerStart
  omega

lemma layerStart_lt {n layer : ℕ} (hn : 1 ≤ n) (hl : layer < bottomLayer n) :
    layerStart layer < n - 1 := by
  have hbot := layerStart_bottomLayer hn
  have hle := layerStart_mono (Nat.succ_le_of_lt hl)
  rw [Nat.succ_eq_add_one, layerStart_succ] at hle
  omega

/-- The number of the leaf at position `p`. -/
def leafNumber (n p : ℕ) : ℕ :=
  if layerStart (bottomLayer n) ≤ p then p - (layerStart (bottomLayer n))
  else n + p - (layerStart (bottomLayer n))

/-- The position of leaf `k`. -/
def leafPosition (n k : ℕ) : ℕ :=
  if 2 * n - 1 ≤ layerStart (bottomLayer n) + k then layerStart (bottomLayer n) + k - n
  else layerStart (bottomLayer n) + k

lemma leafPosition_bounds {n k : ℕ} (hk : k < n) :
    n - 1 ≤ leafPosition n k ∧ leafPosition n k < 2 * n - 1 := by
  have hpow := layerStart_bottomLayer (n := n) (by omega)
  unfold leafPosition
  split_ifs <;> omega

lemma leafNumber_leafPosition {n k : ℕ} (hk : k < n) : leafNumber n (leafPosition n k) = k := by
  have hpow := layerStart_bottomLayer (n := n) (by omega)
  unfold leafNumber leafPosition
  split_ifs <;> omega

lemma leafPosition_leafNumber {n p : ℕ} (hp : n - 1 ≤ p) (hp' : p < 2 * n - 1) :
    leafPosition n (leafNumber n p) = p := by
  have hpow := layerStart_bottomLayer (n := n) (by omega)
  unfold leafNumber leafPosition
  split_ifs <;> omega

lemma leafNumber_lt {n p : ℕ} (hp : n - 1 ≤ p) (hp' : p < 2 * n - 1) : leafNumber n p < n := by
  have hpow := layerStart_bottomLayer (n := n) (by omega)
  unfold leafNumber
  split_ifs <;> omega

variable {H : Type} [Hash H]

/-! ### Filling in the nodes -/

/-- The nodes at the positions in `done` are filled in, and no others. -/
structure Filled (leaves : List H) (done : ℕ → Prop) (nodes : List (Option H)) : Prop where
  length : nodes.length = 2 * leaves.length - 1
  empty (p : ℕ) : p < 2 * leaves.length - 1 → ¬ done p → nodes[p]? = some none
  leaf (p : ℕ) : p < 2 * leaves.length - 1 → done p → leaves.length - 1 ≤ p →
    ∃ h, nodes[p]? = some (some h) ∧ leaves[leafNumber leaves.length p]? = some h
  branch (p : ℕ) : done p → p < leaves.length - 1 → ∃ l r, nodes[2 * p + 1]? = some (some l) ∧
    nodes[2 * p + 2]? = some (some r) ∧ nodes[p]? = some (some (hashPair l r))

variable {leaves : List H} {nodes : List (Option H)} {done done' : ℕ → Prop} {i p : ℕ}
  {h l r : H}

lemma filled_replicate : Filled leaves (fun _ => False)
    (List.replicate (2 * leaves.length - 1) none) where
  length := by simp
  empty p hp _ := by simp [hp]
  leaf _ _ hd := hd.elim
  branch _ hd := hd.elim

lemma Filled.congr (hf : Filled leaves done nodes)
    (hd : ∀ p, p < 2 * leaves.length - 1 → (done' p ↔ done p)) : Filled leaves done' nodes where
  length := hf.length
  empty p hp hn := hf.empty p hp fun hc => hn ((hd p hp).mpr hc)
  leaf p hp hd' := hf.leaf p hp ((hd p hp).mp hd')
  branch p hd' hp := hf.branch p ((hd p (by omega)).mp hd') hp

lemma Filled.exists_of_done (hf : Filled leaves done nodes) (hp : p < 2 * leaves.length - 1)
    (hd : done p) : ∃ h, nodes[p]? = some (some h) := by
  rcases le_or_gt (leaves.length - 1) p with hle | hlt
  · obtain ⟨h, hh, -⟩ := hf.leaf p hp hd hle
    exact ⟨h, hh⟩
  · obtain ⟨l, r, -, -, hh⟩ := hf.branch p hd hlt
    exact ⟨_, hh⟩

omit [Hash H] in
lemma getElem?_set_of_empty (he : nodes[i]? = some none) (hp : nodes[p]? = some (some l)) :
    (nodes.set i (some h))[p]? = some (some l) := by
  have hne : i ≠ p := by
    rintro rfl
    rw [he] at hp
    cases hp
  rw [List.getElem?_set_ne hne, hp]

lemma Filled.set (hf : Filled leaves done nodes) (hi : i < 2 * leaves.length - 1) (hn : ¬ done i)
    (hleaf : leaves.length - 1 ≤ i → leaves[leafNumber leaves.length i]? = some h)
    (hbranch : i < leaves.length - 1 → ∃ l r, nodes[2 * i + 1]? = some (some l) ∧
      nodes[2 * i + 2]? = some (some r) ∧ h = hashPair l r) :
    Filled leaves (fun p => done p ∨ p = i) (nodes.set i (some h)) := by
  have hset : (nodes.set i (some h))[i]? = some (some h) :=
    List.getElem?_set_self (by rw [hf.length]; exact hi)
  have hkeep : ∀ {p l}, nodes[p]? = some (some l) → (nodes.set i (some h))[p]? = some (some l) :=
    fun hp => getElem?_set_of_empty (hf.empty i hi hn) hp
  refine ⟨by rw [List.length_set, hf.length], ?_, ?_, ?_⟩
  case _ =>
    intro p hp hd
    rw [not_or] at hd
    rw [List.getElem?_set_ne (Ne.symm hd.2)]
    exact hf.empty p hp hd.1
  case _ =>
    rintro p hp (hd | rfl) hle
    · obtain ⟨v, hv, hl⟩ := hf.leaf p hp hd hle
      exact ⟨v, hkeep hv, hl⟩
    · exact ⟨h, hset, hleaf hle⟩
  case _ =>
    rintro p (hd | rfl) hlt
    · obtain ⟨l, r, hl, hr, hv⟩ := hf.branch p hd hlt
      exact ⟨l, r, hkeep hl, hkeep hr, hkeep hv⟩
    · obtain ⟨l, r, hl, hr, rfl⟩ := hbranch hlt
      exact ⟨l, r, hkeep hl, hkeep hr, hset⟩

/-- What `from_leaves` does to one node. -/
lemma Filled.fillNode (hf : Filled leaves done nodes) (rest : List H) (hi : i < 2 * leaves.length - 1)
    (hn : ¬ done i) (hchildren : i < leaves.length - 1 → done (2 * i + 1) ∧ done (2 * i + 2))
    (hrest : leaves.length - 1 ≤ i → rest = leaves.drop (leafNumber leaves.length i)) :
    ∃ nodes', fillNode leaves.length (nodes, rest) i =
        .ok (nodes', if leaves.length - 1 ≤ i then rest.drop 1 else rest) ∧
      Filled leaves (fun p => done p ∨ p = i) nodes' := by
  have hlen : i < nodes.length := by rw [hf.length]; exact hi
  rcases le_or_gt (leaves.length - 1) i with hle | hlt
  · obtain ⟨h, hh⟩ : ∃ h, leaves[leafNumber leaves.length i]? = some h :=
      ⟨_, List.getElem?_eq_getElem (leafNumber_lt hle hi)⟩
    refine ⟨nodes.set i (some h), ?_, hf.set hi hn (fun _ => hh) (fun hlt => by omega)⟩
    have hcons : rest = h :: rest.drop 1 := by
      rw [hrest hle, List.drop_drop]
      obtain ⟨hlt, rfl⟩ := List.getElem?_eq_some_iff.mp hh
      exact List.drop_eq_getElem_cons hlt
    rw [if_pos hle, hcons]
    simp [MerkleTree.fillNode, nextNode, isLeaf, hle, assign_of_lt hlen]
  · obtain ⟨hdl, hdr⟩ := hchildren hlt
    obtain ⟨l, hl⟩ := hf.exists_of_done (by omega) hdl
    obtain ⟨r, hr⟩ := hf.exists_of_done (by omega) hdr
    refine ⟨nodes.set i (some (hashPair l r)), ?_,
      hf.set hi hn (fun hle => by omega) fun _ => ⟨l, r, hl, hr, rfl⟩⟩
    simp [MerkleTree.fillNode, nextNode, isLeaf, Nat.not_le.mpr hlt, Loop.index, hl, hr,
      assign_of_lt hlen]

/-! ### Layers -/

/-- The number of leaves taken when position `i` of a layer is next. -/
def taken (n layer i : ℕ) : ℕ :=
  if layer = bottomLayer n then i - layerStart layer
  else if layer + 1 = bottomLayer n then n + max i (n - 1) - layerStart (layer + 1)
  else n

/-- Position `i` of a layer is next: the rest of the layer and all before it are empty. -/
structure Reached (leaves : List H) (layer i : ℕ) (w : List (Option H) × List H) : Prop where
  filled : Filled leaves (fun p => layerStart layer ≤ p ∧ p < i ∨ layerStart (layer + 1) ≤ p) w.1
  rest : w.2 = leaves.drop (taken leaves.length layer i)

variable {w w' : List (Option H) × List H} {layer : ℕ}

lemma bottom_of_leaf {n : ℕ} (hn : 1 ≤ n) (hb : layer ≤ bottomLayer n) (hle : n - 1 ≤ i)
    (hi : i < layerStart (layer + 1)) : layer = bottomLayer n ∨ layer + 1 = bottomLayer n := by
  by_contra hc
  have hlt := layerStart_lt hn (show layer + 1 < bottomLayer n by omega)
  omega

lemma taken_of_leaf {n : ℕ} (hn : 1 ≤ n) (hb : layer ≤ bottomLayer n) (hle : n - 1 ≤ i)
    (hs : layerStart layer ≤ i) (hi : i < layerStart (layer + 1)) :
    taken n layer i = leafNumber n i ∧ taken n layer (i + 1) = leafNumber n i + 1 := by
  have hbot := layerStart_bottomLayer hn
  rcases bottom_of_leaf hn hb hle hi with rfl | heq
  · simp only [taken, leafNumber, hs, ↓reduceIte]
    exact ⟨trivial, by omega⟩
  · have hne : layer ≠ bottomLayer n := by omega
    rw [heq] at hi
    simp only [taken, leafNumber, if_neg hne, heq, if_neg (Nat.not_le.mpr hi), ↓reduceIte]
    omega

lemma taken_of_branch {n : ℕ} (hn : 1 ≤ n) (hlt : i < n - 1) (hs : layerStart layer ≤ i) :
    taken n layer (i + 1) = taken n layer i := by
  have hbot := layerStart_bottomLayer hn
  have hne : layer ≠ bottomLayer n := by
    rintro rfl
    omega
  simp only [taken, if_neg hne]
  split_ifs <;> omega

lemma taken_start {n : ℕ} (hn : 1 ≤ n) (hl : layer < bottomLayer n) :
    taken n layer (layerStart layer) =
      taken n (layer + 1) (min (layerStart (layer + 2)) (2 * n - 1)) := by
  have hbot := layerStart_bottomLayer hn
  have hlt := layerStart_lt hn hl
  have hne : layer ≠ bottomLayer n := by omega
  simp only [taken, if_neg hne]
  rcases eq_or_ne (layer + 1) (bottomLayer n) with heq | hne'
  · have hsucc := layerStart_succ (layer + 1)
    rw [if_pos heq, if_pos heq]
    rw [heq] at hsucc ⊢
    rw [show layer + 2 = bottomLayer n + 1 by omega, hsucc]
    omega
  · rw [if_neg hne', if_neg hne']
    rcases eq_or_ne (layer + 1 + 1) (bottomLayer n) with heq | hne''
    · rw [if_pos heq, show layer + 2 = bottomLayer n from heq]
      omega
    · rw [if_neg hne'']

variable {w : List (Option H) × List H}

lemma Reached.fillNode (hr : Reached leaves layer i w) (hb : layer ≤ bottomLayer leaves.length)
    (hs : layerStart layer ≤ i) (hi : i < layerStart (layer + 1)) (hi' : i < 2 * leaves.length - 1) :
    ∃ w', fillNode leaves.length w i = .ok w' ∧ Reached leaves layer (i + 1) w' := by
  have hn : 1 ≤ leaves.length := by omega
  have hchildren := layerStart_succ layer
  obtain ⟨nodes', hfill, hf⟩ := hr.filled.fillNode w.2 hi' (by omega)
    (fun _ => ⟨Or.inr (by omega), Or.inr (by omega)⟩)
    fun hle => by rw [hr.rest, (taken_of_leaf hn hb hle hs hi).1]
  refine ⟨_, hfill, hf.congr fun p _ => by omega, ?_⟩
  rw [hr.rest]
  split_ifs with hle
  · obtain ⟨h₁, h₂⟩ := taken_of_leaf hn hb hle hs hi
    rw [List.drop_drop, h₁, h₂]
  · rw [taken_of_branch hn (by omega) hs]

lemma Reached.fillLayer (hr : Reached leaves layer (layerStart layer) w)
    (hb : layer ≤ bottomLayer leaves.length) (hn : 1 ≤ leaves.length) :
    ∃ w', fillLayer leaves.length (2 * leaves.length - 1) w layer = .ok w' ∧
      Reached leaves layer (min (layerStart (layer + 1)) (2 * leaves.length - 1)) w' := by
  have hbot := layerStart_bottomLayer hn
  have hmono := layerStart_mono hb
  have hsucc := layerStart_succ layer
  have hle : layerStart layer ≤ min (layerStart (layer + 1)) (2 * leaves.length - 1) := by omega
  obtain ⟨w', hw, hr'⟩ := foldlM_range' (I := Reached leaves layer) (n := layerStart layer)
    (m := min (layerStart (layer + 1)) (2 * leaves.length - 1) - layerStart layer) hr
    fun w i hs hi hr => hr.fillNode hb hs (by omega) (by omega)
  rw [Nat.add_sub_cancel' hle] at hr'
  exact ⟨w', hw, hr'⟩

/-- Layer `k` and all layers below it are filled in, layer `k - 1` is next. -/
def Layered (leaves : List H) (k : ℕ) (w : List (Option H) × List H) : Prop :=
  (k = 0 → Filled leaves (fun _ => True) w.1) ∧
    ∀ layer, k = layer + 1 → Reached leaves layer (layerStart layer) w

lemma layered_start (hn : 1 ≤ leaves.length) : Layered leaves (bottomLayer leaves.length + 1)
    (List.replicate (2 * leaves.length - 1) none, leaves) := by
  have hbot := layerStart_bottomLayer hn
  have hsucc := layerStart_succ (bottomLayer leaves.length)
  refine ⟨fun h0 => by omega, fun layer hl => ?_⟩
  obtain rfl : layer = bottomLayer leaves.length := by omega
  exact ⟨filled_replicate.congr fun p hp => ⟨fun hd => by omega, False.elim⟩, by simp [taken]⟩

lemma Layered.step (hn : 1 ≤ leaves.length) (hl : layer < bottomLayer leaves.length + 1)
    (hw : Layered leaves (layer + 1) w) :
    ∃ w', fillLayer leaves.length (2 * leaves.length - 1) w layer = .ok w' ∧
      Layered leaves layer w' := by
  have hsucc := layerStart_succ layer
  obtain ⟨w', hw, hr⟩ := (hw.2 layer rfl).fillLayer (by omega) hn
  refine ⟨w', hw, ?_, ?_⟩
  · rintro rfl
    exact hr.filled.congr fun p hp => by simp [layerStart] at *; omega
  · rintro layer rfl
    have hsucc' := layerStart_succ layer
    refine ⟨hr.filled.congr fun p hp => by omega, ?_⟩
    rw [hr.rest, taken_start hn (by omega)]

lemma fillLayers (hn : 1 ≤ leaves.length) :
    ∃ w, (List.range (bottomLayer leaves.length + 1)).reverse.foldlM
        (fillLayer leaves.length (2 * leaves.length - 1))
        (List.replicate (2 * leaves.length - 1) none, leaves) = .ok w ∧
      Filled leaves (fun _ => True) w.1 := by
  obtain ⟨w, hw, hl⟩ := foldlM_range_reverse (layered_start hn) fun w layer hl hw =>
    Layered.step hn hl hw
  exact ⟨w, hw, hl.1 rfl⟩

/-! ### The tree -/

/-- The nodes of a tree over `leaves`. -/
structure Built (leaves : List H) (t : MerkleTree H) : Prop where
  length : t.nodes.length = 2 * leaves.length - 1
  leaf (k : ℕ) : k < leaves.length → t.nodes[leafPosition leaves.length k]? = leaves[k]?
  branch (p : ℕ) : p < leaves.length - 1 → ∃ l r, t.nodes[2 * p + 1]? = some l ∧
    t.nodes[2 * p + 2]? = some r ∧ t.nodes[p]? = some (hashPair l r)

lemma Filled.built (hf : Filled leaves (fun _ => True) nodes) :
    ∃ nodes', nodes.mapM id = some nodes' ∧ Built leaves ⟨nodes'⟩ := by
  obtain ⟨nodes', hnodes⟩ := exists_mapM (f := id) (l := nodes) fun a ha => by
    obtain ⟨p, hp, rfl⟩ := List.mem_iff_getElem.mp ha
    obtain ⟨h, hh⟩ := hf.exists_of_done (p := p) (by rw [← hf.length]; exact hp) trivial
    exact ⟨h, by rw [List.getElem?_eq_getElem hp] at hh; exact Option.some.inj hh⟩
  have hget : ∀ {p : ℕ} {h : H}, nodes[p]? = some (some h) → nodes'[p]? = some h := fun hp => by
    rw [getElem?_of_mapM hnodes, hp]
    rfl
  refine ⟨nodes', hnodes, ?_, fun k hk => ?_, fun p hp => ?_⟩
  · rw [length_of_mapM hnodes, hf.length]
  · obtain ⟨hle, hlt⟩ := leafPosition_bounds hk
    obtain ⟨h, hh, hl⟩ := hf.leaf _ hlt trivial hle
    rw [hget hh, ← hl, leafNumber_leafPosition hk]
  · obtain ⟨l, r, hl, hr, hv⟩ := hf.branch p trivial hp
    exact ⟨l, r, hget hl, hget hr, hget hv⟩

/-- **`from_leaves` builds the tree**: it returns, and the nodes are as they should be. -/
theorem fromLeaves_built (hn : leaves ≠ []) : ∃ t, fromLeaves leaves = .ok t ∧ Built leaves t := by
  have hlen : 1 ≤ leaves.length := List.length_pos_iff.mpr hn
  obtain ⟨w, hw, hf⟩ := fillLayers hlen
  obtain ⟨nodes, hnodes, hb⟩ := hf.built
  refine ⟨⟨nodes⟩, ?_, hb⟩
  unfold fromLeaves
  rw [if_neg (by simpa using hn)]
  simp only [nodeCountForLeafCount, if_neg (show leaves.length ≠ 0 by omega), ok_bind, hw, hnodes,
    orFault_some, pure_eq_ok]

lemma fromChunks_built {chunks : List (List UInt8)} (hn : chunks ≠ []) :
    ∃ t : MerkleTree H, fromChunks chunks = .ok t ∧ Built (chunks.map digest) t := by
  have hmap : chunks.map (digest (H := H)) ≠ [] := by simpa using hn
  unfold fromChunks
  rw [if_neg (by simpa using hn)]
  exact fromLeaves_built hmap

/-! ### Chunks -/

variable {t : MerkleTree H} {k : ℕ}

omit [Hash H] in
lemma indexForLeaf_eq (hlen : t.nodes.length = 2 * n - 1) (hk : k < n) :
    t.indexForLeaf k = .ok (leafPosition n k) := by
  have hcount : t.leafCount = n := by
    unfold leafCount
    omega
  unfold indexForLeaf leafPosition layerStart
  rw [hcount, if_pos hk, hlen]

/-- A chunk is checked against the leaf of its index. -/
theorem validateChunk_eq [DecidableEq H] (hlen : t.nodes.length = 2 * n - 1) (hk : k < n)
    (chunk : List UInt8) : ∃ h, t.nodes[leafPosition n k]? = some h ∧
      t.validateChunk k chunk = .ok (decide (h = digest chunk)) := by
  have hlt := (leafPosition_bounds hk).2
  rw [← hlen] at hlt
  refine ⟨_, List.getElem?_eq_getElem hlt, ?_⟩
  rw [validateChunk, indexForLeaf_eq hlen hk, ok_bind,
    index_eq_ok.mpr (List.getElem?_eq_getElem hlt), ok_bind, pure_eq_ok]

end Ossa.Util.MerkleTree
