import Ossa.MerkleLayout

/-!
The tree over a list of chunks.

`from_leaves`, `is_leaf` and `index_for_leaf` compute the layout of the tree separately, and
agree: every node is filled in once, the leaves are numbered by the chunks, and a chunk is
accepted at its own number and nowhere else.
-/

namespace Ossa.Util.MerkleTree

open Ossa.Loop Ossa.Collections

/-- The positions of a tree with `n` leaves, in the order in which they are filled in. -/
def fillOrder (n : ℕ) : List ℕ :=
  (List.range (bottomLayer n + 1)).reverse.flatMap fun layer =>
    List.range' (2 ^ layer - 1) (min (2 ^ (layer + 1) - 1) (2 * n - 1) - (2 ^ layer - 1))

lemma perm_range_layers {n : ℕ} (hn : 1 ≤ n) (k : ℕ) (hk : k ≤ bottomLayer n + 1) :
    ((List.range k).reverse.flatMap fun layer => List.range' (layerStart layer)
      (min (layerStart (layer + 1)) (2 * n - 1) - layerStart layer)).Perm
        (List.range (min (layerStart k) (2 * n - 1))) := by
  induction k with
  | zero => simp [layerStart]
  | succ k ih =>
    have hbot := layerStart_bottomLayer hn
    have hmono := layerStart_mono (Nat.lt_succ_iff.mp hk)
    have hsucc := layerStart_succ k
    have hrange : List.range (min (layerStart (k + 1)) (2 * n - 1)) =
        List.range (min (layerStart k) (2 * n - 1)) ++ List.range' (layerStart k)
          (min (layerStart (k + 1)) (2 * n - 1) - layerStart k) := by
      rw [List.range_eq_range', List.range_eq_range', min_eq_left (by omega : layerStart k ≤ 2 * n - 1)]
      have happend := List.range'_append_1 (s := 0) (m := layerStart k)
        (n := min (layerStart (k + 1)) (2 * n - 1) - layerStart k)
      rw [Nat.zero_add] at happend
      rw [happend, Nat.add_sub_cancel' (by omega)]
    rw [List.range_succ, List.reverse_append, List.reverse_singleton, List.singleton_append,
      List.flatMap_cons, hrange]
    exact List.perm_append_comm.trans ((ih (by omega)).append_right _)

/-- **Every node is filled in once.** -/
theorem perm_fillOrder {n : ℕ} (hn : 1 ≤ n) : (fillOrder n).Perm (List.range (2 * n - 1)) := by
  have hbot := layerStart_bottomLayer hn
  have hperm := perm_range_layers hn _ le_rfl
  rw [min_eq_right (by rw [layerStart_succ]; omega)] at hperm
  exact hperm

variable {H : Type} [Hash H]

/-- The layers of `from_leaves` are one run along the order. -/
lemma foldlM_fillLayer (n : ℕ) (w : List (Option H) × List H) :
    (List.range (bottomLayer n + 1)).reverse.foldlM (fillLayer n (2 * n - 1)) w =
      (fillOrder n).foldlM (fillNode n) w := by
  unfold fillOrder
  generalize (List.range (bottomLayer n + 1)).reverse = layers
  induction layers generalizing w with
  | nil => rfl
  | cons layer layers ih =>
    rw [List.foldlM_cons, List.flatMap_cons, List.foldlM_append]
    exact congrArg _ (funext ih)

variable [DecidableEq H]

/-- The tree over the chunks: how it was filled in, what its nodes are, and what it accepts. -/
structure LaidOut (chunks : List (List UInt8)) (t : MerkleTree H) : Prop where
  filled : ∃ rest, (fillOrder chunks.length).foldlM (fillNode chunks.length)
    (List.replicate (2 * chunks.length - 1) none, chunks.map digest) = .ok (t.nodes.map some, rest)
  once : (fillOrder chunks.length).Perm (List.range (2 * chunks.length - 1))
  length : t.nodes.length = 2 * chunks.length - 1
  branch (j : ℕ) : j < chunks.length - 1 → ∃ l r, t.nodes[2 * j + 1]? = some l ∧
    t.nodes[2 * j + 2]? = some r ∧ t.nodes[j]? = some (hashPair l r)
  leafCount : t.leafCount = chunks.length
  leaf (i : ℕ) : i < chunks.length → ∃ p, t.indexForLeaf i = .ok p ∧ chunks.length - 1 ≤ p ∧
    p < 2 * chunks.length - 1 ∧ t.nodes[p]? = chunks[i]?.map digest
  position (p : ℕ) : chunks.length - 1 ≤ p → p < 2 * chunks.length - 1 →
    ∃! i, i < chunks.length ∧ t.indexForLeaf i = .ok p
  accepts (i : ℕ) (chunk : List UInt8) : chunks[i]? = some chunk →
    t.validateChunk i chunk = .ok true
  rejects (i : ℕ) (chunk c : List UInt8) : chunks[i]? = some chunk → NoCollision H chunk →
    t.validateChunk i c = .ok true → c = chunk

omit [Hash H] [DecidableEq H] in
lemma map_some_of_mapM {nodes : List (Option H)} {nodes' : List H}
    (h : nodes.mapM id = some nodes') : nodes = nodes'.map some := by
  refine List.ext_getElem? fun i => ?_
  have hget := getElem?_of_mapM h i
  cases hi : nodes[i]? with
  | none => simp [hget, hi]
  | some o =>
    have hlt := (List.getElem?_eq_some_iff.mp hi).1
    rw [← length_of_mapM h] at hlt
    have ho : some nodes'[i] = o := by rwa [List.getElem?_eq_getElem hlt, hi] at hget
    rw [← ho, List.getElem?_map, List.getElem?_eq_getElem hlt]
    rfl

lemma Built.validateChunk {chunks : List (List UInt8)} {t : MerkleTree H}
    (hb : Built (chunks.map digest) t) {i : ℕ} {chunk : List UInt8} (hi : chunks[i]? = some chunk)
    (c : List UInt8) :
    t.validateChunk i c = .ok (decide (digest (H := H) chunk = digest c)) := by
  have hlt : i < (chunks.map (digest (H := H))).length := by
    simpa using (List.getElem?_eq_some_iff.mp hi).1
  obtain ⟨h, hh, hv⟩ := validateChunk_eq hb.length hlt c
  rw [hb.leaf i hlt, List.getElem?_map, hi] at hh
  cases hh
  exact hv

/-- **The layout is consistent**: `from_chunks` returns a tree whose nodes are filled in once, with
the hashes of their children or of the chunks, and which accepts the chunks and nothing else. -/
theorem fromChunks_laidOut (chunks : List (List UInt8)) (hn : chunks ≠ []) :
    ∃ t : MerkleTree H, fromChunks chunks = .ok t ∧ LaidOut chunks t := by
  obtain ⟨t, ht, hb⟩ := fromChunks_built (H := H) hn
  have hmap : (chunks.map (digest (H := H))).length = chunks.length := List.length_map _
  have hpos : 1 ≤ chunks.length := List.length_pos_iff.mpr hn
  have hlen : t.nodes.length = 2 * chunks.length - 1 := hmap ▸ hb.length
  refine ⟨t, ht, ?_, perm_fillOrder hpos, hlen, fun j hj => hb.branch j (hmap.symm ▸ hj), ?_,
    fun i hi => ?_, fun p hp hp' => ?_, fun i chunk hi => ?_, fun i chunk c hi hc hv => ?_⟩
  · unfold fromChunks fromLeaves at ht
    have hne : chunks.map (digest (H := H)) ≠ [] := by simpa using hn
    simp only [List.isEmpty_iff, hne, if_false, hmap, nodeCountForLeafCount,
      if_neg (show chunks.length ≠ 0 by omega), ok_bind, foldlM_fillLayer] at ht
    obtain ⟨w, hw, ht⟩ := bind_eq_ok.mp ht
    obtain ⟨nodes, hnodes, ht⟩ := bind_eq_ok.mp ht
    cases ht
    exact ⟨w.2, by rw [hw, ← map_some_of_mapM (orFault_eq_ok.mp hnodes)]⟩
  · unfold MerkleTree.leafCount
    omega
  · obtain ⟨hle, hlt⟩ := leafPosition_bounds hi
    have hleaf := hb.leaf i (hmap.symm ▸ hi)
    rw [hmap, List.getElem?_map] at hleaf
    exact ⟨_, indexForLeaf_eq hlen hi, hle, hlt, hleaf⟩
  · refine ⟨leafNumber chunks.length p, ⟨leafNumber_lt hp hp', ?_⟩, ?_⟩
    · rw [indexForLeaf_eq hlen (leafNumber_lt hp hp'), leafPosition_leafNumber hp hp']
    · rintro i ⟨hi, hindex⟩
      rw [indexForLeaf_eq hlen hi] at hindex
      rw [← Except.ok.inj hindex, leafNumber_leafPosition hi]
  · rw [hb.validateChunk hi, decide_eq_true rfl]
  · rw [hb.validateChunk hi] at hv
    exact hc c (of_decide_eq_true (Except.ok.inj hv)).symm

/-! Three chunks: the leaves wrap to the layer above the bottom one. -/

section Three

local instance threeHash : Hash UInt8 := tableHash [[1], [2], [3]]

theorem fromChunks_laidOut_three : ∃ t : MerkleTree UInt8,
    fromChunks [[1], [2], [3]] = .ok t ∧ LaidOut [[1], [2], [3]] t :=
  fromChunks_laidOut [[1], [2], [3]] (by decide)

end Three

end Ossa.Util.MerkleTree
