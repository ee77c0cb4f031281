import Mathlib.Data.List.Chain
import Mathlib.Data.List.Perm.Subperm

/-!
Ranges of indices, and sequences cut into pieces.

`compress_consecutive_into_ranges` of `util.rs`, the `Range` it produces, and the pieces of at
most `n` entries that `chunks` cuts a sequence into.
-/

namespace Ossa.Util

structure Range where
  start : ℕ
  stop : ℕ
  deriving DecidableEq

namespace Range

/-- The indices of a range, in order. -/
def toList (r : Range) : List ℕ := List.range' r.start (r.stop - r.start)

lemma mem_toList {r : Range} {i : ℕ} : i ∈ r.toList ↔ r.start ≤ i ∧ i < r.stop := by
  rw [toList, List.mem_range'_1]
  omega

end Range

/-- `into_iter().flatten()` of a vector of ranges. -/
def flattenRanges (ranges : List Range) : List ℕ := ranges.flatMap Range.toList

/-- The iterator of `CompressConsecutive`, from the range it is about to produce. -/
def compressFrom : Option Range → List ℕ → List Range
  | none, [] => []
  | some r, [] => [r]
  | none, x :: xs => compressFrom (some ⟨x, x + 1⟩) xs
  | some r, x :: xs =>
    -- Consecutive.
    if r.stop = x then compressFrom (some ⟨r.start, x + 1⟩) xs
    else r :: compressFrom (some ⟨x, x + 1⟩) xs

/-- Assumes inputs are sorted. -/
def compressConsecutiveIntoRanges (xs : List ℕ) : List Range := compressFrom none xs

lemma toList_extend {r : Range} (h : r.start ≤ r.stop) :
    Range.toList ⟨r.start, r.stop + 1⟩ = r.toList ++ [r.stop] := by
  have hlen : r.stop + 1 - r.start = (r.stop - r.start) + 1 := by omega
  have hlast : r.start + (r.stop - r.start) = r.stop := by omega
  simp only [Range.toList, hlen, List.range'_1_concat, hlast]

lemma flatten_compressFrom_some (xs : List ℕ) (r : Range) (h : r.start ≤ r.stop) :
    flattenRanges (compressFrom (some r) xs) = r.toList ++ xs := by
  induction xs generalizing r with
  | nil => simp [compressFrom, flattenRanges]
  | cons x xs ih =>
    rw [compressFrom]
    split_ifs with hx
    · subst hx
      rw [ih _ (by simp only; omega), toList_extend h, List.append_assoc, List.singleton_append]
    · have hrest := ih ⟨x, x + 1⟩ (Nat.le_succ x)
      rw [flattenRanges, List.flatMap_cons, ← flattenRanges, hrest]
      simp [Range.toList]

/-- **Compression loses nothing**: the ranges flatten back to the input. -/
theorem flatten_compress (xs : List ℕ) : flattenRanges (compressConsecutiveIntoRanges xs) = xs := by
  cases xs with
  | nil => rfl
  | cons x xs =>
    have h := flatten_compressFrom_some xs ⟨x, x + 1⟩ (Nat.le_succ x)
    rw [compressConsecutiveIntoRanges, compressFrom, h]
    simp [Range.toList]

lemma mem_flattenRanges {ranges : List Range} {i : ℕ} :
    i ∈ flattenRanges ranges ↔ ∃ r ∈ ranges, i ∈ r.toList := by
  rw [flattenRanges, List.mem_flatMap]

/-! ### The iterator -/

structure CompressConsecutive where
  current : Option Range
  inner : List ℕ

/-- The next range from a pending range and what is left of the input, and the iterator
afterwards. -/
def nextFrom : Option Range → List ℕ → Option Range × CompressConsecutive
  -- We're done, so return what we have.
  | current, [] => (current, ⟨none, []⟩)
  | none, x :: xs => nextFrom (some ⟨x, x + 1⟩) xs
  | some r, x :: xs =>
    -- Consecutive.
    if r.stop = x then nextFrom (some ⟨r.start, x + 1⟩) xs
    else (some r, ⟨some ⟨x, x + 1⟩, xs⟩)

def CompressConsecutive.next (self : CompressConsecutive) : Option Range × CompressConsecutive :=
  nextFrom self.current self.inner

/-- The iterator produces these ranges, and is done. -/
inductive Collects : CompressConsecutive → List Range → Prop
  | done {it it'} : it.next = (none, it') → Collects it []
  | item {it it' r ranges} : it.next = (some r, it') → Collects it' ranges →
    Collects it (r :: ranges)

lemma Collects.of_next {it it' : CompressConsecutive} {ranges : List Range}
    (h : it'.next = it.next) (hc : Collects it ranges) : Collects it' ranges := by
  cases hc with
  | done hd => exact .done (h.trans hd)
  | item hi hc => exact .item (h.trans hi) hc

lemma collects_compressFrom (current : Option Range) (xs : List ℕ) :
    Collects ⟨current, xs⟩ (compressFrom current xs) := by
  induction xs generalizing current with
  | nil =>
    cases current with
    | none => exact .done rfl
    | some r => exact .item rfl (.done rfl)
  | cons x xs ih =>
    cases current with
    | none =>
      rw [compressFrom]
      refine (ih (some ⟨x, x + 1⟩)).of_next ?_
      rw [CompressConsecutive.next, nextFrom, CompressConsecutive.next]
    | some r =>
      rw [compressFrom]
      split_ifs with hx
      · refine (ih (some ⟨r.start, x + 1⟩)).of_next ?_
        rw [CompressConsecutive.next, nextFrom, if_pos hx]
        rfl
      · refine .item ?_ (ih (some ⟨x, x + 1⟩))
        rw [CompressConsecutive.next, nextFrom, if_neg hx]

lemma next_of_next_eq_none {it it' : CompressConsecutive} (h : it.next = (none, it')) :
    it'.next = (none, it') := by
  obtain ⟨current, inner⟩ := it
  rw [CompressConsecutive.next] at h
  induction inner generalizing current with
  | nil => cases h; rfl
  | cons x inner ih =>
    cases current with
    | none => exact ih (some ⟨x, x + 1⟩) h
    | some r =>
      rw [nextFrom] at h
      split_ifs at h with hx
      · exact ih (some ⟨r.start, x + 1⟩) h
      · cases h

/-! ### What the ranges are like -/

lemma compressFrom_some (xs : List ℕ) (r : Range) :
    ∃ r' ranges, compressFrom (some r) xs = r' :: ranges ∧ r'.start = r.start := by
  induction xs generalizing r with
  | nil => exact ⟨r, [], rfl, rfl⟩
  | cons x xs ih =>
    rw [compressFrom]
    split_ifs with hx
    · exact ih ⟨r.start, x + 1⟩
    · exact ⟨r, _, rfl, rfl⟩

lemma tight_compressFrom_some (xs : List ℕ) (r : Range) (hr : r.start < r.stop) :
    (∀ r' ∈ compressFrom (some r) xs, r'.start < r'.stop) ∧
      (compressFrom (some r) xs).IsChain fun r r' => r.stop ≠ r'.start := by
  induction xs generalizing r with
  | nil => simpa [compressFrom] using hr
  | cons x xs ih =>
    rw [compressFrom]
    split_ifs with hx
    · exact ih ⟨r.start, x + 1⟩ (by simp only; omega)
    · obtain ⟨hne, hchain⟩ := ih ⟨x, x + 1⟩ (Nat.lt_succ_self x)
      obtain ⟨r', ranges, heq, hstart⟩ := compressFrom_some xs ⟨x, x + 1⟩
      rw [heq] at hne hchain ⊢
      refine ⟨fun r'' hr'' => ?_, List.isChain_cons_cons.mpr ⟨?_, hchain⟩⟩
      · rcases List.mem_cons.mp hr'' with rfl | hmem
        · exact hr
        · exact hne r'' hmem
      · rw [hstart]
        exact hx

lemma increasing_compressFrom_some (xs : List ℕ) (r : Range) (hr : r.start < r.stop)
    (hle : ∀ x ∈ xs, r.stop ≤ x) (hxs : xs.Pairwise (· < ·)) :
    (∀ r' ∈ compressFrom (some r) xs, r.start ≤ r'.start) ∧
      (compressFrom (some r) xs).Pairwise fun r r' => r.stop < r'.start := by
  induction xs generalizing r with
  | nil => simp [compressFrom]
  | cons x xs ih =>
    obtain ⟨hx, hxs⟩ := List.pairwise_cons.mp hxs
    have hrx := hle x List.mem_cons_self
    rw [compressFrom]
    split_ifs with heq
    · exact ih ⟨r.start, x + 1⟩ (by simp only; omega) (fun y hy => hx y hy) hxs
    · obtain ⟨hstart, hpair⟩ := ih ⟨x, x + 1⟩ (Nat.lt_succ_self x) (fun y hy => hx y hy) hxs
      refine ⟨fun r' hr' => ?_, List.pairwise_cons.mpr ⟨fun r' hr' => ?_, hpair⟩⟩
      · rcases List.mem_cons.mp hr' with rfl | hmem
        · exact le_refl _
        · have := hstart r' hmem
          simp only at this
          omega
      · have := hstart r' hr'
        simp only at this
        omega

variable {xs : List ℕ}

lemma tight_compress (xs : List ℕ) :
    (∀ r ∈ compressConsecutiveIntoRanges xs, r.start < r.stop) ∧
      (compressConsecutiveIntoRanges xs).IsChain fun r r' => r.stop ≠ r'.start := by
  cases xs with
  | nil => exact ⟨fun r hr => absurd hr List.not_mem_nil, .nil⟩
  | cons x xs => exact tight_compressFrom_some xs ⟨x, x + 1⟩ (Nat.lt_succ_self x)

lemma increasing_compress (hxs : xs.Pairwise (· < ·)) :
    (compressConsecutiveIntoRanges xs).Pairwise fun r r' => r.stop < r'.start := by
  cases xs with
  | nil => exact .nil
  | cons x xs =>
    obtain ⟨hx, hxs⟩ := List.pairwise_cons.mp hxs
    exact (increasing_compressFrom_some xs ⟨x, x + 1⟩ (Nat.lt_succ_self x)
      (fun y hy => hx y hy) hxs).2

lemma pred_stop_mem_of_compress {r : Range} (hr : r ∈ compressConsecutiveIntoRanges xs) :
    r.stop - 1 ∈ xs := by
  have hne := (tight_compress xs).1 r hr
  have hmem : r.stop - 1 ∈ flattenRanges (compressConsecutiveIntoRanges xs) :=
    mem_flattenRanges.mpr ⟨r, hr, Range.mem_toList.mpr (by omega)⟩
  rwa [flatten_compress] at hmem

lemma apart_of_pairwise {α : Type} {R : α → α → Prop} {l : List α} (h : l.Pairwise R) {a b : α}
    (ha : a ∈ l) (hb : b ∈ l) (hab : a ≠ b) : R a b ∨ R b a := by
  have hsymm : Std.Symm fun a b => R a b ∨ R b a := ⟨fun _ _ h => h.symm⟩
  have heither : l.Pairwise fun a b => R a b ∨ R b a := h.imp Or.inl
  exact heither.forall ha hb hab

lemma start_of_compress (hxs : xs.Pairwise (· < ·)) {r : Range}
    (hr : r ∈ compressConsecutiveIntoRanges xs) :
    r.start ∈ xs ∧ ∀ i ∈ xs, i + 1 ≠ r.start := by
  have hne := (tight_compress xs).1 r hr
  have hmem : ∀ i, i ∈ xs ↔ ∃ r ∈ compressConsecutiveIntoRanges xs, i ∈ r.toList := fun i => by
    rw [← mem_flattenRanges, flatten_compress]
  refine ⟨(hmem _).mpr ⟨r, hr, Range.mem_toList.mpr (by omega)⟩, fun i hi heq => ?_⟩
  obtain ⟨r', hr', hir'⟩ := (hmem i).mp hi
  rw [Range.mem_toList] at hir'
  by_cases hrr : r' = r
  · subst hrr
    omega
  · rcases apart_of_pairwise (increasing_compress hxs) hr' hr hrr with hlt | hlt
    · omega
    · omega

/-- **Compression uses as few ranges as possible**: no ranges with the same indices are fewer. -/
lemma length_compress_le (hxs : xs.Pairwise (· < ·)) {ranges : List Range}
    (hcover : ∀ i, (∃ r ∈ ranges, i ∈ r.toList) ↔ i ∈ xs) :
    (compressConsecutiveIntoRanges xs).length ≤ ranges.length := by
  have hnodup : ((compressConsecutiveIntoRanges xs).map Range.start).Nodup := by
    rw [List.Nodup, List.pairwise_map]
    refine (increasing_compress hxs).imp_of_mem fun {r r'} hr _ hlt => ?_
    have := (tight_compress xs).1 r hr
    omega
  have hsub : (compressConsecutiveIntoRanges xs).map Range.start ⊆ ranges.map Range.start := by
    intro a ha
    obtain ⟨r, hr, rfl⟩ := List.mem_map.mp ha
    obtain ⟨hstart, hfirst⟩ := start_of_compress hxs hr
    -- the range with this index starts there as well
    obtain ⟨r', hr', hmem⟩ := (hcover r.start).mpr hstart
    refine List.mem_map.mpr ⟨r', hr', ?_⟩
    rw [Range.mem_toList] at hmem
    by_contra hne
    have hbefore := (hcover (r.start - 1)).mp ⟨r', hr', Range.mem_toList.mpr (by omega)⟩
    exact hfirst _ hbefore (by omega)
  simpa using (List.subperm_of_subset hnodup hsub).length_le

/-- What compression makes of the indices `xs`. -/
structure Compresses (xs : List ℕ) (ranges : List Range) : Prop where
  /-- The iterator produces the ranges, and is done. -/
  collected : Collects ⟨none, xs⟩ ranges
  lossless : flattenRanges ranges = xs
  nonempty : ∀ r ∈ ranges, r.start < r.stop
  apart : ranges.IsChain fun r r' => r.stop ≠ r'.start
  /-- Indices below the maximum have ends of ranges that are no greater. -/
  fits : ∀ max, (∀ x ∈ xs, x < max) → ∀ r ∈ ranges, r.stop ≤ max
  increasing : xs.Pairwise (· < ·) → ranges.Pairwise fun r r' => r.stop < r'.start
  fewest : xs.Pairwise (· < ·) → ∀ ranges' : List Range,
    (∀ i, (∃ r ∈ ranges', i ∈ r.toList) ↔ i ∈ xs) → ranges.length ≤ ranges'.length

/-- **Compression is lossless and minimal.** -/
theorem compresses (xs : List ℕ) : Compresses xs (compressConsecutiveIntoRanges xs) where
  collected := collects_compressFrom none xs
  lossless := flatten_compress xs
  nonempty := (tight_compress xs).1
  apart := (tight_compress xs).2
  fits max hmax r hr := by
    have := hmax _ (pred_stop_mem_of_compress hr)
    omega
  increasing := increasing_compress
  fewest hxs _ := length_compress_le hxs

/-! ### Pieces of a sequence -/

variable {α : Type} {n : ℕ} {l : List α}

/-- The `i`-th piece of `n` entries. -/
def piece (n : ℕ) (l : List α) (i : ℕ) : List α := (l.drop (i * n)).take n

/-- The pieces of at most `n` entries that `chunks` cuts a sequence into. -/
def chunks (n : ℕ) (l : List α) : List (List α) :=
  (List.range ((l.length + n - 1) / n)).map (piece n l)

@[simp] lemma length_chunks : (chunks n l).length = (l.length + n - 1) / n := by simp [chunks]

lemma flatten_pieces (k : ℕ) : ((List.range k).map (piece n l)).flatten = l.take (k * n) := by
  induction k with
  | zero => simp
  | succ k ih =>
    rw [List.range_succ, List.map_append, List.flatten_append, ih, Nat.succ_mul, List.take_add]
    simp [piece]

lemma flatten_chunks (hn : 0 < n) : (chunks n l).flatten = l := by
  rw [chunks, flatten_pieces, List.take_of_length_le]
  have h := Nat.lt_mul_div_succ (l.length + n - 1) hn
  rw [Nat.mul_add, Nat.mul_one, Nat.mul_comm] at h
  omega

lemma chunks_ne_nil (hn : 0 < n) (hl : l ≠ []) : chunks n l ≠ [] := by
  intro h
  have hflat := flatten_chunks (l := l) hn
  rw [h, List.flatten_nil] at hflat
  exact hl hflat.symm

lemma chunks_of_length_le (hne : l ≠ []) (hl : l.length ≤ n) : chunks n l = [l] := by
  have hpos := List.length_pos_iff.mpr hne
  have hone : (l.length + n - 1) / n = 1 := Nat.div_eq_of_lt_le (by omega) (by omega)
  rw [chunks, hone]
  simp [piece, List.take_of_length_le hl]

/-- The first piece, and the pieces of the rest. -/
lemma chunks_append {a : List α} (ha : a.length = n) (hn : 0 < n) :
    chunks n (a ++ l) = a :: chunks n l := by
  have hcount : ((a ++ l).length + n - 1) / n = (l.length + n - 1) / n + 1 := by
    rw [List.length_append, ha, show n + l.length + n - 1 = l.length + n - 1 + n by omega,
      Nat.add_div_right _ hn]
  rw [chunks, hcount, List.range_succ_eq_map, List.map_cons, List.map_map, chunks]
  congr 1
  · simp [piece, ha]
  · refine List.map_congr_left fun i _ => ?_
    simp [piece, Nat.succ_mul, Nat.add_comm, ← ha]

end Ossa.Util
