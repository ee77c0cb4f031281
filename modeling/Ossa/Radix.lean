import Mathlib.Data.Nat.Digits.Lemmas

/-!
Strings of digits, the most significant digit first.

The number of leading zeros and the value of a string determine the string, and there is a
string for every pair of the two. So a string can be rewritten in another base, zero for
zero at its front, and back.
-/

namespace Ossa.Radix

/-- The number of leading zeros. -/
def leading (l : List ℕ) : ℕ := (l.takeWhile (· = 0)).length

/-- The value of the digits in base `b`. -/
def read (b : ℕ) (l : List ℕ) : ℕ := Nat.ofDigits b l.reverse

/-- The digits of `n` in base `b`, after `k` zeros. -/
def write (b k n : ℕ) : List ℕ := List.replicate k 0 ++ (Nat.digits b n).reverse

/-- Rewrite a string of base `b` in base `c`. -/
def convert (b c : ℕ) (l : List ℕ) : List ℕ := write c (leading l) (read b l)

variable {b c k n m : ℕ} {l : List ℕ}

@[simp] lemma leading_zero_cons : leading (0 :: l) = leading l + 1 := by
  simp [leading]

lemma leading_cons_of_ne {d : ℕ} (hd : d ≠ 0) : leading (d :: l) = 0 := by
  simp [leading, hd]

lemma leading_le_length : leading l ≤ l.length := (List.takeWhile_sublist _).length_le

@[simp] lemma read_zero_cons : read b (0 :: l) = read b l := by
  rw [read, List.reverse_cons, Nat.ofDigits_append_zero, read]

@[simp] lemma write_succ : write b (k + 1) n = 0 :: write b k n := rfl

lemma write_zero : write b 0 n = (Nat.digits b n).reverse := rfl

lemma leading_write_zero : leading (write b 0 n) = 0 := by
  rw [write_zero]
  cases h : (Nat.digits b n).reverse with
  | nil => rfl
  | cons d l =>
    have hd : Nat.digits b n = l.reverse ++ [d] := by
      rw [← List.reverse_reverse (Nat.digits b n), h, List.reverse_cons]
    have hn : n ≠ 0 := by
      rintro rfl
      simp at hd
    refine leading_cons_of_ne fun hzero => Nat.getLast_digit_ne_zero b hn ?_
    simp only [hd, List.getLast_append_singleton, hzero]

lemma leading_write : leading (write b k n) = k := by
  induction k with
  | zero => exact leading_write_zero
  | succ k ih => rw [write_succ, leading_zero_cons, ih]

lemma read_write : read b (write b k n) = n := by
  induction k with
  | zero => rw [write_zero, read, List.reverse_reverse, Nat.ofDigits_digits]
  | succ k ih => rw [write_succ, read_zero_cons, ih]

/-- **A string is its leading zeros and its value.** -/
theorem write_read (hb : 1 < b) (hl : ∀ d ∈ l, d < b) :
    write b (leading l) (read b l) = l := by
  induction l with
  | nil => simp [leading, read, write]
  | cons d l ih =>
    by_cases hd : d = 0
    · subst hd
      rw [leading_zero_cons, read_zero_cons, write_succ,
        ih fun d' hd' => hl d' (List.mem_cons_of_mem _ hd')]
    · rw [leading_cons_of_ne hd, write_zero, read, Nat.digits_ofDigits b hb _ _ _,
        List.reverse_reverse]
      · exact fun d' hd' => hl d' (List.mem_reverse.mp hd')
      · simpa using hd

lemma lt_of_mem_write (hb : 1 < b) {d : ℕ} (hd : d ∈ write b k n) : d < b := by
  rcases List.mem_append.mp hd with hd | hd
  · rw [List.eq_of_mem_replicate hd]
    omega
  · exact Nat.digits_lt_base hb (List.mem_reverse.mp hd)

lemma lt_of_mem_convert (hc : 1 < c) {d : ℕ} (hd : d ∈ convert b c l) : d < c :=
  lt_of_mem_write hc hd

/-- **Rewriting a string and rewriting it back** gives the string. -/
theorem convert_convert (hb : 1 < b) (hl : ∀ d ∈ l, d < b) :
    convert c b (convert b c l) = l := by
  rw [convert, convert, leading_write, read_write, write_read hb hl]

lemma read_lt (hb : 1 < b) (hl : ∀ d ∈ l, d < b) : read b l < b ^ (l.length - leading l) := by
  induction l with
  | nil => simp [read, leading]
  | cons d l ih =>
    by_cases hd : d = 0
    · subst hd
      rw [read_zero_cons, leading_zero_cons, List.length_cons, Nat.add_sub_add_right]
      exact ih fun d' hd' => hl d' (List.mem_cons_of_mem _ hd')
    · have h : read b (d :: l) < b ^ (d :: l).reverse.length :=
        Nat.ofDigits_lt_base_pow_length hb fun d' hd' => hl d' (List.mem_reverse.mp hd')
      rwa [List.length_reverse, ← Nat.sub_zero (d :: l).length, ← leading_cons_of_ne hd] at h

/-- The length of a rewritten string, if `m` digits of base `c` are worth `n` of base `b`,
however many of them are zeros. -/
lemma length_convert_le (hb : 1 < b) (hc : 1 < c) (hl : ∀ d ∈ l, d < b) (hn : l.length = n)
    (hnm : ∀ k ≤ n, k ≤ m ∧ b ^ (n - k) ≤ c ^ (m - k)) : (convert b c l).length ≤ m := by
  obtain ⟨hk, hpow⟩ := hnm (leading l) (hn ▸ leading_le_length)
  have hlt : read b l < c ^ (m - leading l) := (hn ▸ read_lt hb hl).trans_le hpow
  have hdigits := (Nat.digits_length_le_iff hc (read b l)).mpr hlt
  rw [convert, write, List.length_append, List.length_replicate, List.length_reverse]
  omega

end Ossa.Radix
