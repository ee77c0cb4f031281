import Mathlib.Data.List.Basic

/-!
Codes that can be read off the front of a text.

A code is prefix-free on a set of values if what follows a code word never matters: a text
begins with the word of one value only, and then its rest is determined as well. Such codes can
be written one after the other.
-/

namespace Ossa.Codes

variable {α β σ : Type}

/-- No two values of `P` are read off the same text. -/
def PrefixFree (P : α → Prop) (enc : α → List σ) : Prop :=
  ∀ ⦃a b⦄, P a → P b → ∀ ⦃xs ys⦄, enc a ++ xs = enc b ++ ys → a = b ∧ xs = ys

variable {P : α → Prop} {Q : β → Prop} {enc : α → List σ} {enc' : β → List σ}

lemma PrefixFree.injOn (h : PrefixFree P enc) {a b : α} (ha : P a) (hb : P b)
    (heq : enc a = enc b) : a = b := by
  have happ : enc a ++ [] = enc b ++ [] := by rw [heq]
  exact (h ha hb happ).1

lemma prefixFree_of_length {n : ℕ} (hlen : ∀ a, P a → (enc a).length = n)
    (hinj : ∀ a b, P a → P b → enc a = enc b → a = b) : PrefixFree P enc := by
  intro a b ha hb xs ys heq
  obtain ⟨henc, hrest⟩ := List.append_inj heq ((hlen a ha).trans (hlen b hb).symm)
  exact ⟨hinj a b ha hb henc, hrest⟩

lemma PrefixFree.prod (h : PrefixFree P enc) (h' : PrefixFree Q enc') :
    PrefixFree (fun x : α × β => P x.1 ∧ Q x.2) fun x => enc x.1 ++ enc' x.2 := by
  rintro ⟨a, c⟩ ⟨b, d⟩ ⟨ha, hc⟩ ⟨hb, hd⟩ xs ys heq
  simp only [List.append_assoc] at heq ha hb hc hd
  obtain ⟨rfl, hsnd⟩ := h ha hb heq
  obtain ⟨rfl, hrest⟩ := h' hc hd hsnd
  exact ⟨rfl, hrest⟩

lemma PrefixFree.flatMap (h : PrefixFree P enc) (n : ℕ) :
    PrefixFree (fun l : List α => l.length = n ∧ ∀ a ∈ l, P a) fun l => l.flatMap enc := by
  rintro l l' ⟨hlen, hl⟩ ⟨hlen', hl'⟩ xs ys heq
  subst hlen
  induction l generalizing l' with
  | nil =>
    obtain rfl := List.length_eq_zero_iff.mp hlen'
    exact ⟨rfl, heq⟩
  | cons a l ih =>
    cases l' with
    | nil => cases hlen'
    | cons b l' =>
      simp only [List.flatMap_cons, List.append_assoc] at heq
      obtain ⟨rfl, htail⟩ := h (hl a List.mem_cons_self) (hl' b List.mem_cons_self) heq
      obtain ⟨rfl, hrest⟩ := ih (fun x hx => hl x (List.mem_cons_of_mem _ hx))
        (fun x hx => hl' x (List.mem_cons_of_mem _ hx)) htail (Nat.succ.inj hlen')
      exact ⟨rfl, hrest⟩

lemma PrefixFree.framed {n : α → σ} {len : α → ℕ} (hlen : ∀ a, P a → (enc a).length = len a)
    (hn : ∀ a b, P a → P b → n a = n b → len a = len b)
    (hinj : ∀ a b, P a → P b → enc a = enc b → a = b) :
    PrefixFree P fun a => n a :: enc a := by
  intro a b ha hb xs ys heq
  obtain ⟨hhead, htail⟩ := List.cons.inj heq
  have hsame := (hlen a ha).trans ((hn a b ha hb hhead).trans (hlen b hb).symm)
  obtain ⟨henc, hrest⟩ := List.append_inj htail hsame
  exact ⟨hinj a b ha hb henc, hrest⟩

end Ossa.Codes
