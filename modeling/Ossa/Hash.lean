import Mathlib.Data.List.Basic

/-!
The `Hash` trait of `util.rs`, and what is assumed of a hash where an assumption is made.
-/

namespace Ossa.Util

/-- A streaming hash. -/
class Hash (H : Type) where
  HashState : Type
  new : HashState
  update : HashState → List UInt8 → HashState
  finalize : HashState → H
  /-- The bytes of a digest. -/
  asRef : H → List UInt8
  /-- A state has absorbed the data of its updates one after the other. -/
  update_update (s : HashState) (a b : List UInt8) : update (update s a) b = update s (a ++ b)

export Hash (asRef)

variable {H : Type} [Hash H]

def digest (data : List UInt8) : H := Hash.finalize (Hash.update (Hash.new (H := H)) data)

/-- The hash of a branch of a merkle tree. -/
def hashPair (left right : H) : H :=
  Hash.finalize (Hash.update (Hash.update (Hash.new (H := H)) (asRef left)) (asRef right))

lemma hashPair_eq (left right : H) : hashPair left right = digest (asRef left ++ asRef right) := by
  rw [hashPair, Hash.update_update, digest]

/-- No other data has the digest of `data`. -/
def NoCollision (H : Type) [Hash H] (data : List UInt8) : Prop :=
  ∀ data', digest (H := H) data' = digest data → data' = data

/-- Digests have a fixed length, and are their bytes. -/
structure FixedLength (H : Type) [Hash H] : Prop where
  length_eq (a b : H) : (asRef a).length = (asRef b).length
  injective : Function.Injective (asRef (H := H))

lemma FixedLength.pair_injective (hf : FixedLength H) {a b c d : H}
    (h : asRef a ++ asRef b = asRef c ++ asRef d) : a = c ∧ b = d := by
  obtain ⟨hac, hbd⟩ := List.append_inj h (hf.length_eq a c)
  exact ⟨hf.injective hac, hf.injective hbd⟩

lemma FixedLength.hashPair_inj (hf : FixedLength H) {a b c d : H}
    (hc : NoCollision H (asRef c ++ asRef d)) (h : hashPair a b = hashPair c d) :
    a = c ∧ b = d := by
  rw [hashPair_eq, hashPair_eq] at h
  exact hf.pair_injective (hc _ h)

/-! A small hash to evaluate the model with: data is hashed to its position in a table, and
everything else to the position after the table. -/

@[reducible] def tableHash (table : List (List UInt8)) : Hash UInt8 where
  HashState := List UInt8
  new := []
  update s data := s ++ data
  finalize s := UInt8.ofNat (table.idxOf s)
  asRef h := [h]
  update_update s a b := List.append_assoc s a b

lemma fixedLength_tableHash (table : List (List UInt8)) :
    @FixedLength UInt8 (tableHash table) :=
  let _ := tableHash table
  ⟨fun _ _ => rfl, fun _ _ h => List.singleton_injective h⟩

lemma noCollision_tableHash {table : List (List UInt8)} (hlen : table.length < 256)
    {data : List UInt8} (hd : data ∈ table) : @NoCollision UInt8 (tableHash table) data := by
  let _ := tableHash table
  intro data' h
  have hlt := List.idxOf_lt_length_of_mem hd
  have hle := List.idxOf_le_length (a := data') (l := table)
  have heq : table.idxOf data' = table.idxOf data := by
    have h' : UInt8.ofNat (table.idxOf data') = UInt8.ofNat (table.idxOf data) := h
    have hnat := congrArg UInt8.toNat h'
    simp only [UInt8.toNat_ofNat'] at hnat
    omega
  exact (List.idxOf_inj hd).mp heq.symm |>.symm

end Ossa.Util
