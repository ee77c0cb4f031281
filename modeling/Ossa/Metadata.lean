import Ossa.MerkleLayout
import Ossa.Ranges

/-!
The metadata of a store, as `store/v0.rs` defines it: the header whose hash is the store's id,
and the serialized initial state with its merkle tree.
-/

namespace Ossa.Store

open Ossa.Loop Ossa.Util

/-- All blocks are 2^14 bytes (16KiB) (or less if last block). -/
def BLOCK_SIZE : ℕ := 2 ^ 14

/-- Limit on the number of merkle nodes a peer can request. -/
def MERKLE_REQUEST_LIMIT : ℕ := 16

/-- Limit on the number of blocks a peer can request. -/
def BLOCK_REQUEST_LIMIT : ℕ := 16

inductive Version
  | v0
  deriving DecidableEq

def Version.asByte : Version → UInt8
  | v0 => 0

def LATEST_VERSION : Version := .v0

/-- An array of bytes. -/
abbrev Bytes (n : ℕ) := { b : List UInt8 // b.length = n }

abbrev Nonce := Bytes 32

abbrev TypeId := Bytes 32

/-- A store's metadata header. -/
structure MetadataHeader (H : Type) where
  /-- A random nonce to distinguish the store. -/
  nonce : Nonce
  /-- The protocol version of this store. -/
  protocolVersion : Version
  /-- Type of state that the store holds. -/
  storeType : TypeId
  /-- Size in bytes of the initial state. -/
  initialStateSize : UInt64
  /-- Hash (merkle root) of the hashes of the initial state's blocks. -/
  merkleRoot : H
  deriving DecidableEq

/-- The serialized initial state of a store. -/
structure MetadataBody (H : Type) where
  initialState : List UInt8
  merkleTree : MerkleTree H
  deriving DecidableEq

def toBeBytes (n : UInt64) : List UInt8 :=
  [56, 48, 40, 32, 24, 16, 8, 0].map fun k => UInt8.ofNat (n.toNat / 2 ^ k)

lemma div_two_pow_eq {a b k : ℕ} (hhigh : a / 2 ^ (k + 8) = b / 2 ^ (k + 8))
    (hbyte : a / 2 ^ k % 2 ^ 8 = b / 2 ^ k % 2 ^ 8) : a / 2 ^ k = b / 2 ^ k := by
  rw [pow_add, ← Nat.div_div_eq_div_mul, ← Nat.div_div_eq_div_mul] at hhigh
  rw [← Nat.div_add_mod (a / 2 ^ k) (2 ^ 8), hhigh, hbyte, Nat.div_add_mod]

lemma toBeBytes_injective : Function.Injective toBeBytes := by
  intro a b h
  simp only [toBeBytes, List.map_cons, List.map_nil, List.cons.injEq, and_true,
    ← UInt8.toNat_inj, UInt8.toNat_ofNat'] at h
  obtain ⟨h56, h48, h40, h32, h24, h16, h8, h0⟩ := h
  have h64 : a.toNat / 2 ^ 64 = b.toNat / 2 ^ 64 := by
    rw [Nat.div_eq_of_lt a.toNat_lt, Nat.div_eq_of_lt b.toNat_lt]
  -- From the highest byte down.
  have hall := div_two_pow_eq (div_two_pow_eq (div_two_pow_eq (div_two_pow_eq (div_two_pow_eq
    (div_two_pow_eq (div_two_pow_eq (div_two_pow_eq h64 h56) h48) h40) h32) h24) h16) h8) h0
  rw [pow_zero, Nat.div_one, Nat.div_one] at hall
  exact UInt64.toNat_inj.mp hall

variable {H : Type} [Hash H]

namespace MetadataHeader

def generate (nonce : Nonce) (storeType : TypeId) (body : MetadataBody H) :
    Exec (MetadataHeader H) := do
  let root ← body.merkleTree.merkleRoot
  pure ⟨nonce, LATEST_VERSION, storeType, .ofNat body.initialState.length, root⟩

variable (m : MetadataHeader H)

/-- This function must be updated any time `MetadataHeader` is updated. -/
def storeId {StoreId : Type} (into : H → StoreId) : StoreId :=
  let h := Hash.new (H := H)
  let h := Hash.update h m.nonce.val
  let h := Hash.update h [m.protocolVersion.asByte]
  let h := Hash.update h m.storeType.val
  let h := Hash.update h (toBeBytes m.initialStateSize)
  let h := Hash.update h (asRef m.merkleRoot)
  into (Hash.finalize h)

/-- Validate the metadata with respect to the store id. -/
def validateStoreId {StoreId : Type} [DecidableEq StoreId] (into : H → StoreId)
    (storeId : StoreId) : Bool :=
  decide (storeId = m.storeId into)

omit [Hash H] in
def blockCount : ℕ := (m.initialStateSize.toNat + BLOCK_SIZE - 1) / BLOCK_SIZE

/-- The bytes that are hashed to the store's id. -/
def preimage : List UInt8 :=
  m.nonce.val ++ [m.protocolVersion.asByte] ++ m.storeType.val ++ toBeBytes m.initialStateSize ++
    asRef m.merkleRoot

lemma storeId_eq {StoreId : Type} (into : H → StoreId) :
    m.storeId into = into (digest m.preimage) := by
  simp only [storeId, preimage, Hash.update_update, digest, List.append_assoc]

/-- The fields are recovered from the hashed bytes. -/
theorem preimage_injective (hf : FixedLength H) :
    Function.Injective (preimage (H := H)) := by
  intro a b h
  obtain ⟨h, hroot⟩ := List.append_inj' h (hf.length_eq _ _)
  obtain ⟨h, hsize⟩ := List.append_inj' h rfl
  obtain ⟨h, htype⟩ := List.append_inj' h (a.storeType.2.trans b.storeType.2.symm)
  obtain ⟨hnonce, -⟩ := List.append_inj' h rfl
  have hversion : a.protocolVersion = b.protocolVersion := by
    cases a.protocolVersion; cases b.protocolVersion; rfl
  cases a
  cases b
  rw [mk.injEq]
  exact ⟨Subtype.ext hnonce, hversion, Subtype.ext htype, toBeBytes_injective hsize,
    hf.injective hroot⟩

/-- **The store id binds the metadata**, where nothing collides with it. -/
theorem eq_of_validateStoreId {StoreId : Type} [DecidableEq StoreId] {into : H → StoreId}
    {m m' : MetadataHeader H} (hf : FixedLength H) (hinto : Function.Injective into)
    (hu : NoCollision H m.preimage) (h : m'.validateStoreId into (m.storeId into) = true) :
    m' = m := by
  have heq := of_decide_eq_true h
  rw [storeId_eq, storeId_eq] at heq
  exact preimage_injective hf (hu _ (hinto heq).symm)

end MetadataHeader

namespace MetadataBody

/-- From the serialized initial state. -/
def new (initialState : List UInt8) : Exec (MetadataBody H) := do
  let merkleTree ← MerkleTree.fromChunks (chunks BLOCK_SIZE initialState)
  pure ⟨initialState, merkleTree⟩

omit [Hash H] in
def merkleRoot (body : MetadataBody H) : Exec H := body.merkleTree.merkleRoot

omit [Hash H] in
def build (body : MetadataBody H) : MerkleTree H × List UInt8 :=
  (body.merkleTree, body.initialState)

end MetadataBody

end Ossa.Store
