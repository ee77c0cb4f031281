import Ossa.StoreDownload

/-!
What a store that has downloaded its initial state can serve.

Blocks are only checked against the merkle tree, which says nothing about their lengths. A
store that syncs keeps the blocks as one sequence of bytes and cuts it at multiples of
`BLOCK_SIZE`: it serves the blocks it accepted exactly if each of them has its full length.
-/

namespace Ossa.Store

open Ossa.Loop Ossa.Util Ossa.Util.MerkleTree Ossa.Collections Ossa.Ecg Ossa.Crdt

variable {StoreId H HeaderId Header Body T Op : Type} [LinearOrder HeaderId]

/-! ### Blocks of full length -/

section Sized

variable {size i : ℕ} {blocks : List (List UInt8)} {b : List UInt8}

/-- Each block has `BLOCK_SIZE` bytes, or what is left for it. -/
def Sized (size : ℕ) (blocks : List (List UInt8)) : Prop :=
  ∀ (i : ℕ) b, blocks[i]? = some b → b.length = min BLOCK_SIZE (size - i * BLOCK_SIZE)

lemma length_flatten_take (hs : Sized size blocks) (hi : i ≤ blocks.length) :
    (blocks.take i).flatten.length = min (i * BLOCK_SIZE) size := by
  induction i with
  | zero => simp
  | succ i ih =>
    have hlt : i < blocks.length := hi
    have hlen := hs i _ (List.getElem?_eq_getElem hlt)
    rw [List.take_succ_eq_append_getElem hlt, List.flatten_append, List.length_append,
      ih (Nat.le_of_lt hlt), List.flatten_singleton, hlen, Nat.succ_mul]
    omega

lemma flatten_take_append (blocks : List (List UInt8)) (i : ℕ) :
    (blocks.take i).flatten ++ (blocks.drop i).flatten = blocks.flatten := by
  rw [← List.flatten_append, List.take_append_drop]

lemma slice_flatten (hi : blocks[i]? = some b) :
    (blocks.flatten.take (blocks.take (i + 1)).flatten.length).drop
      (blocks.take i).flatten.length = b := by
  have hlt := (List.getElem?_eq_some_iff.mp hi).1
  rw [List.getElem?_eq_getElem hlt] at hi
  cases hi
  calc (blocks.flatten.take (blocks.take (i + 1)).flatten.length).drop
        (blocks.take i).flatten.length
      = (blocks.take (i + 1)).flatten.drop (blocks.take i).flatten.length := by
        conv_lhs => rw [← flatten_take_append blocks (i + 1), List.take_left]
    _ = blocks[i] := by
        rw [List.take_succ_eq_append_getElem hlt, List.flatten_append, List.drop_left,
          List.flatten_singleton]

lemma blockCount_bounds (m : MetadataHeader H) :
    m.initialStateSize.toNat ≤ m.blockCount * BLOCK_SIZE ∧
      ∀ i < m.blockCount, i * BLOCK_SIZE < m.initialStateSize.toNat := by
  unfold MetadataHeader.blockCount BLOCK_SIZE
  constructor
  · omega
  · intro i hi
    omega

end Sized

/-! ### Serving -/

section Serve

variable {sm : StateMachine StoreId H HeaderId Header T} {m : MetadataHeader H}
variable {tree : MerkleTree H} {initialState : List UInt8} {blocks : List (List UInt8)}
variable {ecg : UntypedState HeaderId Header} {latest : T} {i : ℕ} {b : List UInt8}

lemma flattenRanges_singleton (i : ℕ) : flattenRanges [⟨i, i + 1⟩] = [i] := by
  simp [flattenRanges, Range.toList]

lemma serve_syncing_iff : State.handleBlockPeerRequestHelper
      (.syncing m tree initialState ecg latest : StateMachine StoreId H HeaderId Header T)
      [⟨i, i + 1⟩] = .ok (some [some b]) ↔
    i * BLOCK_SIZE ≤ min ((i + 1) * BLOCK_SIZE) initialState.length ∧
      (initialState.take (min ((i + 1) * BLOCK_SIZE) initialState.length)).drop
        (i * BLOCK_SIZE) = b := by
  unfold State.handleBlockPeerRequestHelper State.sliceBlock
  rw [flattenRanges_singleton]
  simp only [List.mapM_cons, List.mapM_nil]
  split_ifs with h
  · simp [h]
  · simp only [h, false_and, iff_false]
    intro hc
    cases hc

lemma serve_downloading_iff : State.handleBlockPeerRequestHelper
      (.downloadingInitialState m tree (blocks.map some) :
        StateMachine StoreId H HeaderId Header T) [⟨i, i + 1⟩] = .ok (some [some b]) ↔
    blocks[i]? = some b := by
  unfold State.handleBlockPeerRequestHelper State.handlePeerRequestRangeHelper
  rw [flattenRanges_singleton]
  simp only [List.mapM_cons, List.mapM_nil, List.getElem?_map]
  cases blocks[i]? with
  | none =>
    simp only [Option.map_none, reduceCtorEq, iff_false]
    intro hc
    cases hc
  | some b' => simp

variable [Hash H] [DecidableEq H]

/-- The store has the size it should have, and serves each block as it would have served it
from the blocks it accepted; and the block validates. -/
def CanServe (sm : StateMachine StoreId H HeaderId Header T) (m : MetadataHeader H)
    (tree : MerkleTree H) (initialState : List UInt8) (blocks : List (List UInt8)) : Prop :=
  initialState.length = m.initialStateSize.toNat ∧ ∀ i < m.blockCount, ∃ b,
    State.handleBlockPeerRequestHelper sm [⟨i, i + 1⟩] = .ok (some [some b]) ∧
    tree.validateChunk i b = .ok true ∧
    State.handleBlockPeerRequestHelper
      (.downloadingInitialState m tree (blocks.map some) :
        StateMachine StoreId H HeaderId Header T) [⟨i, i + 1⟩] = .ok (some [some b])

/-- **A store serves what it accepted exactly if the blocks have their full length.** -/
theorem canServe_iff (hlen : blocks.length = m.blockCount)
    (hvalid : ∀ (i : ℕ) b, blocks[i]? = some b → tree.validateChunk i b = .ok true) :
    CanServe (.syncing m tree blocks.flatten ecg latest : StateMachine StoreId H HeaderId Header T)
      m tree blocks.flatten blocks ↔ Sized m.initialStateSize.toNat blocks := by
  obtain ⟨hsize, hstart⟩ := blockCount_bounds m
  unfold CanServe
  constructor
  · rintro ⟨htotal, hserve⟩ i b hb
    have hi : i < m.blockCount := by
      rw [← hlen]
      exact (List.getElem?_eq_some_iff.mp hb).1
    obtain ⟨b', hsync, -, hdown⟩ := hserve i hi
    rw [serve_downloading_iff, hb] at hdown
    cases hdown
    obtain ⟨-, hslice⟩ := serve_syncing_iff.mp hsync
    have hcount := congrArg List.length hslice
    rw [List.length_drop, List.length_take, htotal, Nat.succ_mul] at hcount
    have := hstart i hi
    omega
  · intro hs
    have htotal : blocks.flatten.length = m.initialStateSize.toNat := by
      have := length_flatten_take hs le_rfl
      rw [List.take_length, hlen] at this
      omega
    refine ⟨htotal, fun i hi => ?_⟩
    obtain ⟨b, hb⟩ : ∃ b, blocks[i]? = some b :=
      ⟨_, List.getElem?_eq_getElem (by rwa [hlen])⟩
    refine ⟨b, serve_syncing_iff.mpr ?_, hvalid i b hb, serve_downloading_iff.mpr hb⟩
    have hbefore := length_flatten_take hs (i := i) (by omega)
    have hafter := length_flatten_take hs (i := i + 1) (by omega)
    have := hstart i hi
    rw [htotal, ← hafter]
    constructor
    · rw [hafter, Nat.succ_mul]
      omega
    · have hslice := slice_flatten hb
      rwa [hbefore, Nat.min_eq_left (Nat.le_of_lt this)] at hslice

end Serve

/-! ### After a download -/

section Download

variable [Hash H] [DecidableEq H] [DecidableEq StoreId]
variable [ECGHeader Header HeaderId] [CRDT T Op (OperationId HeaderId)]
variable {OT : OssaType StoreId H HeaderId Body T Op}
variable {cmds : List (Environment × Command H HeaderId Header Body)}

/-- A peer sent `b` as block `i`. -/
def Supplied (cmds : List (Environment × Command H HeaderId Header Body)) (i : ℕ)
    (b : List UInt8) : Prop :=
  ∃ cmd ∈ cmds, ∃ peer ranges theirBlocks,
    cmd.2 = .receivedInitialStateBlocks peer ranges theirBlocks ∧
      (i, some b) ∈ (flattenRanges ranges).zip theirBlocks

/-- A block of a download: a peer sent it, and it validated. -/
def Accepted (cmds : List (Environment × Command H HeaderId Header Body)) (tree : MerkleTree H)
    (i : ℕ) (b : List UInt8) : Prop :=
  Supplied cmds i b ∧ tree.validateChunk i b = .ok true

/-- The blocks of a store that downloads, or has downloaded, its initial state. -/
def Delivered (cmds : List (Environment × Command H HeaderId Header Body)) :
    StateMachine StoreId H HeaderId Header T → Prop
  | .downloadingInitialState m tree blocks => blocks.length = m.blockCount ∧
    ∀ (i : ℕ) b, blocks[i]? = some (some b) → Accepted cmds tree i b
  | .syncing m tree initialState _ _ => ∃ blocks : List (List UInt8),
    blocks.length = m.blockCount ∧ initialState = blocks.flatten ∧
      ∀ (i : ℕ) b, blocks[i]? = some b → Accepted cmds tree i b
  | _ => True

lemma Delivered.step {sm sm' : StateMachine StoreId H HeaderId Header T}
    {cmd : Environment × Command H HeaderId Header Body} (hcmd : cmd ∈ cmds)
    (h : Delivered cmds sm) (hstep : PhaseStep OT cmd.2 sm sm') : Delivered cmds sm' := by
  obtain ⟨env, cmd⟩ := cmd
  cases hstep with
  | metadata peer m hv ht => trivial
  | merkle peer ranges nodes ht => trivial
  | complete ht =>
    refine ⟨List.length_replicate, fun i b hb => ?_⟩
    rw [List.getElem?_replicate] at hb
    split_ifs at hb
    cases hb
  | blocks peer ranges theirBlocks hb =>
    obtain ⟨hlen, hblocks⟩ := h
    have hafter := afterBlocks_foldlM hb
    refine ⟨hafter.length.trans hlen, fun i b hget => ?_⟩
    rcases hafter.added i b hget with hold | ⟨hmem, hv⟩
    · exact hblocks i b hold
    · exact ⟨⟨_, hcmd, peer, ranges, theirBlocks, rfl, hmem⟩, hv⟩
  | syncing hn hl =>
    obtain ⟨hlen, hblocks⟩ := h
    rename_i blocks _
    have hmap := eq_map_some hn
    refine ⟨blocks.filterMap id, ?_, rfl, fun i b hb => hblocks i b ?_⟩
    · rw [← hlen]
      conv_rhs => rw [hmap, List.length_map]
    · rw [hmap, List.getElem?_map, hb, Option.map_some]
  | operations peer operations hf => exact h
  | apply header body hi ha => exact h

/-- **A store that has downloaded its state serves it exactly if all blocks have their full
length**: whatever the peers sent, and whoever created the store. -/
theorem synced_serves_iff {storeId : StoreId} {h : Handler StoreId H HeaderId Header T}
    {m : MetadataHeader H} {tree : MerkleTree H} {initialState : List UInt8}
    {ecg : UntypedState HeaderId Header} {latest : T}
    (hrun : Handler.run OT ⟨.newDownloading storeId, []⟩ cmds = .ok h)
    (hs : h.store.stateMachine = .syncing m tree initialState ecg latest) :
    ∃ blocks : List (List UInt8), blocks.length = m.blockCount ∧
      initialState = blocks.flatten ∧ (∀ (i : ℕ) b, blocks[i]? = some b → Accepted cmds tree i b) ∧
      (CanServe h.store.stateMachine m tree initialState blocks ↔
        Sized m.initialStateSize.toNat blocks) := by
  have hdelivered : Delivered cmds h.store.stateMachine :=
    run_phase_invariant hrun trivial fun cmd hcmd sm sm' hI hstep => hI.step hcmd hstep
  rw [hs] at hdelivered ⊢
  obtain ⟨blocks, hlen, rfl, hblocks⟩ := hdelivered
  exact ⟨blocks, hlen, rfl, hblocks, canServe_iff hlen fun i b hb => (hblocks i b hb).2⟩

end Download

section Counter

open V0

local instance : Hash UInt8 := tableHash counterTable

/-- Peer 1 sends the metadata, then a wrong and a right block. -/
def counterCommands : List (Environment × Command UInt8 ℕ TestHeader (List ℕ)) :=
  [.registerPeers [1], .registerOutgoingPeerSyncing 1, .receivedMetadata 1 counterMetadata,
    .receivedInitialStateBlocks 1 [⟨0, 1⟩] [some [8]],
    .receivedInitialStateBlocks 1 [⟨0, 1⟩] [some [7]]].map fun cmd => (calm, cmd)

lemma counter_isOk : (counterDownload.run counterType counterCommands).isOk = true := by
  decide +kernel

lemma counter_synced : (value _ counter_isOk).store.stateMachine.synced =
    some (counterMetadata, ⟨[0]⟩, [7]) := by
  decide +kernel

theorem synced_serves_iff_counter : ∃ (h : Handler UInt8 UInt8 ℕ TestHeader Counter)
    (blocks : List (List UInt8)), counterDownload.run counterType counterCommands = .ok h ∧
      blocks.length = counterMetadata.blockCount ∧ [7] = blocks.flatten ∧
      (∀ (i : ℕ) b, blocks[i]? = some b → Accepted counterCommands ⟨[0]⟩ i b) ∧
      (CanServe h.store.stateMachine counterMetadata ⟨[0]⟩ [7] blocks ↔
        Sized counterMetadata.initialStateSize.toNat blocks) := by
  have hrun := eq_ok_value counter_isOk
  obtain ⟨ecg, latest, hs⟩ := exists_of_synced counter_synced
  obtain ⟨blocks, hblocks⟩ := synced_serves_iff hrun hs
  exact ⟨_, blocks, hrun, hblocks⟩

end Counter

/-! A store whose metadata announces two bytes, and whose block has one. -/

section Short

open V0

def shortMetadata : MetadataHeader UInt8 := ⟨zeros, .v0, zeros, 2, 0⟩

local instance : Hash UInt8 :=
  tableHash [[7], List.replicate 65 0 ++ [0, 0, 0, 0, 0, 0, 0, 2, 0]]

def shortDownload : Handler UInt8 UInt8 ℕ TestHeader Counter :=
  ⟨.newDownloading (shortMetadata.storeId counterType.into), []⟩

def shortCommands : List (Environment × Command UInt8 ℕ TestHeader (List ℕ)) :=
  [.registerPeers [1], .registerOutgoingPeerSyncing 1, .receivedMetadata 1 shortMetadata,
    .receivedInitialStateBlocks 1 [⟨0, 1⟩] [some [7]]].map fun cmd => (calm, cmd)

lemma short_isOk : (shortDownload.run counterType shortCommands).isOk = true := by
  decide +kernel

lemma short_synced : (value _ short_isOk).store.stateMachine.synced =
    some (shortMetadata, ⟨[0]⟩, [7]) := by
  decide +kernel

/-- **A short block is accepted**, and the store has not the size its metadata says. -/
theorem short_block_not_served :
    ¬ ∀ (storeId : UInt8) (cmds : List (Environment × Command UInt8 ℕ TestHeader (List ℕ)))
      (h : Handler UInt8 UInt8 ℕ TestHeader Counter) (m : MetadataHeader UInt8)
      (tree : MerkleTree UInt8) (initialState : List UInt8) (ecg : UntypedState ℕ TestHeader)
      (latest : Counter),
      Handler.run counterType ⟨.newDownloading storeId, []⟩ cmds = .ok h →
      h.store.stateMachine = .syncing m tree initialState ecg latest →
      ∃ blocks, CanServe h.store.stateMachine m tree initialState blocks := by
  intro hall
  obtain ⟨ecg, latest, hs⟩ := exists_of_synced short_synced
  obtain ⟨blocks, htotal, -⟩ := hall _ _ _ _ _ _ _ _ (eq_ok_value short_isOk) hs
  exact absurd htotal (by decide)

end Short

end Ossa.Store
