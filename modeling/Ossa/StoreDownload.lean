import Ossa.StoreChange

/-!
A download ends in what the creator of the store made, whatever the peers send.

The store id binds the metadata, the merkle root in the metadata binds the tree, the leaves of
the tree bind the blocks, and the blocks in their order are the initial state.
-/

namespace Ossa.Store

open Ossa.Loop Ossa.Util Ossa.Util.MerkleTree Ossa.Collections Ossa.Ecg Ossa.Crdt

variable {StoreId H HeaderId Header Body T Op : Type} [LinearOrder HeaderId]
variable [Hash H] [DecidableEq H]

/-! ### Blocks -/

section Blocks

variable {t : MerkleTree H} {bs bs' : List (Option (List UInt8))} {i : ℕ} {b : List UInt8}

lemma setBlock_cases {their : Option (List UInt8)}
    (h : State.setBlock t bs (i, their) = .ok bs') : bs' = bs ∨ ∃ block, their = some block ∧
      bs[i]? = some none ∧ t.validateChunk i block = .ok true ∧ bs' = bs.set i (some block) := by
  unfold State.setBlock at h
  cases their with
  | none => cases h; exact Or.inl rfl
  | some block =>
    obtain ⟨old, hold, h⟩ := bind_eq_ok.mp h
    cases old with
    | some _ => cases h; exact Or.inl rfl
    | none =>
      obtain ⟨valid, hv, h⟩ := bind_eq_ok.mp h
      cases valid with
      | false => cases h; exact Or.inl rfl
      | true =>
        have hget := index_eq_ok.mp hold
        rw [if_pos rfl, assign_of_lt (List.getElem?_eq_some_iff.mp hget).1] at h
        cases h
        exact Or.inr ⟨block, rfl, hget, hv, rfl⟩

/-- What a batch of blocks does: blocks stay, and new ones are valid ones of the batch. -/
structure AfterBlocks (t : MerkleTree H) (l : List (ℕ × Option (List UInt8)))
    (bs bs' : List (Option (List UInt8))) : Prop where
  length : bs'.length = bs.length
  keeps (i : ℕ) (b : List UInt8) : bs[i]? = some (some b) → bs'[i]? = some (some b)
  added (i : ℕ) (b : List UInt8) : bs'[i]? = some (some b) → bs[i]? = some (some b) ∨
    (i, some b) ∈ l ∧ t.validateChunk i b = .ok true

theorem afterBlocks_foldlM {l : List (ℕ × Option (List UInt8))}
    (h : l.foldlM (State.setBlock t) bs = .ok bs') : AfterBlocks t l bs bs' := by
  refine foldlM_invariant (I := AfterBlocks t l bs) h
    ⟨rfl, fun _ _ hb => hb, fun _ _ hb => Or.inl hb⟩ fun cs cs' a ha hI hstep => ?_
  obtain ⟨k, their⟩ := a
  rcases setBlock_cases hstep with rfl | ⟨block, rfl, hk, hv, rfl⟩
  · exact hI
  have hlt := (List.getElem?_eq_some_iff.mp hk).1
  refine ⟨by rw [List.length_set, hI.length], fun i b hb => ?_, fun i b hb => ?_⟩
  · have hne : k ≠ i := by
      rintro rfl
      rw [hI.keeps _ _ hb] at hk
      cases hk
    rw [List.getElem?_set_ne hne]
    exact hI.keeps i b hb
  · by_cases hki : k = i
    · subst hki
      rw [List.getElem?_set_self hlt] at hb
      cases hb
      exact Or.inr ⟨ha, hv⟩
    · rw [List.getElem?_set_ne hki] at hb
      exact hI.added i b hb

lemma eq_map_some (h : none ∉ bs) : bs = (bs.filterMap id).map some := by
  induction bs with
  | nil => rfl
  | cons o bs ih =>
    cases o with
    | none => exact absurd List.mem_cons_self h
    | some b =>
      have htail := ih fun hmem => h (List.mem_cons_of_mem _ hmem)
      simpa using htail

end Blocks

/-! ### The last phase -/

/-- The downloaded data of a store that syncs. -/
def StateMachine.synced : StateMachine StoreId H HeaderId Header T →
    Option (MetadataHeader H × MerkleTree H × List UInt8)
  | .syncing m tree initialState _ _ => some (m, tree, initialState)
  | _ => none

omit [Hash H] [DecidableEq H] in
lemma exists_of_synced {sm : StateMachine StoreId H HeaderId Header T} {m : MetadataHeader H}
    {tree : MerkleTree H} {initialState : List UInt8}
    (h : sm.synced = some (m, tree, initialState)) :
    ∃ ecg latest, sm = .syncing m tree initialState ecg latest := by
  cases sm with
  | syncing m tree initialState ecg latest => cases h; exact ⟨ecg, latest, rfl⟩
  | downloadingMetadata _ => cases h
  | downloadingMerkle _ _ => cases h
  | downloadingInitialState _ _ _ => cases h

/-! ### The creator -/

/-- Nothing else has the digest of something the creator of a store hashed: the metadata, a
block, the children of a branch. -/
structure CreatorUnique (metadata : MetadataHeader H) (body : MetadataBody H) : Prop where
  metadata : NoCollision H metadata.preimage
  chunks : ∀ c ∈ chunks BLOCK_SIZE body.initialState, NoCollision H c
  branches : body.merkleTree.BranchesUnique

/-- The metadata and body the creator of a store made from a serialized state. -/
structure Created (bytes : List UInt8) (metadata : MetadataHeader H) (body : MetadataBody H) :
    Prop where
  initialState : body.initialState = bytes
  built : Built ((chunks BLOCK_SIZE bytes).map digest) body.merkleTree
  root : body.merkleTree.nodes[0]? = some metadata.merkleRoot
  count : metadata.blockCount = (chunks BLOCK_SIZE bytes).length
  pos : 1 ≤ metadata.blockCount

omit [DecidableEq H] in
lemma created_of_generate {bytes : List UInt8} {metadata : MetadataHeader H}
    {body : MetadataBody H} {nonce : Nonce} {storeType : TypeId} (hne : bytes ≠ [])
    (hlen : bytes.length < 2 ^ 64) (hbody : MetadataBody.new bytes = .ok body)
    (hmeta : MetadataHeader.generate nonce storeType body = .ok metadata) :
    Created bytes metadata body := by
  have hchunks : chunks BLOCK_SIZE bytes ≠ [] := chunks_ne_nil (by decide) hne
  obtain ⟨tree, htree, hbuilt⟩ := fromChunks_built (H := H) hchunks
  rw [MetadataBody.new, htree, ok_bind] at hbody
  cases hbody
  obtain ⟨root, hroot, heq⟩ := bind_eq_ok.mp hmeta
  cases heq
  have hcount : (chunks BLOCK_SIZE bytes).length = (bytes.length + BLOCK_SIZE - 1) / BLOCK_SIZE :=
    length_chunks
  have hsize : (UInt64.ofNat bytes.length).toNat = bytes.length := by
    rw [UInt64.toNat_ofNat']
    exact Nat.mod_eq_of_lt hlen
  have hblocks : MetadataHeader.blockCount (⟨nonce, LATEST_VERSION, storeType,
      .ofNat bytes.length, root⟩ : MetadataHeader H) = (chunks BLOCK_SIZE bytes).length := by
    rw [MetadataHeader.blockCount, hsize, hcount]
  exact ⟨rfl, hbuilt, index_eq_ok.mp hroot, hblocks, by
    rw [hblocks]
    exact List.length_pos_iff.mpr hchunks⟩

variable {bytes : List UInt8} {metadata : MetadataHeader H} {body : MetadataBody H}

lemma Created.block_eq (hc : Created bytes metadata body) (hu : CreatorUnique metadata body)
    {i : ℕ} (hi : i < metadata.blockCount) {b : List UInt8}
    (hv : body.merkleTree.validateChunk i b = .ok true) :
    (chunks BLOCK_SIZE bytes)[i]? = some b := by
  rw [hc.count] at hi
  have hlen := hc.built.length
  rw [List.length_map] at hlen
  obtain ⟨h, hget, heq⟩ := validateChunk_eq hlen hi b
  rw [heq, Except.ok.injEq, decide_eq_true_eq] at hv
  have hleaf := hc.built.leaf i (by rwa [List.length_map])
  rw [List.length_map, hget, List.getElem?_map, List.getElem?_eq_getElem hi] at hleaf
  have hdigest : digest b = digest (chunks BLOCK_SIZE bytes)[i] :=
    hv.symm.trans (Option.some.inj hleaf)
  have hmem : (chunks BLOCK_SIZE bytes)[i] ∈ chunks BLOCK_SIZE body.initialState := by
    rw [hc.initialState]
    exact List.getElem_mem hi
  rw [List.getElem?_eq_getElem hi, hu.chunks _ hmem b hdigest]

variable (bytes metadata body) (OT : OssaType StoreId H HeaderId Body T Op)

/-- A phase of a download that is on the way to the creator's data. -/
def Honest : StateMachine StoreId H HeaderId Header T → Prop
  | .downloadingMetadata storeId => storeId = metadata.storeId OT.into
  | .downloadingMerkle m tree => m = metadata ∧ tree.nodes.length = 2 * metadata.blockCount - 1 ∧
    Sound metadata.merkleRoot (fun _ => False) tree
  | .downloadingInitialState m tree blocks => m = metadata ∧ tree = body.merkleTree ∧
    blocks.length = metadata.blockCount ∧
    ∀ (i : ℕ) b, blocks[i]? = some (some b) → (chunks BLOCK_SIZE bytes)[i]? = some b
  | .syncing m tree initialState _ _ => m = metadata ∧ tree = body.merkleTree ∧
    initialState = bytes

variable {OT bytes metadata body} {sm sm' : StateMachine StoreId H HeaderId Header T}

omit [DecidableEq H] in
lemma Honest.storeId_eq (h : Honest bytes metadata body OT sm) :
    sm.storeId OT.into = metadata.storeId OT.into := by
  cases sm with
  | downloadingMetadata storeId => exact h
  | downloadingMerkle m tree => obtain ⟨rfl, -⟩ := h; rfl
  | downloadingInitialState m tree blocks => obtain ⟨rfl, -⟩ := h; rfl
  | syncing m tree initialState ecg latest => obtain ⟨rfl, -⟩ := h; rfl

omit [Hash H] [DecidableEq H] in
lemma flatten_blocks_eq {blocks : List (Option (List UInt8))} (hn : none ∉ blocks)
    (hlen : blocks.length = (chunks BLOCK_SIZE bytes).length)
    (hb : ∀ (i : ℕ) b, blocks[i]? = some (some b) → (chunks BLOCK_SIZE bytes)[i]? = some b) :
    (blocks.filterMap id).flatten = bytes := by
  have hblocks : blocks.filterMap id = chunks BLOCK_SIZE bytes := by
    have hmap := eq_map_some hn
    refine List.ext_getElem? fun i => ?_
    rcases lt_or_ge i (blocks.filterMap id).length with hi | hi
    · have hget : blocks[i]? = some (some (blocks.filterMap id)[i]) := by
        conv_lhs => rw [hmap]
        rw [List.getElem?_map, List.getElem?_eq_getElem hi, Option.map_some]
      rw [hb i _ hget, List.getElem?_eq_getElem hi]
    · have hlen' : (blocks.filterMap id).length = blocks.length := by
        conv_rhs => rw [hmap, List.length_map]
      rw [List.getElem?_eq_none hi, List.getElem?_eq_none (by omega)]
  rw [hblocks]
  exact flatten_chunks (by decide)

variable [DecidableEq StoreId] [ECGHeader Header HeaderId] [CRDT T Op (OperationId HeaderId)]
variable {cmd : Command H HeaderId Header Body}

/-- **No step leads away from the creator's data.** -/
theorem Honest.step (hf : FixedLength H) (hinto : Function.Injective OT.into)
    (hc : Created bytes metadata body) (hu : CreatorUnique metadata body)
    (h : Honest bytes metadata body OT sm) (hstep : PhaseStep OT cmd sm sm') :
    Honest bytes metadata body OT sm' := by
  cases hstep with
  | metadata peer m hv ht =>
    rw [h.storeId_eq] at hv
    obtain rfl := MetadataHeader.eq_of_validateStoreId hf hinto hu.metadata hv
    obtain ⟨tree', ht', hlen, hs⟩ := newWithCapacity_spec m.merkleRoot hc.pos
    rw [ht] at ht'
    cases ht'
    exact ⟨rfl, hlen, hs⟩
  | merkle peer ranges nodes ht =>
    obtain ⟨rfl, hlen, hs⟩ := h
    obtain ⟨tree', ht', hs', hk⟩ := setAll_spec hs ((flattenRanges ranges).zip nodes)
    rw [ht] at ht'
    cases ht'
    exact ⟨rfl, hk.length.trans hlen, hs'⟩
  | complete ht =>
    obtain ⟨rfl, hlen, hs⟩ := h
    refine ⟨rfl, ?_, List.length_replicate, fun i b hb => ?_⟩
    · refine hs.complete_eq_honest hc.built ?_ hc.root hf hu.branches ht
      rw [hlen, hc.count, List.length_map]
    · rw [List.getElem?_replicate] at hb
      split_ifs at hb
      cases hb
  | blocks peer ranges theirBlocks hb =>
    obtain ⟨rfl, rfl, hlen, hblocks⟩ := h
    have hafter := afterBlocks_foldlM hb
    refine ⟨rfl, rfl, hafter.length.trans hlen, fun i b hget => ?_⟩
    rcases hafter.added i b hget with hold | ⟨-, hv⟩
    · exact hblocks i b hold
    · have hi := (List.getElem?_eq_some_iff.mp hget).1
      exact hc.block_eq hu (hlen ▸ hafter.length ▸ hi) hv
  | syncing hn hl =>
    obtain ⟨rfl, rfl, hlen, hblocks⟩ := h
    exact ⟨rfl, rfl, flatten_blocks_eq hn (hlen.trans hc.count) hblocks⟩
  | operations peer operations hf => exact h
  | apply header body hi ha => exact h

/-- **A download is sound**: whatever is sent to a store that was created with the id of the
creator's metadata, in any order and by any peers, a store that syncs has the creator's
metadata, merkle tree and initial state. -/
theorem download_sound {bytes : List UInt8} {nonce : Nonce} {storeType : TypeId}
    {metadata : MetadataHeader H} {body : MetadataBody H}
    {OT : OssaType StoreId H HeaderId Body T Op}
    {cmds : List (Environment × Command H HeaderId Header Body)}
    {h : Handler StoreId H HeaderId Header T} {m : MetadataHeader H} {tree : MerkleTree H}
    {initialState : List UInt8} {ecg : UntypedState HeaderId Header} {latest : T}
    (hne : bytes ≠ []) (hlen : bytes.length < 2 ^ 64)
    (hbody : MetadataBody.new bytes = .ok body)
    (hmeta : MetadataHeader.generate nonce storeType body = .ok metadata)
    (hf : FixedLength H) (hinto : Function.Injective OT.into)
    (hu : CreatorUnique metadata body)
    (hrun : Handler.run OT ⟨.newDownloading (metadata.storeId OT.into), []⟩ cmds = .ok h)
    (hs : h.store.stateMachine = .syncing m tree initialState ecg latest) :
    m = metadata ∧ tree = body.merkleTree ∧ initialState = bytes := by
  have hc := created_of_generate hne hlen hbody hmeta
  have hhonest : Honest bytes metadata body OT h.store.stateMachine :=
    run_phase_invariant hrun rfl fun cmd _ sm sm' hI hstep => hI.step hf hinto hc hu hstep
  rw [hs] at hhonest
  exact hhonest

/-! A counter, whose state is one byte. Its operations are added to it. -/

structure Counter where
  value : ℕ
  deriving DecidableEq

instance : CRDT Counter ℕ (OperationId ℕ) where
  apply _ c n := .ok ⟨c.value + n⟩

def counterType : OssaType UInt8 UInt8 ℕ (List ℕ) Counter ℕ where
  into h := h
  toVec c := [UInt8.ofNat c.value]
  fromSlice bytes := bytes.head?.map fun b => ⟨b.toNat⟩
  bodyToVec body := body.map UInt8.ofNat
  bodyFromSlice raw := some (raw.map UInt8.toNat)
  operations body _ := body

def zeros : Bytes 32 := ⟨List.replicate 32 0, List.length_replicate⟩

/-- The metadata of a counter that starts at 7, whose block is hashed to 0. -/
def counterMetadata : MetadataHeader UInt8 := ⟨zeros, .v0, zeros, 1, 0⟩

/-- What the creator of the counter hashed. -/
def counterTable : List (List UInt8) :=
  [[7], List.replicate 65 0 ++ [0, 0, 0, 0, 0, 0, 0, 1, 0]]

/-- Everything in its order, every peer connected, and every receiver there. -/
def calm : Environment :=
  ⟨⟨id, id, fun _ => .refl _, fun _ => .refl _⟩, fun _ => true, fun _ => true⟩

section Counter

open V0

local instance : Hash UInt8 := tableHash counterTable

/-- A store that downloads the counter. -/
def counterDownload : Handler UInt8 UInt8 ℕ TestHeader Counter :=
  ⟨.newDownloading (counterMetadata.storeId counterType.into), []⟩

end Counter

/-! Only the first byte of the state of a counter is read, so it may have three blocks. -/

section Three

open V0

def firstBlock : List UInt8 := List.replicate BLOCK_SIZE 7

def secondBlock : List UInt8 := List.replicate BLOCK_SIZE 8

def threeBytes : List UInt8 := firstBlock ++ secondBlock ++ [9]

/-- What the creator hashed: the blocks, the branches and the metadata. -/
def threeTable : List (List UInt8) :=
  [[9], secondBlock, firstBlock, [2, 1], [3, 0],
    List.replicate 65 0 ++ [0, 0, 0, 0, 0, 0, 128, 1, 4]]

local instance instHashThree : Hash UInt8 := tableHash threeTable

def threeMetadata : MetadataHeader UInt8 := ⟨zeros, .v0, zeros, 32769, 4⟩

def threeTree : MerkleTree UInt8 := ⟨[4, 3, 0, 2, 1]⟩

def threeDownload : Handler UInt8 UInt8 ℕ TestHeader Counter :=
  ⟨.newDownloading (threeMetadata.storeId counterType.into), []⟩

/-- Peer 1 sends the metadata, then wrong and right nodes, then wrong and right blocks. -/
def threeCommands : List (Environment × Command UInt8 ℕ TestHeader (List ℕ)) :=
  [.registerPeers [1], .registerOutgoingPeerSyncing 1, .receivedMetadata 1 threeMetadata,
    .receivedMerkleHashes 1 [⟨3, 5⟩] [2, 2], .receivedMerkleHashes 1 [⟨1, 5⟩] [3, 0, 2, 1],
    .receivedMerkleHashes 1 [⟨3, 5⟩] [2, 1],
    .receivedInitialStateBlocks 1 [⟨0, 3⟩] [some [8], some secondBlock, some [9]],
    .receivedInitialStateBlocks 1 [⟨0, 1⟩] [some firstBlock]].map fun cmd => (calm, cmd)

lemma length_firstBlock : firstBlock.length = BLOCK_SIZE := List.length_replicate

lemma length_secondBlock : secondBlock.length = BLOCK_SIZE := List.length_replicate

lemma chunks_threeBytes : chunks BLOCK_SIZE threeBytes = [firstBlock, secondBlock, [9]] := by
  have hpos : 0 < BLOCK_SIZE := by decide
  rw [threeBytes, List.append_assoc, chunks_append length_firstBlock hpos,
    chunks_append length_secondBlock hpos, chunks_of_length_le (List.cons_ne_nil _ _) hpos]

lemma length_threeBytes : threeBytes.length = 32769 := by
  rw [threeBytes, List.length_append, List.length_append, length_firstBlock, length_secondBlock]
  rfl

lemma length_threeBytes_lt : threeBytes.length < 2 ^ 64 := length_threeBytes ▸ by decide

lemma threeBytes_ne_nil : threeBytes ≠ [] :=
  List.append_ne_nil_of_right_ne_nil _ (List.cons_ne_nil _ _)

lemma three_body :
    MetadataBody.new threeBytes = .ok (⟨threeBytes, threeTree⟩ : MetadataBody UInt8) := by
  have htree : MerkleTree.fromChunks [firstBlock, secondBlock, [9]] = .ok threeTree := by
    decide +kernel
  rw [MetadataBody.new, chunks_threeBytes, htree]
  rfl

lemma three_metadata : MetadataHeader.generate zeros zeros ⟨threeBytes, threeTree⟩ =
    .ok threeMetadata :=
  congrArg (fun n => (.ok ⟨zeros, .v0, zeros, .ofNat n, 4⟩ : Exec (MetadataHeader UInt8)))
    length_threeBytes

lemma three_unique :
    CreatorUnique threeMetadata (⟨threeBytes, threeTree⟩ : MetadataBody UInt8) where
  metadata := noCollision_tableHash (by decide) (by decide +kernel)
  chunks c hc := by
    rw [chunks_threeBytes] at hc
    refine noCollision_tableHash (by decide) ?_
    obtain rfl | rfl | rfl := by simpa using hc
    all_goals simp [threeTable]
  branches p l r hl hr := by
    match p with
    | 0 | 1 =>
      cases hl
      cases hr
      exact noCollision_tableHash (by decide) (by simp [threeTable, asRef])
    | p + 2 => cases hr

lemma three_synced : (threeDownload.run counterType threeCommands).toOption.any (fun h =>
    h.store.stateMachine.synced.isSome) = true := by
  decide +kernel

theorem download_sound_three : ∃ h m tree initialState ecg latest,
    threeDownload.run counterType threeCommands = .ok h ∧
      h.store.stateMachine = .syncing m tree initialState ecg latest ∧
      m = threeMetadata ∧ tree = threeTree ∧ initialState = threeBytes := by
  obtain ⟨h, hrun, hsome⟩ := exists_of_any three_synced
  obtain ⟨⟨m, tree, initialState⟩, hsynced⟩ := Option.isSome_iff_exists.mp hsome
  obtain ⟨ecg, latest, hs⟩ := exists_of_synced hsynced
  exact ⟨_, _, _, _, ecg, latest, hrun, hs, download_sound threeBytes_ne_nil length_threeBytes_lt
    three_body three_metadata (fixedLength_tableHash _) Function.injective_id three_unique hrun hs⟩

end Three

end Ossa.Store
