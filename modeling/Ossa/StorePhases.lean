import Ossa.StoreServe

/-!
The data of each phase of a download.

A store whose metadata has `n` blocks downloads a tree of `2 * n - 1` nodes and then `n` blocks.
In a phase something is missing, between commands; while it handles an answer, a store goes on
to the next phase until this holds again. With `1 ≤ n` no step on this way can fail, but for an
initial state that does not parse.
-/

namespace Ossa.Store

open Ossa.Loop Ossa.Util Ossa.Util.MerkleTree Ossa.Collections Ossa.Ecg Ossa.Crdt

variable {StoreId H HeaderId Header Body T Op : Type} [LinearOrder HeaderId]

/-- The initial state was downloaded, but is not one of the store's type. -/
def unparsed : Fault := .todo "TODO: The store is invalid. Initial state does not parse."

/-- All blocks but the last have `BLOCK_SIZE` bytes. -/
def FullBlocks (n : ℕ) (blocks : List (Option (List UInt8))) : Prop :=
  ∀ i b, blocks[i]? = some (some b) → i + 1 < n → b.length = BLOCK_SIZE

/-- The data of the phase is the one of a store with `n` blocks. If `full`, then also the
lengths of the blocks are as they should be. -/
def StateMachine.OfBlocks [Hash H] (n : ℕ) (full : Prop) :
    StateMachine StoreId H HeaderId Header T → Prop
  | .downloadingMetadata _ => True
  | .downloadingMerkle metadata tree => metadata.blockCount = n ∧
    tree.nodes.length = 2 * n - 1 ∧ ∃ root, Sound root (fun _ => False) tree
  | .downloadingInitialState metadata tree blocks => metadata.blockCount = n ∧
    tree.nodes.length = 2 * n - 1 ∧ blocks.length = n ∧ (full → FullBlocks n blocks)
  | .syncing metadata tree initialState _ _ => metadata.blockCount = n ∧
    tree.nodes.length = 2 * n - 1 ∧ (full → (n - 1) * BLOCK_SIZE ≤ initialState.length)

/-- Something is missing that the store asks for in its phase. -/
def StateMachine.Incomplete : StateMachine StoreId H HeaderId Header T → Prop
  | .downloadingMerkle _ tree => .none ∈ tree.nodes
  | .downloadingInitialState _ _ blocks => none ∈ blocks
  | _ => True

/-- The waiting requests are for nodes and blocks that a store with `n` blocks has. -/
structure State.Servable (n : ℕ) (full : Prop) (s : State StoreId H HeaderId Header T) : Prop where
  merkle : ∀ sub ∈ s.merkleSubscribers.toList, ∀ i ∈ flattenRanges sub.2.1, i < 2 * n - 1
  blocks : ∀ sub ∈ s.blockSubscribers.toList, full ∧ ∀ i ∈ flattenRanges sub.2.1, i < n

/-- What holds of a store of `n` blocks between commands. -/
structure State.InOrder [Hash H] (n : ℕ) (full : Prop) (s : State StoreId H HeaderId Header T) :
    Prop where
  blocks : s.stateMachine.OfBlocks n full
  incomplete : s.stateMachine.Incomplete
  servable : s.Servable n full

variable {n : ℕ} {full : Prop} {s s' : State StoreId H HeaderId Header T}
variable {peer : DeviceId} {listeners : List Chan}

/-! ### Serving requests in range -/

lemma exists_handleMerklePeerRequestHelper {tree : MerkleTree H} {ranges : List Range}
    (hlen : tree.nodes.length = 2 * n - 1) (hr : ∀ i ∈ flattenRanges ranges, i < 2 * n - 1) :
    ∃ hashes, State.handleMerklePeerRequestHelper tree ranges = .ok hashes := by
  refine exists_mapM_ok fun i hi => ?_
  have hlt : i < tree.nodes.length := hlen ▸ hr i hi
  exact ⟨tree.nodes[i], orFault_eq_ok.mpr (List.getElem?_eq_getElem hlt)⟩

lemma exists_sliceBlock {initialState : List UInt8} {i : ℕ}
    (hlen : (n - 1) * BLOCK_SIZE ≤ initialState.length) (hi : i < n) :
    ∃ b, State.sliceBlock initialState i = .ok b := by
  have hstart : i * BLOCK_SIZE ≤ initialState.length :=
    (Nat.mul_le_mul_right _ (by omega)).trans hlen
  have hstop : i * BLOCK_SIZE ≤ (i + 1) * BLOCK_SIZE := Nat.mul_le_mul_right _ (Nat.le_succ i)
  exact ⟨_, if_pos (le_min hstop hstart)⟩

lemma exists_handleBlockPeerRequestHelper [Hash H] {sm : StateMachine StoreId H HeaderId Header T}
    {ranges : List Range} (hsm : sm.OfBlocks n full) (hfull : full)
    (hr : ∀ i ∈ flattenRanges ranges, i < n) :
    ∃ blocks, State.handleBlockPeerRequestHelper sm ranges = .ok blocks ∧
      (sm.merkleTree.isSome → blocks.isSome) := by
  cases sm with
  | downloadingMetadata _ => exact ⟨none, rfl, id⟩
  | downloadingMerkle _ _ => exact ⟨none, rfl, id⟩
  | downloadingInitialState metadata tree blocks =>
    obtain ⟨-, -, hlen, -⟩ := hsm
    obtain ⟨served, hserved⟩ : ∃ served,
        State.handlePeerRequestRangeHelper blocks ranges = .ok served :=
      exists_mapM_ok fun i hi => ⟨blocks.get ⟨i, hlen ▸ hr i hi⟩,
        orFault_eq_ok.mpr (List.getElem?_eq_getElem (hlen ▸ hr i hi))⟩
    exact ⟨some served, by simp [State.handleBlockPeerRequestHelper, hserved], fun _ => rfl⟩
  | syncing metadata tree initialState ecg latest =>
    obtain ⟨-, -, hlen⟩ := hsm
    obtain ⟨served, hserved⟩ := exists_mapM_ok (f := State.sliceBlock initialState) fun i hi =>
      exists_sliceBlock (hlen hfull) (hr i hi)
    exact ⟨some served, by simp [State.handleBlockPeerRequestHelper, hserved], fun _ => rfl⟩

/-! ### The transitions -/

section Transitions

variable [Hash H] {OT : OssaType StoreId H HeaderId Body T Op}

lemma FullBlocks.length_flatten {blocks : List (Option (List UInt8))} (h : FullBlocks n blocks)
    (hlen : blocks.length = n) (hn : none ∉ blocks) :
    (n - 1) * BLOCK_SIZE ≤ (blocks.filterMap id).flatten.length := by
  have hmap := eq_map_some hn
  have hlen' : (blocks.filterMap id).length = n := by
    rw [← hlen]
    conv_rhs => rw [hmap, List.length_map]
  have hsized : ∀ k ≤ n - 1, ((blocks.filterMap id).take k).flatten.length = k * BLOCK_SIZE := by
    intro k hk
    induction k with
    | zero => simp
    | succ k ih =>
      have hlt : k < (blocks.filterMap id).length := by omega
      have hget : blocks[k]? = some (some (blocks.filterMap id)[k]) := by
        conv_lhs => rw [hmap]
        rw [List.getElem?_map, List.getElem?_eq_getElem hlt]
        rfl
      rw [List.take_succ_eq_append_getElem hlt, List.flatten_append, List.length_append,
        ih (by omega), List.flatten_singleton, h k _ hget (by omega), Nat.succ_mul]
  rw [← hsized (n - 1) le_rfl, ← flatten_take_append (blocks.filterMap id) (n - 1),
    List.length_append]
  exact Nat.le_add_right _ _

/-- **The step to the last phase** can fail only because the initial state does not parse. -/
theorem returnsOr_updateStateToSyncing {metadata : MetadataHeader H} {tree : MerkleTree H}
    {blocks : List (Option (List UInt8))}
    (hs : s.stateMachine = .downloadingInitialState metadata tree blocks)
    (hb : s.stateMachine.OfBlocks n full) (hn : none ∉ blocks) (hw : s.Servable n full) :
    ReturnsOr unparsed (State.InOrder n full) (s.updateStateToSyncing OT peer listeners) := by
  unfold State.updateStateToSyncing
  rw [hs] at hb
  obtain ⟨hcount, htree, hlen, hfull⟩ := hb
  simp only [hs]
  cases hl : OT.fromSlice (blocks.filterMap id).flatten with
  | none => exact Or.inl rfl
  | some latest =>
    simp only [orFault_some, ok_bind]
    have hsm : StateMachine.OfBlocks n full (.syncing metadata tree (blocks.filterMap id).flatten
        .new latest : StateMachine StoreId H HeaderId Header T) :=
      ⟨hcount, htree, fun h => (hfull h).length_flatten hlen hn⟩
    obtain ⟨subs, heq, -⟩ := State.updateListeners_spec
      (s := s.withPhase (.syncing metadata tree (blocks.filterMap id).flatten .new latest))
      listeners latest .new (some peer)
    rw [State.withPhase] at heq
    rw [heq]
    obtain ⟨notices, hnotices⟩ := exists_mapM_ok (l := s.blockSubscribers.toList)
      (f := State.blockNotice (.syncing metadata tree (blocks.filterMap id).flatten .new latest :
        StateMachine StoreId H HeaderId Header T)) fun sub hsub => by
      obtain ⟨hf, hr⟩ := hw.blocks sub hsub
      obtain ⟨served, hserved, hsome⟩ := exists_handleBlockPeerRequestHelper hsm hf hr
      obtain ⟨served, rfl⟩ := Option.isSome_iff_exists.mp (hsome rfl)
      exact ⟨_, by rw [State.blockNotice, hserved]; rfl⟩
    rw [State.notifyBlockSubscribers]
    simp only [hnotices, ok_bind, pure_eq_ok]
    refine returnsOr_ok ⟨hsm, trivial, ?_, ?_⟩
    · exact hw.merkle
    · rw [toList_empty]
      simp

/-- **The step past the merkle tree**: nothing happens, or the store asks for blocks next. -/
theorem returnsOr_updateStateToDownloadingInitialState (hn : 1 ≤ n) {metadata : MetadataHeader H}
    {tree : MerkleTree (Potential H)} (hs : s.stateMachine = .downloadingMerkle metadata tree)
    (hb : s.stateMachine.OfBlocks n full) (hw : s.Servable n full) :
    ReturnsOr unparsed (State.InOrder n full)
      (s.updateStateToDownloadingInitialState OT peer listeners) := by
  unfold State.updateStateToDownloadingInitialState
  have hb' := hb
  rw [hs] at hb'
  obtain ⟨hcount, htree, root, hsound⟩ := hb'
  simp only [hs]
  cases hc : tree.tryComplete with
  | none =>
    refine returnsOr_ok ⟨hb, ?_, hw⟩
    rw [hs]
    have hmissing : tree.missingIndices ≠ [] := fun hnil => by
      have := hsound.missingIndices_eq_nil.mp hnil
      rw [hc] at this
      cases this
    obtain ⟨i, hi⟩ := List.exists_mem_of_ne_nil _ hmissing
    exact List.mem_of_getElem? (mem_missingIndices.mp hi)
  | some merkleTree =>
    have hlen : merkleTree.nodes.length = 2 * n - 1 := (length_tryComplete hc).trans htree
    obtain ⟨notices, hnotices⟩ := exists_mapM_ok (l := s.merkleSubscribers.toList)
      (f := (State.merkleNotice peer merkleTree :
        _ → Exec (Sent StoreId H HeaderId Header T))) fun sub hsub => by
      obtain ⟨hashes, hh⟩ := exists_handleMerklePeerRequestHelper hlen (hw.merkle sub hsub)
      rw [State.merkleNotice]
      split_ifs
      · exact ⟨_, rfl⟩
      · exact ⟨_, by rw [hh]; rfl⟩
    simp only [State.notifyMerkleSubscribers, hnotices, ok_bind, pure_eq_ok]
    have hsize : metadata.initialStateSize ≠ 0 := by
      rintro h0
      have hzero : metadata.blockCount = 0 := by
        rw [MetadataHeader.blockCount, h0]
        rfl
      omega
    rw [if_neg hsize]
    refine returnsOr_ok ⟨⟨hcount, hlen, ?_, fun _ i b hi => ?_⟩, ?_, ?_, hw.blocks⟩
    · rw [List.length_replicate, hcount]
    · cases List.eq_of_mem_replicate (List.mem_of_getElem? hi)
    · exact List.mem_replicate.mpr ⟨by omega, rfl⟩
    · rw [toList_empty]
      simp

/-! ### The answers -/

lemma State.InOrder.afterPeers (h : s.InOrder n full) (peers : BTreeMap DeviceId PeerInfo)
    (l : List (Sent StoreId H HeaderId Header T)) : (s.AfterPeers peers l).InOrder n full :=
  ⟨h.blocks, h.incomplete, ⟨h.servable.merkle, h.servable.blocks⟩⟩

lemma State.InOrder.ready {s₁ : State StoreId H HeaderId Header T} (h : s.InOrder n full)
    (hr : s.updateOutgoingPeerToReady peer = .ok s₁) :
    s₁.InOrder n full ∧ s₁.stateMachine = s.stateMachine := by
  obtain ⟨info, b, -, -, rfl⟩ := State.updateOutgoingPeerToReady_ok hr
  exact ⟨h.afterPeers _ _, rfl⟩

omit [Hash H] in
lemma none_mem_newWithCapacity {root : H} {tree : MerkleTree (Potential H)} (hn : 2 ≤ n)
    (h : MerkleTree.newWithCapacity root n = .ok tree) : Potential.none ∈ tree.nodes := by
  have hlt : 0 < (List.replicate (2 * n - 1) (Potential.none : Potential H)).length := by
    rw [List.length_replicate]
    omega
  simp only [MerkleTree.newWithCapacity, nodeCountForLeafCount, if_neg (show n ≠ 0 by omega),
    ok_bind, assign_of_lt hlt, pure_eq_ok] at h
  cases h
  refine List.mem_of_getElem? (i := 1) ?_
  rw [List.getElem?_set_ne (by decide), List.getElem?_replicate, if_pos (by omega)]

/-- **`ReceivedMetadata`**, if the metadata is rejected or has `n` blocks. -/
theorem returnsOr_handleReceivedMetadata [DecidableEq StoreId] (hn : 1 ≤ n)
    (h : s.InOrder n full) {s₁ : State StoreId H HeaderId Header T}
    (hr : s.updateOutgoingPeerToReady peer = .ok s₁) {metadata : MetadataHeader H}
    (hm : metadata.validateStoreId OT.into (s.stateMachine.storeId OT.into) = true →
      metadata.blockCount = n) :
    ReturnsOr unparsed (State.InOrder n full)
      (s.handleReceivedMetadata OT peer metadata listeners) := by
  obtain ⟨h₁, hsame⟩ := h.ready hr
  unfold State.handleReceivedMetadata
  simp only [hr, ok_bind]
  rw [hsame]
  cases hv : metadata.validateStoreId OT.into (s.stateMachine.storeId OT.into) with
  | false => exact returnsOr_ok h₁
  | true =>
    have hcount := hm hv
    obtain ⟨tree, htree, hlen, hsound⟩ := newWithCapacity_spec metadata.merkleRoot hn
    have hsm : StateMachine.OfBlocks n full (.downloadingMerkle metadata tree :
        StateMachine StoreId H HeaderId Header T) := ⟨hcount, hlen, _, hsound⟩
    simp only [Bool.not_true, Bool.false_eq_true, if_false, hcount, htree, ok_bind]
    split_ifs with hone
    · exact returnsOr_updateStateToDownloadingInitialState hn rfl hsm
        ⟨h₁.servable.merkle, h₁.servable.blocks⟩
    · exact returnsOr_ok ⟨hsm, none_mem_newWithCapacity (by omega) htree,
        ⟨h₁.servable.merkle, h₁.servable.blocks⟩⟩

variable [DecidableEq H]

/-- **`ReceivedMerkleHashes`**, whatever the hashes are. -/
theorem returnsOr_handleReceivedMerkleHashes (hn : 1 ≤ n) (h : s.InOrder n full)
    {s₁ : State StoreId H HeaderId Header T} (hr : s.updateOutgoingPeerToReady peer = .ok s₁)
    (nodeIds : List Range) (theirNodeHashes : List H) :
    ReturnsOr unparsed (State.InOrder n full)
      (s.handleReceivedMerkleHashes OT peer nodeIds theirNodeHashes listeners) := by
  obtain ⟨h₁, -⟩ := h.ready hr
  unfold State.handleReceivedMerkleHashes
  simp only [hr, ok_bind]
  split_ifs with hlen
  · exact returnsOr_ok h₁
  cases hs : s₁.stateMachine with
  | downloadingMerkle metadata tree =>
    have hb := h₁.blocks
    rw [hs] at hb
    obtain ⟨hcount, htree, root, hsound⟩ := hb
    obtain ⟨tree', hset, hsound', hkeeps⟩ :=
      setAll_spec hsound ((flattenRanges nodeIds).zip theirNodeHashes)
    simp only [hset, ok_bind]
    exact returnsOr_updateStateToDownloadingInitialState hn rfl
      ⟨hcount, hkeeps.length.trans htree, root, hsound'⟩ ⟨h₁.servable.merkle, h₁.servable.blocks⟩
  | downloadingMetadata _ => exact returnsOr_ok h₁
  | downloadingInitialState _ _ _ => exact returnsOr_ok h₁
  | syncing _ _ _ _ _ => exact returnsOr_ok h₁

/-- The blocks that the store accepts from an answer are full, but for the last one. -/
def State.AcceptsFull (n : ℕ) (s : State StoreId H HeaderId Header T)
    (l : List (ℕ × Option (List UInt8))) : Prop :=
  ∀ metadata tree blocks, s.stateMachine = .downloadingInitialState metadata tree blocks →
    ∀ i b, (i, some b) ∈ l → i + 1 < n → tree.validateChunk i b = .ok true →
      b.length = BLOCK_SIZE

lemma exists_setBlock {tree : MerkleTree H} {blocks : List (Option (List UInt8))} {i : ℕ}
    {their : Option (List UInt8)} (htree : tree.nodes.length = 2 * n - 1)
    (hlen : blocks.length = n) (hi : i < n) :
    ∃ blocks', State.setBlock tree blocks (i, their) = .ok blocks' := by
  cases their with
  | none => exact ⟨blocks, rfl⟩
  | some b =>
    have hlt : i < blocks.length := hlen ▸ hi
    obtain ⟨h, -, hv⟩ := validateChunk_eq htree hi b
    have hindex := index_eq_ok.mpr (List.getElem?_eq_getElem hlt)
    simp only [State.setBlock, hindex, ok_bind, hv]
    split_ifs
    · exact ⟨_, assign_of_lt hlt _⟩
    · exact ⟨_, rfl⟩
    · exact ⟨_, rfl⟩

lemma exists_setBlocks {tree : MerkleTree H} {blocks : List (Option (List UInt8))}
    {l : List (ℕ × Option (List UInt8))} (htree : tree.nodes.length = 2 * n - 1)
    (hlen : blocks.length = n) (hl : ∀ b ∈ l, b.1 < n) (hfull : full → FullBlocks n blocks)
    (hacc : full → ∀ i b, (i, some b) ∈ l → i + 1 < n → tree.validateChunk i b = .ok true →
      b.length = BLOCK_SIZE) :
    ∃ blocks', l.foldlM (State.setBlock tree) blocks = .ok blocks' ∧
      blocks'.length = n ∧ (full → FullBlocks n blocks') := by
  refine foldlM_returns (I := fun bs => bs.length = n ∧ (full → FullBlocks n bs)) l ⟨hlen, hfull⟩
    fun bs a ha hI => ?_
  obtain ⟨i, their⟩ := a
  obtain ⟨bs', hset⟩ : ∃ bs', State.setBlock tree bs (i, their) = .ok bs' :=
    exists_setBlock htree hI.1 (hl _ ha)
  refine ⟨bs', hset, ?_⟩
  obtain rfl | ⟨b, rfl, hi, hv, rfl⟩ := setBlock_cases hset
  · exact hI
  · refine ⟨by rw [List.length_set, hI.1], fun hf k c hk hkn => ?_⟩
    by_cases hik : i = k
    · subst hik
      rw [List.getElem?_set_self (hI.1 ▸ hl _ ha)] at hk
      cases hk
      exact hacc hf i b ha hkn hv
    · rw [List.getElem?_set_ne hik] at hk
      exact hI.2 hf k c hk hkn

/-- **`ReceivedInitialStateBlocks`**, if the blocks are in range. -/
theorem returnsOr_handleReceivedInitialStateBlocks (h : s.InOrder n full)
    {s₁ : State StoreId H HeaderId Header T} (hr : s.updateOutgoingPeerToReady peer = .ok s₁)
    {blockIds : List Range} {theirBlocks : List (Option (List UInt8))}
    (hids : ∀ i ∈ flattenRanges blockIds, i < n)
    (hacc : full → s.AcceptsFull n ((flattenRanges blockIds).zip theirBlocks)) :
    ReturnsOr unparsed (State.InOrder n full)
      (s.handleReceivedInitialStateBlocks OT peer blockIds theirBlocks listeners) := by
  obtain ⟨h₁, hsame⟩ := h.ready hr
  unfold State.handleReceivedInitialStateBlocks
  simp only [hr, ok_bind]
  split_ifs with hlen
  · exact returnsOr_ok h₁
  cases hs : s₁.stateMachine with
  | downloadingInitialState metadata tree blocks =>
    have hb := h₁.blocks
    rw [hs] at hb
    obtain ⟨hcount, htree, hblocks, hfull⟩ := hb
    obtain ⟨blocks', hset, hlen', hfull'⟩ := exists_setBlocks htree hblocks
      (l := (flattenRanges blockIds).zip theirBlocks)
      (fun b hb => hids b.1 (List.of_mem_zip (show (b.1, b.2) ∈ _ from hb)).1) hfull
      (fun hf => hacc hf metadata tree blocks (hsame ▸ hs))
    simp only [hset, ok_bind]
    have hsm : StateMachine.OfBlocks n full (.downloadingInitialState metadata tree blocks' :
        StateMachine StoreId H HeaderId Header T) := ⟨hcount, htree, hlen', hfull'⟩
    split_ifs with hany
    · obtain ⟨o, ho, hnone⟩ := List.any_eq_true.mp hany
      cases o with
      | some b => cases hnone
      | none => exact returnsOr_ok ⟨hsm, ho, ⟨h₁.servable.merkle, h₁.servable.blocks⟩⟩
    · refine returnsOr_updateStateToSyncing rfl hsm (fun hmem => hany ?_)
        ⟨h₁.servable.merkle, h₁.servable.blocks⟩
      exact List.any_eq_true.mpr ⟨none, hmem, rfl⟩
  | downloadingMetadata _ => exact returnsOr_ok h₁
  | downloadingMerkle _ _ => exact returnsOr_ok h₁
  | syncing _ _ _ _ _ => exact returnsOr_ok h₁

end Transitions

/-! ### The requests -/

/-- The blocks that a request asks for. -/
def StoreSyncCommand.blockIds : StoreSyncCommand HeaderId Header → List ℕ
  | .initialStateBlockRequest ranges => flattenRanges ranges
  | _ => []

lemma mem_missingBlocks {blocks : List (Option (List UInt8))} {i : ℕ} :
    i ∈ State.missingBlocks blocks ↔ blocks[i]? = some none := by
  simp only [State.missingBlocks, List.mem_filterMap, List.mem_zipIdx_iff_getElem?, Prod.exists]
  constructor
  · rintro ⟨o, k, hk, ho⟩
    split_ifs at ho with hn
    cases ho
    cases o with
    | none => exact hk
    | some b => cases hn
  · exact fun hi => ⟨none, i, hi, rfl⟩

lemma mem_of_mem_chunks {α : Type} {k : ℕ} {l c : List α} (hk : 0 < k) (hc : c ∈ chunks k l)
    {a : α} (ha : a ∈ c) : a ∈ l := by
  rw [← flatten_chunks (l := l) hk]
  exact List.mem_flatten.mpr ⟨c, hc, ha⟩

/-- **The store always finds what to request**, and only asks for blocks that it should have. -/
theorem State.exists_syncRequests [Hash H] (hb : s.stateMachine.OfBlocks n full)
    (hi : s.stateMachine.Incomplete) (rng : Rng) :
    ∃ reqs, s.syncRequests rng = .ok reqs ∧ ∀ r ∈ reqs, ∀ i ∈ r.2.blockIds, i < n := by
  unfold State.syncRequests
  dsimp only
  cases hs : s.stateMachine with
  | downloadingMetadata _ =>
    refine ⟨_, rfl, fun r hr i hi => ?_⟩
    obtain ⟨p, -, rfl⟩ := List.mem_map.mp hr
    cases hi
  | downloadingMerkle metadata tree =>
    rw [hs] at hi
    obtain ⟨k, hk⟩ := List.mem_iff_getElem?.mp hi
    have hne : chunks MERKLE_REQUEST_LIMIT tree.missingIndices ≠ [] :=
      chunks_ne_nil (by decide) (List.ne_nil_of_mem (mem_missingIndices.mpr hk))
    dsimp only
    rw [if_neg (by simpa using hne)]
    refine ⟨_, rfl, fun r hr i hi => ?_⟩
    obtain ⟨hashes, -, heq⟩ := List.mem_map.mp (List.of_mem_zip (show (r.1, r.2) ∈ _ from hr)).2
    rw [← heq] at hi
    cases hi
  | downloadingInitialState metadata tree blocks =>
    rw [hs] at hi hb
    obtain ⟨k, hk⟩ := List.mem_iff_getElem?.mp hi
    have hne : chunks BLOCK_REQUEST_LIMIT (State.missingBlocks blocks) ≠ [] :=
      chunks_ne_nil (by decide) (List.ne_nil_of_mem (mem_missingBlocks.mpr hk))
    dsimp only
    rw [if_neg (by simpa using hne)]
    refine ⟨_, rfl, fun r hr i hi => ?_⟩
    obtain ⟨ids, hids, heq⟩ := List.mem_map.mp (List.of_mem_zip (show (r.1, r.2) ∈ _ from hr)).2
    rw [← heq, StoreSyncCommand.blockIds, flatten_compress] at hi
    have hmem := mem_of_mem_chunks (by decide) ((rng.perm_chunks _).mem_iff.mp hids) hi
    exact hb.2.2.1 ▸ (List.getElem?_eq_some_iff.mp (mem_missingBlocks.mp hmem)).1
  | syncing _ _ _ _ _ =>
    refine ⟨_, rfl, fun r hr i hi => ?_⟩
    obtain ⟨p, -, rfl⟩ := List.mem_map.mp hr
    cases hi

lemma State.InOrder.exists_sendSyncRequests [Hash H] (h : s.InOrder n full) (rng : Rng) :
    ∃ s', s.sendSyncRequests rng = .ok s' ∧ s'.InOrder n full := by
  obtain ⟨reqs, hreqs, -⟩ := State.exists_syncRequests h.blocks h.incomplete rng
  obtain ⟨peers, heq, -⟩ := State.sendSyncRequests_spec hreqs
  exact ⟨_, heq, h.afterPeers peers _⟩

end Ossa.Store
