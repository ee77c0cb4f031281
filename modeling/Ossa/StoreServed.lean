import Ossa.MerkleChunks
import Ossa.MerkleHonest
import Ossa.StoreWants

/-!
A download from peers that have all the data.

Such a peer answers a request with all that was asked for, and its values are those of the
creator. So an answer to a request for something that is still missing brings the download
forward, an answer to another request changes nothing, and no answer stops the store.
-/

namespace Ossa.Store

open Ossa.Loop Ossa.Util Ossa.Util.MerkleTree Ossa.Collections Ossa.Ecg Ossa.Crdt State

variable {StoreId H HeaderId Header Body T Op : Type} [LinearOrder HeaderId]

/-! ### What is missing -/

/-- The number of the phase in which something is asked for. -/
def Want.rank : Want → ℕ
  | .metadata => 0
  | .nodes _ => 1
  | .blocks _ => 2
  | .operations => 3

/-- The positions that are asked for. -/
def Want.positions : Want → List ℕ
  | .nodes ranges => flattenRanges ranges
  | .blocks ranges => flattenRanges ranges
  | _ => []

/-- The positions of what the store lacks in its phase. -/
def StateMachine.missing : StateMachine StoreId H HeaderId Header T → List ℕ
  | .downloadingMerkle _ tree => tree.missingIndices
  | .downloadingInitialState _ _ blocks => missingBlocks blocks
  | _ => []

/-- Something that is asked for is still missing. -/
def Want.Useful (w : Want) (sm : StateMachine StoreId H HeaderId Header T) : Prop :=
  w.rank = sm.rank ∧ ∃ i ∈ w.positions, i ∈ sm.missing

/-- How much a download has to receive after the metadata of a store with `n` blocks. -/
def StateMachine.remaining (n : ℕ) (sm : StateMachine StoreId H HeaderId Header T) : ℕ :=
  match sm with
  | .downloadingMerkle _ _ => sm.missing.length + n
  | .downloadingInitialState _ _ _ => sm.missing.length
  | _ => 0

lemma nodup_missingBlocks (blocks : List (Option (List UInt8))) :
    (missingBlocks blocks).Nodup := by
  have hfilter : missingBlocks blocks =
      (blocks.zipIdx.filter fun b => b.1.isNone).map Prod.snd := by
    unfold missingBlocks
    induction blocks.zipIdx with
    | nil => rfl
    | cons b l ih =>
      obtain ⟨_ | _, i⟩ := b
      · simpa using ih
      · simpa using ih
  have hall : (blocks.zipIdx.map Prod.snd).Nodup := by
    rw [List.zipIdx_map_snd]
    exact List.nodup_range'
  rw [hfilter]
  exact hall.sublist (List.filter_sublist.map _)

lemma length_lt_of_subset {l l' : List ℕ} {i : ℕ} (hl : l.Nodup) (hsub : l ⊆ l') (hi : i ∈ l')
    (hn : i ∉ l) : l.length < l'.length := by
  have hcons : (i :: l) ⊆ l' := List.cons_subset.mpr ⟨hi, hsub⟩
  exact (List.subperm_of_subset (List.nodup_cons.mpr ⟨hn, hl⟩) hcons).length_le

section Served

/-! ### Peers with all the data -/

/-- The command brings what a store in the phase answers at once. -/
def Command.ServedBy (sm : StateMachine StoreId H HeaderId Header T) :
    Command H HeaderId Header Body → Prop
  | .receivedMetadata _ metadata => sm.immediate .metadata = .ok (some (.metadata metadata))
  | .receivedMerkleHashes _ ranges hashes =>
    sm.immediate (.merkle ranges) = .ok (some (.hashes hashes))
  | .receivedInitialStateBlocks _ ranges blocks =>
    sm.immediate (.blocks ranges) = .ok (some (.blocks blocks))
  | _ => True

/-- The answer is the one of a store that syncs, with the creator's data. -/
def Command.Served (StoreId T : Type) (metadata : MetadataHeader H) (body : MetadataBody H)
    (cmd : Command H HeaderId Header Body) : Prop :=
  ∃ (ecg : UntypedState HeaderId Header) (latest : T), cmd.ServedBy
    (.syncing metadata body.merkleTree body.initialState ecg latest :
      StateMachine StoreId H HeaderId Header T)

lemma mem_zip_of_mapM {α β : Type} {f : α → Exec β} {l : List α} {r : List β}
    (h : l.mapM f = .ok r) : l.length = r.length ∧ ∀ c ∈ l.zip r, f c.1 = .ok c.2 := by
  obtain ⟨hlen, hall⟩ := List.forall₂_iff_zip.mp (mapM_eq_ok.mp h)
  exact ⟨hlen, fun c hc => hall hc⟩

variable {metadata m : MetadataHeader H} {body : MetadataBody H} {peer : DeviceId}

lemma Command.Served.metadata_eq (h : (Command.receivedMetadata peer m :
    Command H HeaderId Header Body).Served StoreId T metadata body) : m = metadata := by
  obtain ⟨ecg, latest, h⟩ := h
  cases h
  rfl

lemma Command.Served.hashes {ranges : List Range} {hashes : List H}
    (h : (Command.receivedMerkleHashes peer ranges hashes :
      Command H HeaderId Header Body).Served StoreId T metadata body) :
    (flattenRanges ranges).length = hashes.length ∧
      ∀ c ∈ (flattenRanges ranges).zip hashes, body.merkleTree.nodes[c.1]? = some c.2 := by
  obtain ⟨ecg, latest, h⟩ := h
  obtain ⟨hashes', hm, heq⟩ := bind_eq_ok.mp h
  cases heq
  obtain ⟨hlen, hall⟩ := mem_zip_of_mapM hm
  exact ⟨hlen, fun c hc => orFault_eq_ok.mp (hall c hc)⟩

lemma sliceBlock_of_lt {bytes : List UInt8} {i : ℕ} (hi : i < (chunks BLOCK_SIZE bytes).length) :
    sliceBlock bytes i = .ok (chunks BLOCK_SIZE bytes)[i]? := by
  have hle : (i + 1) * BLOCK_SIZE ≤ bytes.length + BLOCK_SIZE - 1 := by
    rw [length_chunks] at hi
    exact (Nat.le_div_iff_mul_le (by decide)).mp hi
  rw [Nat.succ_mul] at hle
  have hpos : 0 < BLOCK_SIZE := by decide
  rw [sliceBlock, if_pos (by rw [Nat.succ_mul]; omega), chunks, List.getElem?_map,
    List.getElem?_range (by simpa using hi), Option.map_some, piece, List.drop_take]
  refine congrArg (fun l => (.ok (some l) : Exec (Option (List UInt8))))
    (List.take_eq_take_iff.mpr ?_)
  rw [List.length_drop, Nat.succ_mul]
  omega

lemma Command.Served.blocks {ranges : List Range} {blocks : List (Option (List UInt8))}
    (h : (Command.receivedInitialStateBlocks peer ranges blocks :
      Command H HeaderId Header Body).Served StoreId T metadata body) :
    (flattenRanges ranges).length = blocks.length ∧
      ∀ c ∈ (flattenRanges ranges).zip blocks,
        c.1 < (chunks BLOCK_SIZE body.initialState).length →
          c.2 = (chunks BLOCK_SIZE body.initialState)[c.1]? := by
  obtain ⟨ecg, latest, h⟩ := h
  obtain ⟨blocks', hm, heq⟩ := bind_eq_ok.mp h
  obtain ⟨blocks'', hm', heq'⟩ := bind_eq_ok.mp hm
  cases heq'
  cases heq
  obtain ⟨hlen, hall⟩ := mem_zip_of_mapM hm'
  exact ⟨hlen, fun c hc hlt => Except.ok.inj ((hall c hc).symm.trans (sliceBlock_of_lt hlt))⟩

/-! ### The phases -/

variable [Hash H] (OT : OssaType StoreId H HeaderId Body T Op) (metadata body)

/-- A phase of a download that has received only what the creator made. -/
def OnTrack : StateMachine StoreId H HeaderId Header T → Prop
  | .downloadingMetadata storeId => storeId = metadata.storeId OT.into
  | .downloadingMerkle m tree => m = metadata ∧
    tree.nodes.length = body.merkleTree.nodes.length ∧ Within body.merkleTree tree
  | .downloadingInitialState m tree blocks => m = metadata ∧ tree = body.merkleTree ∧
    blocks.length = (chunks BLOCK_SIZE body.initialState).length ∧
    ∀ (i : ℕ) b, blocks[i]? = some (some b) → (chunks BLOCK_SIZE body.initialState)[i]? = some b
  | .syncing m tree initialState _ _ => m = metadata ∧ tree = body.merkleTree ∧
    initialState = body.initialState

variable {OT metadata body} {sm sm' : StateMachine StoreId H HeaderId Header T}

lemma OnTrack.storeId_eq (h : OnTrack metadata body OT sm) :
    sm.storeId OT.into = metadata.storeId OT.into := by
  cases sm with
  | downloadingMetadata storeId => exact h
  | downloadingMerkle m tree => obtain ⟨rfl, -⟩ := h; rfl
  | downloadingInitialState m tree blocks => obtain ⟨rfl, -⟩ := h; rfl
  | syncing m tree initialState ecg latest => obtain ⟨rfl, -⟩ := h; rfl

variable [DecidableEq H]

lemma setAll_keeps {t t' : MerkleTree (Potential H)} {calls : List (ℕ × H)}
    (h : t.setAll calls = .ok t') : Keeps t t' := by
  refine foldlM_invariant (I := Keeps t) h (.refl t) fun u u' c _ hu hstep => ?_
  obtain ⟨⟨t₁, valid⟩, hset, heq⟩ := bind_eq_ok.mp hstep
  cases heq
  exact hu.trans (set_keeps hset)

lemma blocks_of_served {ranges : List Range} {theirBlocks blocks blocks' : List (Option (List UInt8))}
    (hserved : (Command.receivedInitialStateBlocks peer ranges theirBlocks :
      Command H HeaderId Header Body).Served StoreId T metadata body)
    (hlen : blocks.length = (chunks BLOCK_SIZE body.initialState).length)
    (hblocks : ∀ (i : ℕ) b, blocks[i]? = some (some b) →
      (chunks BLOCK_SIZE body.initialState)[i]? = some b)
    (hb : ((flattenRanges ranges).zip theirBlocks).foldlM (setBlock body.merkleTree) blocks =
      .ok blocks') :
    blocks'.length = (chunks BLOCK_SIZE body.initialState).length ∧ ∀ (i : ℕ) b,
      blocks'[i]? = some (some b) → (chunks BLOCK_SIZE body.initialState)[i]? = some b := by
  have hafter := afterBlocks_foldlM hb
  refine ⟨hafter.length.trans hlen, fun i b hget => ?_⟩
  rcases hafter.added i b hget with hold | ⟨hmem, -⟩
  · exact hblocks i b hold
  · have hi : i < (chunks BLOCK_SIZE body.initialState).length := by
      rw [← hlen, ← hafter.length]
      exact (List.getElem?_eq_some_iff.mp hget).1
    exact (hserved.blocks.2 _ hmem hi).symm

variable [DecidableEq StoreId] [ECGHeader Header HeaderId] [CRDT T Op (OperationId HeaderId)]
variable {cmd : Command H HeaderId Header Body}

/-- **No step leads away from the creator's data**, without any assumption on the hash. -/
theorem OnTrack.step (hc : Created body.initialState metadata body)
    (h : OnTrack metadata body OT sm)
    (hserved : cmd.isDownload = true → cmd.Served StoreId T metadata body)
    (hstep : PhaseStep OT cmd sm sm') : OnTrack metadata body OT sm' := by
  cases hstep with
  | metadata peer m hv ht =>
    obtain rfl := (hserved rfl).metadata_eq
    obtain ⟨tree', ht', hlen, -⟩ := newWithCapacity_spec m.merkleRoot hc.pos
    rw [ht] at ht'
    cases ht'
    refine ⟨rfl, ?_, within_newWithCapacity hc.root ht⟩
    rw [hlen, hc.count, hc.built.length, List.length_map]
  | merkle peer ranges nodes ht =>
    obtain ⟨rfl, hlen, ha⟩ := h
    obtain ⟨-, hnodes⟩ := (hserved rfl).hashes
    exact ⟨rfl, (setAll_keeps ht).length.trans hlen,
      (setAll_within hc.built.hashed ha hnodes ht).1⟩
  | complete ht =>
    obtain ⟨rfl, hlen, ha⟩ := h
    refine ⟨rfl, ha.complete hlen ht, ?_, fun i b hb => ?_⟩
    · rw [List.length_replicate, hc.count]
    · rw [List.getElem?_replicate] at hb
      split_ifs at hb
      cases hb
  | blocks peer ranges theirBlocks hb =>
    obtain ⟨rfl, rfl, hlen, hblocks⟩ := h
    exact ⟨rfl, rfl, blocks_of_served (hserved rfl) hlen hblocks hb⟩
  | syncing hn hl =>
    obtain ⟨rfl, rfl, hlen, hblocks⟩ := h
    exact ⟨rfl, rfl, flatten_blocks_eq hn hlen hblocks⟩
  | operations peer operations hf => exact h
  | apply header body hi ha => exact h

/-! ### What an answer brings -/

omit [Hash H] [DecidableEq H] [DecidableEq StoreId] [ECGHeader Header HeaderId] in
lemma length_missing_replicate (k : ℕ) : (missingBlocks (List.replicate k none)).length ≤ k := by
  refine (List.length_filterMap_le _ _).trans ?_
  rw [List.length_zipIdx, List.length_replicate]

omit [DecidableEq StoreId] [ECGHeader Header HeaderId] [CRDT T Op (OperationId HeaderId)] in
lemma missing_of_nodes (hc : Created body.initialState metadata body) {m : MetadataHeader H}
    {tree tree' : MerkleTree (Potential H)} {ranges : List Range} {nodes : List H}
    (h : OnTrack metadata body OT (.downloadingMerkle m tree :
      StateMachine StoreId H HeaderId Header T))
    (hserved : (Command.receivedMerkleHashes peer ranges nodes :
      Command H HeaderId Header Body).Served StoreId T metadata body)
    (ht : tree.setAll ((flattenRanges ranges).zip nodes) = .ok tree') (i : ℕ) :
    i ∈ tree'.missingIndices ↔ i ∈ tree.missingIndices ∧ i ∉ flattenRanges ranges := by
  obtain ⟨-, -, ha⟩ := h
  obtain ⟨hlen, hnodes⟩ := hserved.hashes
  rw [mem_missingIndices, mem_missingIndices, (setAll_within hc.built.hashed ha hnodes ht).2,
    List.map_fst_zip hlen.le]

omit [DecidableEq StoreId] [ECGHeader Header HeaderId] in
lemma missing_setBlocks {tree : MerkleTree H} {l : List (ℕ × Option (List UInt8))}
    {blocks blocks' : List (Option (List UInt8))}
    (hl : ∀ c ∈ l, ∃ b, c.2 = some b ∧ tree.validateChunk c.1 b = .ok true)
    (h : l.foldlM (setBlock tree) blocks = .ok blocks') (i : ℕ) :
    i ∈ missingBlocks blocks' ↔ i ∈ missingBlocks blocks ∧ i ∉ l.map Prod.fst := by
  induction l generalizing blocks with
  | nil =>
    cases h
    simp
  | cons c l ih =>
    obtain ⟨k, their⟩ := c
    rw [List.foldlM_cons] at h
    obtain ⟨blocks₁, hset, h⟩ := bind_eq_ok.mp h
    rw [ih (fun c hc => hl c (List.mem_cons_of_mem _ hc)) h, List.map_cons, List.mem_cons, not_or,
      ← and_assoc]
    refine and_congr_left fun _ => ?_
    obtain ⟨b, heq, hv⟩ := hl _ List.mem_cons_self
    dsimp only at heq hv ⊢
    subst heq
    simp only [setBlock] at hset
    obtain ⟨old, hold, hset⟩ := bind_eq_ok.mp hset
    have hget := index_eq_ok.mp hold
    have hlt := (List.getElem?_eq_some_iff.mp hget).1
    rw [mem_missingBlocks, mem_missingBlocks]
    cases old with
    | some old =>
      cases hset
      refine ⟨fun hi => ⟨hi, ?_⟩, And.left⟩
      rintro rfl
      rw [hget] at hi
      cases hi
    | none =>
      simp only [Option.isNone_none, if_true, hv, ok_bind, assign_of_lt hlt] at hset
      cases hset
      by_cases hik : k = i
      · subst hik
        rw [List.getElem?_set_self hlt]
        simp
      · rw [List.getElem?_set_ne hik]
        simp [Ne.symm hik]

omit [DecidableEq StoreId] [ECGHeader Header HeaderId] [CRDT T Op (OperationId HeaderId)] in
lemma missing_of_blocks (hc : Created body.initialState metadata body)
    {theirBlocks blocks blocks' : List (Option (List UInt8))} {ranges : List Range}
    (hserved : (Command.receivedInitialStateBlocks peer ranges theirBlocks :
      Command H HeaderId Header Body).Served StoreId T metadata body)
    (hrange : ∀ i ∈ flattenRanges ranges, i < metadata.blockCount)
    (hb : ((flattenRanges ranges).zip theirBlocks).foldlM (setBlock body.merkleTree) blocks =
      .ok blocks') (i : ℕ) :
    i ∈ missingBlocks blocks' ↔ i ∈ missingBlocks blocks ∧ i ∉ flattenRanges ranges := by
  obtain ⟨hlen, hall⟩ := hserved.blocks
  rw [missing_setBlocks (fun c hmem => ?_) hb, List.map_fst_zip hlen.le]
  have hlt : c.1 < (chunks BLOCK_SIZE body.initialState).length := by
    rw [← hc.count]
    exact hrange c.1 (List.of_mem_zip (show (c.1, c.2) ∈ _ from hmem)).1
  have hget := List.getElem?_eq_getElem hlt
  refine ⟨_, (hall c hmem hlt).trans hget, ?_⟩
  rw [hc.built.validateChunk hget]
  simp

/-- What may follow any command brings a download no further away from its end. -/
lemma remaining_of_changes (hc : Created body.initialState metadata body)
    {s s' : State StoreId H HeaderId Header T} {listeners : List Chan}
    (h : Changes OT listeners (.subscribeState 0) s s')
    (hon : OnTrack metadata body OT s.stateMachine) (hrank : s.stateMachine.rank ≠ 0) :
    s'.stateMachine.rank ≠ 0 ∧ s'.stateMachine.remaining metadata.blockCount ≤
      s.stateMachine.remaining metadata.blockCount := by
  have hall : OnTrack metadata body OT s'.stateMachine ∧ s'.stateMachine.rank ≠ 0 ∧
      s'.stateMachine.remaining metadata.blockCount ≤
        s.stateMachine.remaining metadata.blockCount := by
    induction h with
    | refl => exact ⟨hon, hrank, le_rfl⟩
    | @tail t t' _ hchange ih =>
      obtain ⟨hon, hrank, hle⟩ := ih
      rcases hchange.phaseStep with heq | hstep
      · rw [heq]
        exact ⟨hon, hrank, hle⟩
      refine ⟨hon.step hc (fun hd => (by cases hd)) hstep, ?_⟩
      revert hstep hon hle
      generalize t.stateMachine = sm
      generalize t'.stateMachine = sm'
      intro hon hle hstep
      cases hstep with
      | complete ht =>
        obtain ⟨hm, -⟩ := hon
        have hmissing := length_missing_replicate metadata.blockCount
        refine ⟨by simp [StateMachine.rank], le_trans ?_ hle⟩
        simp only [StateMachine.remaining, StateMachine.missing, hm]
        omega
      | syncing hn hl => exact ⟨by simp [StateMachine.rank], Nat.zero_le _⟩
  exact hall.2

variable {s s' : State StoreId H HeaderId Header T} {listeners : List Chan} {n : ℕ} {full : Prop}

/-- **Metadata that is served** starts the download. -/
theorem metadata_served (hc : Created body.initialState metadata body)
    (hon : OnTrack metadata body OT s.stateMachine)
    (h : s.handleReceivedMetadata OT peer metadata listeners = .ok s') :
    s'.stateMachine.rank ≠ 0 ∧
      s'.stateMachine.remaining metadata.blockCount ≤ 3 * metadata.blockCount := by
  obtain ⟨s₁, hready, h⟩ := bind_eq_ok.mp h
  have hsm := (touches_updateOutgoingPeerToReady hready).stateMachine_eq
  have hvalid : metadata.validateStoreId OT.into (s₁.stateMachine.storeId OT.into) = true := by
    rw [hsm, hon.storeId_eq]
    exact decide_eq_true rfl
  simp only [hvalid, Bool.not_true, Bool.false_eq_true, if_false] at h
  obtain ⟨tree, ht, h⟩ := bind_eq_ok.mp h
  obtain ⟨tree', ht', hlen, -⟩ := newWithCapacity_spec metadata.merkleRoot hc.pos
  rw [ht] at ht'
  cases ht'
  have hstep : PhaseStep OT (.receivedMetadata peer metadata :
      Command H HeaderId Header Body) s₁.stateMachine (.downloadingMerkle metadata tree) :=
    .metadata peer metadata hvalid ht
  have hstart : OnTrack metadata body OT (.downloadingMerkle metadata tree :
      StateMachine StoreId H HeaderId Header T) := by
    refine ⟨rfl, ?_, within_newWithCapacity hc.root ht⟩
    rw [hlen, hc.count, hc.built.length, List.length_map]
  have hmissing : tree.missingIndices.length ≤ 2 * metadata.blockCount - 1 := by
    refine (List.length_filterMap_le _ _).trans ?_
    rw [List.length_zipIdx, hlen]
  have hbound : (StateMachine.downloadingMerkle metadata tree :
      StateMachine StoreId H HeaderId Header T).remaining metadata.blockCount ≤
        3 * metadata.blockCount := by
    simp only [StateMachine.remaining, StateMachine.missing]
    omega
  split_ifs at h with hcount
  · obtain ⟨hrank, hle⟩ := remaining_of_changes hc
      (changes_updateStateToDownloadingInitialState rfl h) hstart
      (by simp [State.notifyMetadataSubscribers, StateMachine.rank])
    exact ⟨hrank, hle.trans hbound⟩
  · cases h
    exact ⟨by simp [State.notifyMetadataSubscribers, StateMachine.rank], hbound⟩

omit [DecidableEq StoreId] [ECGHeader Header HeaderId] [CRDT T Op (OperationId HeaderId)] in
lemma setAll_present {t t' : MerkleTree (Potential H)} {calls : List (ℕ × H)}
    (hp : ∀ c ∈ calls, t.nodes[c.1]? ≠ some .none) (h : t.setAll calls = .ok t') : t' = t := by
  induction calls with
  | nil =>
    cases h
    rfl
  | cons c calls ih =>
    obtain ⟨t₁, valid, hset, hrest⟩ := setAll_cons h
    obtain rfl := set_present (hp c List.mem_cons_self) hset
    exact ih (fun c hc => hp c (List.mem_cons_of_mem _ hc)) hrest

/-- **Hashes that are served**: the download comes forward if they were still missing. -/
theorem nodes_served (hc : Created body.initialState metadata body)
    (hon : OnTrack metadata body OT s.stateMachine) (hin : s.InOrder n full) {ranges : List Range}
    {nodes : List H} (hserved : (Command.receivedMerkleHashes peer ranges nodes :
      Command H HeaderId Header Body).Served StoreId T metadata body)
    (h : s.handleReceivedMerkleHashes OT peer ranges nodes listeners = .ok s') :
    ((Want.nodes ranges).Useful s.stateMachine → s'.stateMachine.rank ≠ 0 ∧
      s'.stateMachine.remaining metadata.blockCount <
        s.stateMachine.remaining metadata.blockCount) ∧
    (¬ (Want.nodes ranges).Useful s.stateMachine → s'.stateMachine = s.stateMachine) := by
  obtain ⟨s₁, hready, h⟩ := bind_eq_ok.mp h
  obtain ⟨hin₁, hsm⟩ := hin.ready hready
  rw [← hsm] at hon ⊢
  dsimp only at h
  rw [if_neg (not_not.mpr hserved.hashes.1)] at h
  cases hs : s₁.stateMachine with
  | downloadingMerkle m tree =>
    simp only [hs] at h
    obtain ⟨tree', ht, hrest⟩ := bind_eq_ok.mp h
    have hon₁ := hon
    rw [hs] at hon₁
    have hmissing := missing_of_nodes hc hon₁ hserved ht
    constructor
    · rintro ⟨-, i, hi, hi'⟩
      have hstep : PhaseStep OT (.receivedMerkleHashes peer ranges nodes :
          Command H HeaderId Header Body) s₁.stateMachine (.downloadingMerkle m tree') :=
        hs ▸ .merkle peer ranges nodes ht
      obtain ⟨hrank, hle⟩ := remaining_of_changes hc
        (changes_updateStateToDownloadingInitialState rfl hrest)
        (hon.step hc (fun _ => hserved) hstep) (by simp [StateMachine.rank])
      refine ⟨hrank, hle.trans_lt (Nat.add_lt_add_right ?_ _)⟩
      refine length_lt_of_subset nodup_missingIndices (fun k hk => ((hmissing k).mp hk).1) hi' ?_
      exact fun hk => ((hmissing i).mp hk).2 hi
    · intro hno
      have hsame : tree' = tree := setAll_present (fun c hmem hnone => hno ⟨rfl, c.1, ?_, ?_⟩) ht
      · subst hsame
        unfold updateStateToDownloadingInitialState at hrest
        have hnone : tree'.tryComplete = none :=
          Option.eq_none_iff_forall_ne_some.mpr fun _ => hin₁.tryComplete_ne hs
        simp only [hnone] at hrest
        cases hrest
        rfl
      · exact (List.of_mem_zip (show (c.1, c.2) ∈ _ from hmem)).1
      · exact mem_missingIndices.mpr hnone
  | downloadingMetadata _ =>
    simp only [hs] at h
    cases h
    exact ⟨fun hu => (by cases hu.1), fun _ => hs⟩
  | downloadingInitialState _ _ _ =>
    simp only [hs] at h
    cases h
    exact ⟨fun hu => (by cases hu.1), fun _ => hs⟩
  | syncing _ _ _ _ _ =>
    simp only [hs] at h
    cases h
    exact ⟨fun hu => (by cases hu.1), fun _ => hs⟩

omit [DecidableEq StoreId] [ECGHeader Header HeaderId] [CRDT T Op (OperationId HeaderId)] in
lemma setBlocks_present {tree : MerkleTree H} {l : List (ℕ × Option (List UInt8))}
    {blocks blocks' : List (Option (List UInt8))} (hp : ∀ c ∈ l, blocks[c.1]? ≠ some none)
    (h : l.foldlM (setBlock tree) blocks = .ok blocks') : blocks' = blocks := by
  induction l with
  | nil =>
    cases h
    rfl
  | cons c l ih =>
    rw [List.foldlM_cons] at h
    obtain ⟨blocks₁, hset, hrest⟩ := bind_eq_ok.mp h
    obtain rfl | ⟨b, -, hnone, -⟩ := setBlock_cases hset
    · exact ih (fun c hc => hp c (List.mem_cons_of_mem _ hc)) hrest
    · exact absurd hnone (hp c List.mem_cons_self)

/-- **Blocks that are served**: the download comes forward if they were still missing. -/
theorem blocks_served (hc : Created body.initialState metadata body)
    (hon : OnTrack metadata body OT s.stateMachine) (hin : s.InOrder n full) {ranges : List Range}
    {theirBlocks : List (Option (List UInt8))}
    (hserved : (Command.receivedInitialStateBlocks peer ranges theirBlocks :
      Command H HeaderId Header Body).Served StoreId T metadata body)
    (hrange : ∀ i ∈ flattenRanges ranges, i < metadata.blockCount)
    (h : s.handleReceivedInitialStateBlocks OT peer ranges theirBlocks listeners = .ok s') :
    ((Want.blocks ranges).Useful s.stateMachine → s'.stateMachine.rank ≠ 0 ∧
      s'.stateMachine.remaining metadata.blockCount <
        s.stateMachine.remaining metadata.blockCount) ∧
    (¬ (Want.blocks ranges).Useful s.stateMachine → s'.stateMachine = s.stateMachine) := by
  obtain ⟨s₁, hready, h⟩ := bind_eq_ok.mp h
  obtain ⟨hin₁, hsm⟩ := hin.ready hready
  rw [← hsm] at hon ⊢
  dsimp only at h
  rw [if_neg (not_not.mpr hserved.blocks.1)] at h
  cases hs : s₁.stateMachine with
  | downloadingInitialState m tree blocks =>
    simp only [hs] at h
    obtain ⟨blocks', hb, hrest⟩ := bind_eq_ok.mp h
    have htree : tree = body.merkleTree := by
      rw [hs] at hon
      exact hon.2.1
    subst htree
    constructor
    · rintro ⟨-, i, hi, hi'⟩
      have hmissing := missing_of_blocks hc hserved hrange hb
      have hstep : PhaseStep OT (.receivedInitialStateBlocks peer ranges theirBlocks :
          Command H HeaderId Header Body) s₁.stateMachine
            (.downloadingInitialState m body.merkleTree blocks') :=
        hs ▸ .blocks peer ranges theirBlocks hb
      have hlt : (missingBlocks blocks').length < (missingBlocks blocks).length := by
        refine length_lt_of_subset (nodup_missingBlocks _) (fun k hk => ((hmissing k).mp hk).1) hi' ?_
        exact fun hk => ((hmissing i).mp hk).2 hi
      split_ifs at hrest with hany
      · cases hrest
        exact ⟨by simp [StateMachine.rank], hlt⟩
      · obtain ⟨hrank, hle⟩ := remaining_of_changes hc (changes_updateStateToSyncing rfl
          (fun hmem => hany (List.any_eq_true.mpr ⟨none, hmem, rfl⟩)) hrest)
          (hon.step hc (fun _ => hserved) hstep) (by simp [StateMachine.rank])
        exact ⟨hrank, hle.trans_lt hlt⟩
    · intro hno
      have hsame : blocks' = blocks :=
        setBlocks_present (fun c hmem hnone => hno ⟨rfl, c.1, ?_, ?_⟩) hb
      · subst hsame
        have hnone : none ∈ blocks' := by
          have hi := hin₁.incomplete
          rw [hs] at hi
          exact hi
        rw [if_pos (List.any_eq_true.mpr ⟨none, hnone, rfl⟩)] at hrest
        cases hrest
        rfl
      · exact (List.of_mem_zip (show (c.1, c.2) ∈ _ from hmem)).1
      · exact mem_missingBlocks.mpr hnone
  | downloadingMetadata _ =>
    simp only [hs] at h
    cases h
    exact ⟨fun hu => (by cases hu.1), fun _ => hs⟩
  | downloadingMerkle _ _ =>
    simp only [hs] at h
    cases h
    exact ⟨fun hu => (by cases hu.1), fun _ => hs⟩
  | syncing _ _ _ _ _ =>
    simp only [hs] at h
    cases h
    exact ⟨fun hu => (by cases hu.1), fun _ => hs⟩

/-! ### What is asked for -/

omit [Hash H] [DecidableEq H] [DecidableEq StoreId] [ECGHeader Header HeaderId]
  [CRDT T Op (OperationId HeaderId)]

lemma ne_nil_of_mem_chunks {α : Type} {k : ℕ} {l c : List α} (hk : 0 < k)
    (hc : c ∈ Util.chunks k l) : c ≠ [] := by
  obtain ⟨i, hi, rfl⟩ := List.mem_map.mp hc
  have hlt := List.mem_range.mp hi
  have hle : (i + 1) * k ≤ l.length + k - 1 := (Nat.le_div_iff_mul_le hk).mp hlt
  rw [Nat.succ_mul] at hle
  refine List.length_pos_iff.mp ?_
  rw [piece, List.length_take, List.length_drop]
  omega

lemma exists_missing_of_chunk {k : ℕ} {l c : List ℕ} {cs : List (List ℕ)} (hk : 0 < k)
    (hperm : cs.Perm (Util.chunks k l)) (hc : c ∈ cs) :
    ∃ i ∈ flattenRanges (compressConsecutiveIntoRanges c), i ∈ l := by
  have hmem := hperm.mem_iff.mp hc
  obtain ⟨i, hi⟩ := List.exists_mem_of_ne_nil _ (ne_nil_of_mem_chunks hk hmem)
  exact ⟨i, by rwa [flatten_compress], mem_of_mem_chunks hk hmem hi⟩

/-- **A request is for the phase**, and for something that is missing in it. -/
theorem useful_of_request {rng : Rng} {reqs : List (DeviceId × StoreSyncCommand HeaderId Header)}
    {r : DeviceId × StoreSyncCommand HeaderId Header} (h : s.syncRequests rng = .ok reqs)
    (hr : r ∈ reqs) : r.2.want.rank = s.stateMachine.rank ∧
      (s.stateMachine.rank ≠ 0 → s.stateMachine.rank ≠ 3 → r.2.want.Useful s.stateMachine) := by
  unfold syncRequests at h
  cases hs : s.stateMachine with
  | downloadingMetadata _ =>
    simp only [hs] at h
    cases h
    obtain ⟨p, -, rfl⟩ := List.mem_map.mp hr
    exact ⟨rfl, fun h0 => absurd rfl h0⟩
  | downloadingMerkle metadata tree =>
    simp only [hs] at h
    split_ifs at h
    cases h
    obtain ⟨c, hc, heq⟩ := List.mem_map.mp (List.of_mem_zip (show (r.1, r.2) ∈ _ from hr)).2
    rw [← heq]
    exact ⟨rfl, fun _ _ => ⟨rfl, exists_missing_of_chunk (by decide) (rng.perm_chunks _) hc⟩⟩
  | downloadingInitialState metadata tree blocks =>
    simp only [hs] at h
    split_ifs at h
    cases h
    obtain ⟨c, hc, heq⟩ := List.mem_map.mp (List.of_mem_zip (show (r.1, r.2) ∈ _ from hr)).2
    rw [← heq]
    exact ⟨rfl, fun _ _ => ⟨rfl, exists_missing_of_chunk (by decide) (rng.perm_chunks _) hc⟩⟩
  | syncing _ _ _ ecg _ =>
    simp only [hs] at h
    cases h
    obtain ⟨p, -, rfl⟩ := List.mem_map.mp hr
    exact ⟨rfl, fun _ h3 => absurd rfl h3⟩

end Served

/-! ### No answer fails -/

section Answers

variable {s s' s₁ : State StoreId H HeaderId Header T} {n : ℕ} {full : Prop} {peer : DeviceId}
variable [Hash H] {OT : OssaType StoreId H HeaderId Body T Op} {listeners : List Chan}
variable {metadata m : MetadataHeader H} {body : MetadataBody H}

omit [Hash H] in
lemma initialStateSize_ne_zero (h : 1 ≤ m.blockCount) : m.initialStateSize ≠ 0 := by
  intro h0
  have hzero : m.blockCount = 0 := by
    rw [MetadataHeader.blockCount, h0]
    rfl
  omega

lemma exists_updateStateToDownloadingInitialState (hn : 1 ≤ n)
    {tree : MerkleTree (Potential H)} (hs : s.stateMachine = .downloadingMerkle m tree)
    (hb : s.stateMachine.OfBlocks n full) (hw : s.Servable n full) :
    ∃ s', s.updateStateToDownloadingInitialState OT peer listeners = .ok s' := by
  rw [hs] at hb
  obtain ⟨hcount, htree, -⟩ := hb
  unfold updateStateToDownloadingInitialState
  simp only [hs]
  cases ht : tree.tryComplete with
  | none => exact ⟨s, rfl⟩
  | some merkleTree =>
    have hlen : merkleTree.nodes.length = 2 * n - 1 := (length_tryComplete ht).trans htree
    obtain ⟨notices, hnotices⟩ := exists_mapM_ok (l := s.merkleSubscribers.toList)
      (f := (merkleNotice peer merkleTree : _ → Exec (Sent StoreId H HeaderId Header T)))
      fun sub hsub => by
        obtain ⟨hashes, hh⟩ := exists_handleMerklePeerRequestHelper hlen (hw.merkle sub hsub)
        rw [merkleNotice]
        split_ifs
        · exact ⟨_, rfl⟩
        · exact ⟨_, by rw [hh]; rfl⟩
    simp only [notifyMerkleSubscribers, hnotices, ok_bind, pure_eq_ok,
      if_neg (initialStateSize_ne_zero (hcount.ge.trans' hn))]
    exact ⟨_, rfl⟩

lemma exists_updateStateToSyncing {tree : MerkleTree H} {blocks : List (Option (List UInt8))}
    {latest : T} (hs : s.stateMachine = .downloadingInitialState m tree blocks)
    (hparse : OT.fromSlice (blocks.filterMap id).flatten = some latest)
    (hb : s.stateMachine.OfBlocks n full) (hn : none ∉ blocks) (hw : s.Servable n full) :
    ∃ s', s.updateStateToSyncing OT peer listeners = .ok s' := by
  rw [hs] at hb
  obtain ⟨hcount, htree, hlen, hfull⟩ := hb
  have hsm : StateMachine.OfBlocks n full (.syncing m tree (blocks.filterMap id).flatten
      .new latest : StateMachine StoreId H HeaderId Header T) :=
    ⟨hcount, htree, fun h => (hfull h).length_flatten hlen hn⟩
  obtain ⟨subs, heq, -⟩ := updateListeners_spec
    (s := s.withPhase (.syncing m tree (blocks.filterMap id).flatten .new latest))
    listeners latest .new (some peer)
  obtain ⟨notices, hnotices⟩ := exists_mapM_ok (l := s.blockSubscribers.toList)
    (f := blockNotice (.syncing m tree (blocks.filterMap id).flatten .new latest :
      StateMachine StoreId H HeaderId Header T)) fun sub hsub => by
    obtain ⟨hf, hr⟩ := hw.blocks sub hsub
    obtain ⟨served, hserved, hsome⟩ := exists_handleBlockPeerRequestHelper hsm hf hr
    obtain ⟨served, rfl⟩ := Option.isSome_iff_exists.mp (hsome rfl)
    exact ⟨_, by rw [blockNotice, hserved]; rfl⟩
  unfold updateStateToSyncing
  rw [withPhase] at heq
  simp only [hs, hparse, orFault_some, ok_bind, heq, notifyBlockSubscribers, hnotices]
  exact ⟨_, rfl⟩

lemma exists_handleReceivedMetadata [DecidableEq StoreId] (hc : Created body.initialState metadata body)
    (hin : s.InOrder metadata.blockCount full) (hr : s.updateOutgoingPeerToReady peer = .ok s₁) :
    ∃ s', s.handleReceivedMetadata OT peer metadata listeners = .ok s' := by
  obtain ⟨hin₁, hsame⟩ := hin.ready hr
  unfold handleReceivedMetadata
  simp only [hr, ok_bind]
  cases metadata.validateStoreId OT.into (s₁.stateMachine.storeId OT.into) with
  | false => exact ⟨s₁, rfl⟩
  | true =>
    obtain ⟨tree, htree, hlen, hsound⟩ := newWithCapacity_spec metadata.merkleRoot hc.pos
    simp only [Bool.not_true, Bool.false_eq_true, if_false, htree, ok_bind]
    split_ifs with hone
    · exact exists_updateStateToDownloadingInitialState hc.pos rfl ⟨rfl, hlen, _, hsound⟩
        ⟨hin₁.servable.merkle, hin₁.servable.blocks⟩
    · exact ⟨_, rfl⟩

variable [DecidableEq H]

lemma exists_handleReceivedMerkleHashes (hn : 1 ≤ n) (hin : s.InOrder n full)
    (hr : s.updateOutgoingPeerToReady peer = .ok s₁) (ranges : List Range) (nodes : List H) :
    ∃ s', s.handleReceivedMerkleHashes OT peer ranges nodes listeners = .ok s' := by
  obtain ⟨hin₁, -⟩ := hin.ready hr
  unfold handleReceivedMerkleHashes
  simp only [hr, ok_bind]
  split_ifs with hlen
  · exact ⟨s₁, rfl⟩
  cases hs : s₁.stateMachine with
  | downloadingMerkle m tree =>
    have hb := hin₁.blocks
    rw [hs] at hb
    obtain ⟨hcount, htree, root, hsound⟩ := hb
    obtain ⟨tree', hset, hsound', hkeeps⟩ := setAll_spec hsound ((flattenRanges ranges).zip nodes)
    simp only [hset, ok_bind]
    exact exists_updateStateToDownloadingInitialState hn rfl
      ⟨hcount, hkeeps.length.trans htree, root, hsound'⟩
      ⟨hin₁.servable.merkle, hin₁.servable.blocks⟩
  | _ => exact ⟨s₁, rfl⟩

lemma exists_handleReceivedInitialStateBlocks (hon : OnTrack metadata body OT s.stateMachine)
    (hin : s.InOrder n full) (hr : s.updateOutgoingPeerToReady peer = .ok s₁)
    {latest : T} (hparse : OT.fromSlice body.initialState = some latest) {ranges : List Range}
    {theirBlocks : List (Option (List UInt8))}
    (hserved : (Command.receivedInitialStateBlocks peer ranges theirBlocks :
      Command H HeaderId Header Body).Served StoreId T metadata body)
    (hids : ∀ i ∈ flattenRanges ranges, i < n)
    (hacc : full → s.AcceptsFull n ((flattenRanges ranges).zip theirBlocks)) :
    ∃ s', s.handleReceivedInitialStateBlocks OT peer ranges theirBlocks listeners = .ok s' := by
  obtain ⟨hin₁, hsame⟩ := hin.ready hr
  unfold handleReceivedInitialStateBlocks
  simp only [hr, ok_bind]
  split_ifs with hlen
  · exact ⟨s₁, rfl⟩
  rw [← hsame] at hon
  cases hs : s₁.stateMachine with
  | downloadingInitialState m tree blocks =>
    have hb := hin₁.blocks
    rw [hs] at hb hon
    obtain ⟨hcount, htree, hblocks, hfull⟩ := hb
    obtain ⟨-, rfl, honlen, hon⟩ := hon
    obtain ⟨blocks', hset, hlen', hfull'⟩ := exists_setBlocks htree hblocks
      (l := (flattenRanges ranges).zip theirBlocks)
      (fun b hb => hids b.1 (List.of_mem_zip (show (b.1, b.2) ∈ _ from hb)).1) hfull
      (fun hf => hacc hf m body.merkleTree blocks (hsame ▸ hs))
    simp only [hset, ok_bind]
    split_ifs with hany
    · exact ⟨_, rfl⟩
    · have hall : none ∉ blocks' := fun hmem => hany (List.any_eq_true.mpr ⟨none, hmem, rfl⟩)
      obtain ⟨honlen', hon'⟩ := blocks_of_served hserved honlen hon hset
      have hbytes : OT.fromSlice (blocks'.filterMap id).flatten = some latest := by
        rw [flatten_blocks_eq hall honlen' hon', hparse]
      exact exists_updateStateToSyncing rfl hbytes ⟨hcount, htree, hlen', hfull'⟩ hall
        ⟨hin₁.servable.merkle, hin₁.servable.blocks⟩
  | _ => exact ⟨s₁, rfl⟩

variable [DecidableEq StoreId] [ECGHeader Header HeaderId] [CRDT T Op (OperationId HeaderId)]
variable {cmd : Command H HeaderId Header Body} {env : Environment}

/-- **An answer that is served is handled**, if the creator's initial state parses. -/
theorem exists_handleStore_of_served (hc : Created body.initialState metadata body)
    (hon : OnTrack metadata body OT s.stateMachine) (hin : s.InOrder metadata.blockCount full)
    {latest : T} (hparse : OT.fromSlice body.initialState = some latest)
    (hd : cmd.isDownload = true) (hserved : cmd.Served StoreId T metadata body)
    (hfits : cmd.Fits OT metadata.blockCount full s)
    (hids : ∀ i ∈ cmd.blockIds, i < metadata.blockCount)
    (hr : statusCall OT env s cmd = .ok s₁) :
    ∃ s', Handler.handleStore OT env listeners s cmd = .ok s' := by
  have hsend : ∀ {x : Exec (State StoreId H HeaderId Header T)}, (∃ t, x = .ok t) →
      ReturnsOr unparsed (State.InOrder metadata.blockCount full) x →
      ∃ s', (x >>= fun t => t.sendSyncRequests env.rng) = .ok s' := by
    rintro x ⟨t, rfl⟩ hx
    obtain ⟨t', heq, -⟩ := (hx.of_ok rfl).exists_sendSyncRequests env.rng
    exact ⟨t', heq⟩
  cases cmd with
  | receivedMetadata peer m =>
    obtain rfl := hserved.metadata_eq
    exact hsend (exists_handleReceivedMetadata hc hin hr)
      (returnsOr_handleReceivedMetadata hc.pos hin hr hfits)
  | receivedMerkleHashes peer ranges nodes =>
    exact hsend (exists_handleReceivedMerkleHashes hc.pos hin hr ranges nodes)
      (returnsOr_handleReceivedMerkleHashes hc.pos hin hr ranges nodes)
  | receivedInitialStateBlocks peer ranges blocks =>
    exact hsend (exists_handleReceivedInitialStateBlocks hon hin hr hparse hserved hids hfits)
      (returnsOr_handleReceivedInitialStateBlocks hin hr hids hfits)
  | _ => cases hd

end Answers

end Ossa.Store
