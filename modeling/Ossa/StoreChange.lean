import Ossa.StorePeers

/-!
What one command can change in a store.

A command is handled by a few changes, one after the other: it marks peers and sends requests,
and it moves the store from phase to phase. Each change of the phase answers, in the same
change, the peers that waited for it, so that an invariant of the changes is an invariant of
the handler.
-/

namespace Ossa.Store

open Ossa.Loop Ossa.Util Ossa.Collections Ossa.Ecg Ossa.Crdt Relation

variable {StoreId H HeaderId Header Body T Op : Type} [LinearOrder HeaderId]

/-- A message that is about peers only. -/
def Sent.IsPeerMessage : Sent StoreId H HeaderId Header T → Prop
  | .command _ _ => True
  | .requestStoreSync _ _ => True
  | .syncResponse _ _ => True
  | _ => False

namespace State

variable {s s' : State StoreId H HeaderId Header T} {peer : DeviceId} {listeners : List Chan}

/-- The store in another phase. -/
def withPhase (s : State StoreId H HeaderId Header T)
    (sm : StateMachine StoreId H HeaderId Header T) : State StoreId H HeaderId Header T :=
  { s with stateMachine := sm }

/-! ### Listeners -/

lemma foldl_updateSubscriber (ecgState : UntypedState HeaderId Header)
    (fromPeer : Option DeviceId) (l : List (DeviceId × Chan))
    (s : State StoreId H HeaderId Header T) :
    l.foldl (updateSubscriber ecgState fromPeer) s =
      { s with
        ecgSubscribers := (l.filter fun sub => some sub.1 = fromPeer).foldl
          (fun m sub => m.insert sub.1 sub.2) s.ecgSubscribers
        sent := s.sent ++ (l.filter fun sub => some sub.1 ≠ fromPeer).map fun sub =>
          .ecg sub.2 ecgState } := by
  induction l generalizing s with
  | nil => simp
  | cons sub l ih =>
    rw [List.foldl_cons, ih, updateSubscriber]
    by_cases h : some sub.1 = fromPeer
    · simp [h]
    · simp [h, State.send]

lemma getElem?_foldl_insert {α β : Type} [LinearOrder α] (l : List (α × β)) (m : BTreeMap α β)
    (hl : (l.map Prod.fst).Nodup) (a : α) (v : β) :
    (l.foldl (fun m e => m.insert e.1 e.2) m)[a]? = some v ↔
      (a, v) ∈ l ∨ a ∉ l.map Prod.fst ∧ m[a]? = some v := by
  induction l generalizing m with
  | nil => simp
  | cons e l ih =>
    obtain ⟨hn, hl⟩ := List.nodup_cons.mp hl
    rw [List.foldl_cons, ih _ hl, get_insert]
    by_cases ha : a = e.1
    · subst ha
      have hmem : (e.1, v) ∉ l := fun hc => hn (List.mem_map.mpr ⟨_, hc, rfl⟩)
      simp only [hmem, hn, not_false_iff, if_true, false_or, true_and, List.mem_cons, or_false,
        List.map_cons, not_true, false_and, Option.some.injEq]
      exact ⟨fun h => Prod.ext rfl h.symm, fun h => (congrArg Prod.snd h).symm⟩
    · have hne : (a, v) ≠ e := fun hc => ha (congrArg Prod.fst hc)
      simp [ha, hne]

/-- The messages of `update_listeners`. -/
def updates (s : State StoreId H HeaderId Header T) (listeners : List Chan) (latestState : T)
    (ecgState : UntypedState HeaderId Header) (fromPeer : Option DeviceId) :
    List (Sent StoreId H HeaderId Header T) :=
  (listeners.map fun l => .stateUpdate l (.snapshot latestState ecgState)) ++
    (s.ecgSubscribers.toList.filter fun sub => some sub.1 ≠ fromPeer).map fun sub =>
      .ecg sub.2 ecgState

/-- **All subscribers are told but the peer the update comes from**, which stays. -/
theorem updateListeners_spec (listeners : List Chan) (latestState : T)
    (ecgState : UntypedState HeaderId Header) (fromPeer : Option DeviceId) :
    ∃ subs, s.updateListeners listeners latestState ecgState fromPeer =
        { s with
          ecgSubscribers := subs
          sent := s.sent ++ s.updates listeners latestState ecgState fromPeer } ∧
      ∀ p, subs[p]? = if some p = fromPeer then s.ecgSubscribers[p]? else none := by
  refine ⟨(s.ecgSubscribers.toList.filter fun sub => some sub.1 = fromPeer).foldl
    (fun m sub => m.insert sub.1 sub.2) ∅, ?_, fun p => ?_⟩
  · rw [updateListeners, foldl_updateSubscriber, List.append_assoc, updates]
  · refine Option.ext fun v => ?_
    have hnodup : ((s.ecgSubscribers.toList.filter fun sub => decide (some sub.1 = fromPeer)).map
        Prod.fst).Nodup := (nodup_keys s.ecgSubscribers).sublist (List.filter_sublist.map _)
    refine (getElem?_foldl_insert _ _ hnodup p v).trans ?_
    rw [List.mem_filter, mem_toList]
    by_cases h : some p = fromPeer
    · simp [h]
    · simp [h]

@[simp] lemma updateListeners_stateMachine (latestState : T)
    (ecgState : UntypedState HeaderId Header) (fromPeer : Option DeviceId) :
    (s.updateListeners listeners latestState ecgState fromPeer).stateMachine = s.stateMachine := by
  obtain ⟨subs, heq, -⟩ := updateListeners_spec (s := s) listeners latestState ecgState fromPeer
  rw [heq]

lemma insertKnownPeer_eq (s : State StoreId H HeaderId Header T) (peer : DeviceId) :
    ∃ peers, s.insertKnownPeer peer = s.AfterPeers peers [] := by
  unfold insertKnownPeer
  split_ifs
  · exact ⟨s.peers, afterPeers_self.symm⟩
  · exact ⟨_, by rw [AfterPeers, List.append_nil]⟩

/-! ### Waiting peers -/

lemma notifyMerkleSubscribers_ok {merkleTree : MerkleTree H}
    (h : s.notifyMerkleSubscribers peer merkleTree = .ok s') : ∃ notices,
      s.merkleSubscribers.toList.mapM (merkleNotice peer merkleTree) = .ok notices ∧
      s' = { s with merkleSubscribers := ∅, sent := s.sent ++ notices } := by
  obtain ⟨notices, hn, heq⟩ := bind_eq_ok.mp h
  cases heq
  exact ⟨notices, hn, rfl⟩

lemma notifyBlockSubscribers_ok (h : s.notifyBlockSubscribers = .ok s') : ∃ notices,
      s.blockSubscribers.toList.mapM (blockNotice s.stateMachine) = .ok notices ∧
      s' = { s with blockSubscribers := ∅, sent := s.sent ++ notices } := by
  obtain ⟨notices, hn, heq⟩ := bind_eq_ok.mp h
  cases heq
  exact ⟨notices, hn, rfl⟩

lemma updateStateToSyncing_ok {OT : OssaType StoreId H HeaderId Body T Op}
    (h : s.updateStateToSyncing OT peer listeners = .ok s') :
    ∃ metadata tree blocks latest notices subs,
      s.stateMachine = .downloadingInitialState metadata tree blocks ∧
      OT.fromSlice (blocks.filterMap id).flatten = some latest ∧
      s.blockSubscribers.toList.mapM (blockNotice (.syncing metadata tree
        (blocks.filterMap id).flatten (.new : UntypedState HeaderId Header) latest)) =
          .ok notices ∧
      (∀ p, subs[p]? = if some p = some peer then s.ecgSubscribers[p]? else none) ∧
      s' = { s with
        stateMachine := .syncing metadata tree (blocks.filterMap id).flatten .new latest
        ecgSubscribers := subs
        blockSubscribers := ∅
        sent := s.sent ++ s.updates listeners latest .new (some peer) ++ notices } := by
  unfold updateStateToSyncing at h
  cases hs : s.stateMachine with
  | downloadingInitialState metadata tree blocks =>
    simp only [hs] at h
    obtain ⟨latest, hl, h⟩ := bind_eq_ok.mp h
    obtain ⟨subs, heq, hsubs⟩ := updateListeners_spec
      (s := s.withPhase (.syncing metadata tree (blocks.filterMap id).flatten .new latest))
      listeners latest .new (some peer)
    rw [withPhase] at heq
    rw [heq] at h
    obtain ⟨notices, hn, rfl⟩ := notifyBlockSubscribers_ok h
    exact ⟨metadata, tree, blocks, latest, notices, subs, rfl, orFault_eq_ok.mp hl, hn, hsubs, rfl⟩
  | downloadingMetadata _ => simp only [hs] at h; cases h
  | downloadingMerkle _ _ => simp only [hs] at h; cases h
  | syncing _ _ _ _ _ => simp only [hs] at h; cases h

/-! ### Peers -/

/-- Only the peers changed, and messages about peers were sent. -/
def Touches (s s' : State StoreId H HeaderId Header T) : Prop :=
  ∃ peers l, (∀ m ∈ l, m.IsPeerMessage) ∧ s' = s.AfterPeers peers l

variable {peers : BTreeMap DeviceId PeerInfo} {s'' : State StoreId H HeaderId Header T}

lemma touches_afterPeers : s.Touches (s.AfterPeers peers []) := ⟨peers, [], by simp, rfl⟩

lemma Touches.trans (h : s.Touches s') (h' : s'.Touches s'') : s.Touches s'' := by
  obtain ⟨peers, l, hl, rfl⟩ := h
  obtain ⟨peers', l', hl', rfl⟩ := h'
  refine ⟨peers', l ++ l', fun m hm => ?_, afterPeers_afterPeers _ _ _ _⟩
  exact (List.mem_append.mp hm).elim (hl m) (hl' m)

lemma touches_send (m : Sent StoreId H HeaderId Header T) (hm : m.IsPeerMessage) :
    s.Touches (s.send m) :=
  ⟨s.peers, [m], by simpa using hm, rfl⟩

lemma touches_sendSyncRequests {rng : Rng} (h : s.sendSyncRequests rng = .ok s') :
    s.Touches s' := by
  obtain ⟨reqs, peers, -, rfl, -⟩ := sendSyncRequests_ok h
  refine ⟨peers, _, fun m hm => ?_, rfl⟩
  obtain ⟨r, -, rfl⟩ := List.mem_map.mp hm
  trivial

lemma touches_updateOutgoingPeerToReady (h : s.updateOutgoingPeerToReady peer = .ok s') :
    s.Touches s' := by
  obtain ⟨info, b, -, -, rfl⟩ := updateOutgoingPeerToReady_ok h
  exact touches_afterPeers

lemma touches_updatePeerToInitializing {A : Type} {d : PeerInfo.Direction A}
    (h : s.updatePeerToInitializing peer d = .ok s') : s.Touches s' := by
  obtain ⟨info, -, -, rfl⟩ := updatePeerToInitializing_ok h
  exact touches_afterPeers

lemma touches_updatePeerToSyncing {A : Type} {d : PeerInfo.Direction A} {a : A}
    (h : s.updatePeerToSyncing peer d a = .ok s') : s.Touches s' := by
  obtain ⟨info, -, -, rfl⟩ := updatePeerToSyncing_ok h
  exact touches_afterPeers

lemma Touches.refl (s : State StoreId H HeaderId Header T) : s.Touches s :=
  ⟨s.peers, [], by simp, afterPeers_self.symm⟩

lemma touches_insertKnownPeers (peers : List DeviceId) :
    s.Touches (peers.foldl insertKnownPeer s) := by
  induction peers generalizing s with
  | nil => exact .refl s
  | cons p peers ih =>
    obtain ⟨m, hm⟩ := insertKnownPeer_eq s p
    refine Touches.trans ?_ ih
    rw [hm]
    exact touches_afterPeers

lemma touches_managePeers [Hash H] {into : H → StoreId} {connected : DeviceId → Bool}
    (h : s.managePeers into connected = .ok s') : s.Touches s' := by
  refine foldlM_invariant (I := s.Touches) h (.refl s)
    fun t t' p _ ht hstep => ?_
  obtain ⟨t₁, hp, heq⟩ := bind_eq_ok.mp hstep
  cases heq
  exact ht.trans ((touches_updatePeerToInitializing hp).trans (touches_send _ trivial))

lemma touches_syncWithPeer {chan : Chan} (h : s.syncWithPeer peer chan = .ok s') :
    s.Touches s' := by
  obtain ⟨info, hinfo, h⟩ := bind_eq_ok.mp h
  refine (touches_insertKnownPeers [peer]).trans ?_
  split_ifs at h with hk
  · obtain ⟨s₁, hp, heq⟩ := bind_eq_ok.mp h
    cases heq
    exact (touches_updatePeerToInitializing hp).trans (touches_send _ trivial)
  · cases h
    exact touches_send _ trivial

end State

/-! ### The changes -/

open State

variable [Hash H] [DecidableEq H] [DecidableEq StoreId]
variable [ECGHeader Header HeaderId] [CRDT T Op (OperationId HeaderId)]
variable (OT : OssaType StoreId H HeaderId Body T Op)

/-- One change that handling a command can make to the data of a store. -/
inductive Change (listeners : List Chan) : Command H HeaderId Header Body →
    State StoreId H HeaderId Header T → State StoreId H HeaderId Header T → Prop
  | metadata {s tree} (peer : DeviceId) (metadata : MetadataHeader H)
    (hv : metadata.validateStoreId OT.into (s.stateMachine.storeId OT.into) = true)
    (ht : MerkleTree.newWithCapacity metadata.merkleRoot metadata.blockCount = .ok tree) :
    Change listeners (.receivedMetadata peer metadata) s
      ((s.withPhase (.downloadingMerkle metadata tree)).notifyMetadataSubscribers peer metadata)
  | merkle {s metadata tree tree'} (peer : DeviceId) (ranges : List Range) (nodes : List H)
    (hs : s.stateMachine = .downloadingMerkle metadata tree)
    (ht : tree.setAll ((flattenRanges ranges).zip nodes) = .ok tree') :
    Change listeners (.receivedMerkleHashes peer ranges nodes) s
      (s.withPhase (.downloadingMerkle metadata tree'))
  | complete {cmd s s' metadata tree merkleTree} (peer : DeviceId)
    (hs : s.stateMachine = .downloadingMerkle metadata tree)
    (ht : tree.tryComplete = some merkleTree)
    (hn : (s.withPhase (.downloadingInitialState metadata merkleTree
      (List.replicate metadata.blockCount none))).notifyMerkleSubscribers peer merkleTree = .ok s') :
    Change listeners cmd s s'
  | blocks {s metadata tree blocks blocks'} (peer : DeviceId) (ranges : List Range)
    (theirBlocks : List (Option (List UInt8)))
    (hs : s.stateMachine = .downloadingInitialState metadata tree blocks)
    (hb : ((flattenRanges ranges).zip theirBlocks).foldlM (setBlock tree) blocks = .ok blocks') :
    Change listeners (.receivedInitialStateBlocks peer ranges theirBlocks) s
      (s.withPhase (.downloadingInitialState metadata tree blocks'))
  | syncing {cmd s s' metadata tree blocks} (peer : DeviceId)
    (hs : s.stateMachine = .downloadingInitialState metadata tree blocks)
    (hb : none ∉ blocks) (hn : s.updateStateToSyncing OT peer listeners = .ok s') :
    Change listeners cmd s s'
  | operations {s metadata tree initialState ecg latest ecg' latest'} (peer : DeviceId)
    (operations : List (Header × RawECGBody))
    (hs : s.stateMachine = .syncing metadata tree initialState ecg latest)
    (hf : operations.foldlM (receiveOperation OT) (ecg, latest) = .ok (ecg', latest')) :
    Change listeners (.receivedECGOperations peer operations) s
      ((s.withPhase (.syncing metadata tree initialState ecg' latest')).updateListeners listeners
        latest' ecg' (some peer))
  | apply {s metadata tree initialState ecg latest ecg' latest'} (header : Header) (body : Body)
    (hs : s.stateMachine = .syncing metadata tree initialState ecg latest)
    (hi : ecg.insertHeader header (OT.bodyToVec body) = (ecg', true))
    (ha : applyOperations OT latest ecg' header body = .ok latest') :
    Change listeners (.apply header body) s
      ((s.withPhase (.syncing metadata tree initialState ecg' latest')).updateListeners listeners
        latest' ecg' none)
  | subscribeState {s} (chan : Chan) : Change listeners (.subscribeState chan) s
      (s.send (.stateUpdate chan (snapshot s.stateMachine)))
  | metadataRequest {s} (peer : DeviceId) (chan : Chan) :
    Change listeners (.handleMetadataPeerRequest peer chan) s
      (s.handleMetadataPeerRequest peer chan)
  | merkleRequest {s s'} (peer : DeviceId) (ranges : List Range) (chan : Chan)
    (hr : s.handleMerklePeerRequest peer ranges chan = .ok s') :
    Change listeners (.handleMerklePeerRequest peer ranges chan) s s'
  | blockRequest {s s'} (peer : DeviceId) (ranges : List Range) (chan : Chan)
    (hr : s.handleBlockPeerRequest peer ranges chan = .ok s') :
    Change listeners (.handleBlockPeerRequest peer ranges chan) s s'
  | subscribeECG {s} (peer : DeviceId) (tips : Option (BTreeSet HeaderId)) (chan : Chan) :
    Change listeners (.subscribeECG peer tips chan) s (s.handleEcgSubscribe peer tips chan)

variable {OT} {s s' : State StoreId H HeaderId Header T} {peer : DeviceId}
variable {listeners : List Chan} {cmd : Command H HeaderId Header Body}

/-- The changes of a command to the data, one after the other. -/
abbrev Changes (OT : OssaType StoreId H HeaderId Body T Op) (listeners : List Chan)
    (cmd : Command H HeaderId Header Body) :=
  ReflTransGen (Change (T := T) OT listeners cmd)

/-- All that a command does: changes of the data, and dealings with peers. -/
abbrev Effects (OT : OssaType StoreId H HeaderId Body T Op) (listeners : List Chan)
    (cmd : Command H HeaderId Header Body) :=
  ReflTransGen fun s s' : State StoreId H HeaderId Header T =>
    Change OT listeners cmd s s' ∨ Touches s s'

lemma effects_of_changes (h : Changes OT listeners cmd s s') : Effects OT listeners cmd s s' :=
  ReflTransGen.mono (fun _ _ => Or.inl) _ _ h

lemma effects_of_touches (h : Touches s s') : Effects OT listeners cmd s s' := .single (Or.inr h)

lemma changes_updateStateToSyncing {metadata : MetadataHeader H} {tree : MerkleTree H}
    {blocks : List (Option (List UInt8))}
    (hs : s.stateMachine = .downloadingInitialState metadata tree blocks) (hb : none ∉ blocks)
    (h : s.updateStateToSyncing OT peer listeners = .ok s') : Changes OT listeners cmd s s' :=
  .single (.syncing peer hs hb h)

lemma changes_updateStateToDownloadingInitialState {metadata : MetadataHeader H}
    {tree : MerkleTree (Potential H)} (hs : s.stateMachine = .downloadingMerkle metadata tree)
    (h : s.updateStateToDownloadingInitialState OT peer listeners = .ok s') :
    Changes OT listeners cmd s s' := by
  unfold updateStateToDownloadingInitialState at h
  simp only [hs] at h
  cases hc : tree.tryComplete with
  | none =>
    simp only [hc] at h
    cases h
    exact .refl
  | some merkleTree =>
    simp only [hc] at h
    obtain ⟨s₁, hn, h⟩ := bind_eq_ok.mp h
    refine .head (.complete peer hs hc hn) ?_
    split_ifs at h with hsize
    · obtain ⟨notices, -, rfl⟩ := notifyMerkleSubscribers_ok hn
      -- Without any bytes there are no blocks.
      have hcount : metadata.blockCount = 0 := by
        rw [MetadataHeader.blockCount, hsize]
        rfl
      exact changes_updateStateToSyncing rfl (by simp [hcount]) h
    · cases h
      exact .refl

lemma handleReceivedMetadata_ok {metadata : MetadataHeader H}
    (h : s.handleReceivedMetadata OT peer metadata listeners = .ok s') :
    ∃ s₁, s.updateOutgoingPeerToReady peer = .ok s₁ ∧ (s' = s₁ ∨ ∃ tree,
      metadata.validateStoreId OT.into (s₁.stateMachine.storeId OT.into) = true ∧
      MerkleTree.newWithCapacity metadata.merkleRoot metadata.blockCount = .ok tree ∧
      ∀ cmd : Command H HeaderId Header Body, Changes OT listeners cmd
        ((s₁.withPhase (.downloadingMerkle metadata tree)).notifyMetadataSubscribers peer metadata)
        s') := by
  obtain ⟨s₁, hready, h⟩ := bind_eq_ok.mp h
  refine ⟨s₁, hready, ?_⟩
  by_cases hv : metadata.validateStoreId OT.into (s₁.stateMachine.storeId OT.into) = true
  · simp only [hv, Bool.not_true, Bool.false_eq_true, if_false] at h
    obtain ⟨tree, ht, h⟩ := bind_eq_ok.mp h
    refine Or.inr ⟨tree, hv, ht, fun cmd => ?_⟩
    split_ifs at h with hcount
    · exact changes_updateStateToDownloadingInitialState rfl h
    · cases h
      exact .refl
  · simp only [hv, Bool.not_false, if_true] at h
    cases h
    exact Or.inl rfl

lemma changes_handleReceivedMetadata {metadata : MetadataHeader H}
    (h : s.handleReceivedMetadata OT peer metadata listeners = .ok s') :
    ∃ s₁, s.updateOutgoingPeerToReady peer = .ok s₁ ∧
      Changes OT listeners (.receivedMetadata peer metadata) s₁ s' := by
  obtain ⟨s₁, hready, rfl | ⟨tree, hv, ht, hc⟩⟩ := handleReceivedMetadata_ok h
  · exact ⟨_, hready, .refl⟩
  · exact ⟨s₁, hready, .head (.metadata peer metadata hv ht) (hc _)⟩

lemma changes_handleReceivedMerkleHashes {ranges : List Range} {nodes : List H}
    (h : s.handleReceivedMerkleHashes OT peer ranges nodes listeners = .ok s') :
    ∃ s₁, s.updateOutgoingPeerToReady peer = .ok s₁ ∧
      Changes OT listeners (.receivedMerkleHashes peer ranges nodes) s₁ s' := by
  obtain ⟨s₁, hready, h⟩ := bind_eq_ok.mp h
  refine ⟨s₁, hready, ?_⟩
  dsimp only at h
  split_ifs at h with hlen
  · cases h
    exact .refl
  · cases hs : s₁.stateMachine with
    | downloadingMerkle metadata tree =>
      simp only [hs] at h
      obtain ⟨tree', ht, h⟩ := bind_eq_ok.mp h
      exact .head (.merkle peer ranges nodes hs ht)
        (changes_updateStateToDownloadingInitialState rfl h)
    | downloadingMetadata _ => simp only [hs] at h; cases h; exact .refl
    | downloadingInitialState _ _ _ => simp only [hs] at h; cases h; exact .refl
    | syncing _ _ _ _ _ => simp only [hs] at h; cases h; exact .refl

lemma changes_handleReceivedInitialStateBlocks {ranges : List Range}
    {blocks : List (Option (List UInt8))}
    (h : s.handleReceivedInitialStateBlocks OT peer ranges blocks listeners = .ok s') :
    ∃ s₁, s.updateOutgoingPeerToReady peer = .ok s₁ ∧
      Changes OT listeners (.receivedInitialStateBlocks peer ranges blocks) s₁ s' := by
  obtain ⟨s₁, hready, h⟩ := bind_eq_ok.mp h
  refine ⟨s₁, hready, ?_⟩
  dsimp only at h
  split_ifs at h with hlen
  · cases h
    exact .refl
  · cases hs : s₁.stateMachine with
    | downloadingInitialState metadata tree blocks =>
      simp only [hs] at h
      obtain ⟨blocks', hb, h⟩ := bind_eq_ok.mp h
      refine .head (.blocks peer ranges _ hs hb) ?_
      split_ifs at h with hany
      · cases h
        exact .refl
      · refine changes_updateStateToSyncing rfl (fun hmem => hany ?_) h
        exact List.any_eq_true.mpr ⟨none, hmem, rfl⟩
    | downloadingMetadata _ => simp only [hs] at h; cases h; exact .refl
    | downloadingMerkle _ _ => simp only [hs] at h; cases h; exact .refl
    | syncing _ _ _ _ _ => simp only [hs] at h; cases h; exact .refl

lemma changes_handleReceivedECGOperations {operations : List (Header × RawECGBody)}
    (h : s.handleReceivedECGOperations OT peer operations listeners = .ok s') :
    ∃ s₁, s.updateOutgoingPeerToReady peer = .ok s₁ ∧
      Changes OT listeners (.receivedECGOperations peer operations) s₁ s' := by
  obtain ⟨s₁, hready, h⟩ := bind_eq_ok.mp h
  refine ⟨s₁, hready, ?_⟩
  cases hs : s₁.stateMachine with
  | syncing metadata tree initialState ecg latest =>
    simp only [hs] at h
    obtain ⟨⟨ecg', latest'⟩, hf, h⟩ := bind_eq_ok.mp h
    cases h
    exact .single (.operations peer operations hs hf)
  | downloadingMetadata _ => simp only [hs] at h; cases h
  | downloadingMerkle _ _ => simp only [hs] at h; cases h
  | downloadingInitialState _ _ _ => simp only [hs] at h; cases h

lemma changes_apply {header : Header} {body : Body} (h : s.apply OT header body listeners = .ok s') :
    Changes OT listeners (.apply header body) s s' := by
  unfold State.apply at h
  cases hs : s.stateMachine with
  | syncing metadata tree initialState ecg latest =>
    simp only [hs] at h
    split_ifs at h with hi
    obtain ⟨latest', ha, h⟩ := bind_eq_ok.mp h
    cases h
    exact .single (.apply header body hs (Prod.ext rfl hi) ha)
  | downloadingMetadata _ => simp only [hs] at h; cases h; exact .refl
  | downloadingMerkle _ _ => simp only [hs] at h; cases h; exact .refl
  | downloadingInitialState _ _ _ => simp only [hs] at h; cases h; exact .refl

/-- **What a command does.** -/
theorem handleStore_effects {env : Environment}
    (h : Handler.handleStore OT env listeners s cmd = .ok s') :
    Effects OT listeners cmd s s' := by
  have hreceived : ∀ {peer s₁ s₂}, s.updateOutgoingPeerToReady peer = .ok s₁ →
      Changes OT listeners cmd s₁ s₂ → s₂.sendSyncRequests env.rng = .ok s' →
      Effects OT listeners cmd s s' := fun hr hc hs =>
    (effects_of_touches (touches_updateOutgoingPeerToReady hr)).trans
      ((effects_of_changes hc).trans (effects_of_touches (touches_sendSyncRequests hs)))
  cases cmd with
  | apply header body => exact effects_of_changes (changes_apply h)
  | subscribeState chan => cases h; exact .single (Or.inl (.subscribeState chan))
  | registerPeers peers =>
    exact effects_of_touches ((touches_insertKnownPeers peers).trans (touches_managePeers h))
  | syncWithPeer peer chan => exact effects_of_touches (touches_syncWithPeer h)
  | registerOutgoingPeerSyncing peer =>
    obtain ⟨s₁, hp, h⟩ := bind_eq_ok.mp h
    exact effects_of_touches ((touches_updatePeerToSyncing hp).trans (touches_sendSyncRequests h))
  | registerIncomingPeerSyncing peer => exact effects_of_touches (touches_updatePeerToSyncing h)
  | handleMetadataPeerRequest peer chan =>
    cases h
    exact .single (Or.inl (.metadataRequest peer chan))
  | handleMerklePeerRequest peer ranges chan =>
    exact .single (Or.inl (.merkleRequest peer ranges chan h))
  | handleBlockPeerRequest peer ranges chan =>
    exact .single (Or.inl (.blockRequest peer ranges chan h))
  | receivedMetadata peer metadata =>
    obtain ⟨s₂, hp, h⟩ := bind_eq_ok.mp h
    obtain ⟨s₁, hr, hc⟩ := changes_handleReceivedMetadata hp
    exact hreceived hr hc h
  | receivedMerkleHashes peer ranges nodes =>
    obtain ⟨s₂, hp, h⟩ := bind_eq_ok.mp h
    obtain ⟨s₁, hr, hc⟩ := changes_handleReceivedMerkleHashes hp
    exact hreceived hr hc h
  | receivedInitialStateBlocks peer ranges blocks =>
    obtain ⟨s₂, hp, h⟩ := bind_eq_ok.mp h
    obtain ⟨s₁, hr, hc⟩ := changes_handleReceivedInitialStateBlocks hp
    exact hreceived hr hc h
  | receivedECGOperations peer operations =>
    obtain ⟨s₂, hp, h⟩ := bind_eq_ok.mp h
    obtain ⟨s₁, hr, hc⟩ := changes_handleReceivedECGOperations hp
    exact hreceived hr hc h
  | subscribeECG peer tips chan => cases h; exact .single (Or.inl (.subscribeECG peer tips chan))

/-! ### Peers stay -/

omit [Hash H] [DecidableEq H] [DecidableEq StoreId] [ECGHeader Header HeaderId] in
lemma State.updates_isData {latestState : T} {ecgState : UntypedState HeaderId Header}
    {fromPeer : Option DeviceId} {m : Sent StoreId H HeaderId Header T}
    (hm : m ∈ s.updates listeners latestState ecgState fromPeer) : ¬ m.IsPeerMessage := by
  rcases List.mem_append.mp hm with hm | hm
  · obtain ⟨l, -, rfl⟩ := List.mem_map.mp hm
    exact id
  · obtain ⟨sub, -, rfl⟩ := List.mem_map.mp hm
    exact id

omit [Hash H] [DecidableEq H] [DecidableEq StoreId] [ECGHeader Header HeaderId] in
lemma State.merkleNotice_ok {tree : MerkleTree H} {sub : DeviceId × List Range × Chan}
    {m : Sent StoreId H HeaderId Header T} (h : merkleNotice peer tree sub = .ok m) :
    ∃ reply, m = .notice sub.2.2 reply ∧ (sub.1 = peer ∧ reply = none ∨ sub.1 ≠ peer ∧
      ∃ hashes, handleMerklePeerRequestHelper tree sub.2.1 = .ok hashes ∧
        reply = some (.hashes hashes)) := by
  unfold merkleNotice at h
  split_ifs at h with hp
  · cases h
    exact ⟨none, rfl, Or.inl ⟨hp, rfl⟩⟩
  · obtain ⟨hashes, hh, heq⟩ := bind_eq_ok.mp h
    cases heq
    exact ⟨_, rfl, Or.inr ⟨hp, hashes, hh, rfl⟩⟩

omit [Hash H] [DecidableEq H] [DecidableEq StoreId] [ECGHeader Header HeaderId] in
lemma State.blockNotice_ok {sm : StateMachine StoreId H HeaderId Header T}
    {sub : DeviceId × List Range × Chan} {m : Sent StoreId H HeaderId Header T}
    (h : blockNotice sm sub = .ok m) : ∃ blocks,
      handleBlockPeerRequestHelper sm sub.2.1 = .ok (some blocks) ∧
        m = .notice sub.2.2 (some (.blocks blocks)) := by
  obtain ⟨o, ho, h⟩ := bind_eq_ok.mp h
  obtain ⟨blocks, hb, heq⟩ := bind_eq_ok.mp h
  cases heq
  rw [orFault_eq_ok.mp hb] at ho
  exact ⟨blocks, ho, rfl⟩

omit [Hash H] [DecidableEq H] [DecidableEq StoreId] [ECGHeader Header HeaderId] in
lemma State.handleMetadataPeerRequest_cases (s : State StoreId H HeaderId Header T)
    (peer : DeviceId) (chan : Chan) :
    (∃ metadata, s.stateMachine.metadata = some metadata ∧
      s.handleMetadataPeerRequest peer chan =
        s.send (.response chan (some (.metadata metadata)))) ∨
    (s.stateMachine.metadata = none ∧ s.handleMetadataPeerRequest peer chan =
      { s.send (.response chan none) with
        metadataSubscribers := s.metadataSubscribers.insert peer chan }) := by
  unfold handleMetadataPeerRequest
  cases hm : s.stateMachine.metadata with
  | none => exact Or.inr ⟨rfl, rfl⟩
  | some metadata => exact Or.inl ⟨metadata, rfl, rfl⟩

omit [Hash H] [DecidableEq H] [DecidableEq StoreId] [ECGHeader Header HeaderId] in
lemma State.handleMerklePeerRequest_ok {ranges : List Range} {chan : Chan}
    (h : s.handleMerklePeerRequest peer ranges chan = .ok s') :
    (∃ tree hashes, s.stateMachine.merkleTree = some tree ∧
      handleMerklePeerRequestHelper tree ranges = .ok hashes ∧
      s' = s.send (.response chan (some (.hashes hashes)))) ∨
    (s.stateMachine.merkleTree = none ∧ s' = { s.send (.response chan none) with
      merkleSubscribers := s.merkleSubscribers.insert peer (ranges, chan) }) := by
  unfold handleMerklePeerRequest at h
  cases ht : s.stateMachine.merkleTree with
  | none =>
    simp only [ht] at h
    cases h
    exact Or.inr ⟨rfl, rfl⟩
  | some tree =>
    simp only [ht] at h
    obtain ⟨hashes, hh, heq⟩ := bind_eq_ok.mp h
    cases heq
    exact Or.inl ⟨tree, hashes, rfl, hh, rfl⟩

omit [Hash H] [DecidableEq H] [DecidableEq StoreId] [ECGHeader Header HeaderId] in
lemma State.handleBlockPeerRequest_ok {ranges : List Range} {chan : Chan}
    (h : s.handleBlockPeerRequest peer ranges chan = .ok s') :
    (∃ blocks, handleBlockPeerRequestHelper s.stateMachine ranges = .ok (some blocks) ∧
      s' = s.send (.response chan (some (.blocks blocks)))) ∨
    (handleBlockPeerRequestHelper s.stateMachine ranges = .ok none ∧
      s' = { s.send (.response chan none) with
        blockSubscribers := s.blockSubscribers.insert peer (ranges, chan) }) := by
  obtain ⟨blocks, hb, h⟩ := bind_eq_ok.mp h
  cases blocks with
  | none => cases h; exact Or.inr ⟨hb, rfl⟩
  | some blocks => cases h; exact Or.inl ⟨blocks, hb, rfl⟩

omit [Hash H] [DecidableEq H] [DecidableEq StoreId] [ECGHeader Header HeaderId] in
lemma State.handleEcgSubscribe_cases (s : State StoreId H HeaderId Header T)
    (peer : DeviceId) (tips : Option (BTreeSet HeaderId)) (chan : Chan) :
    (∃ ecg, s.handleEcgSubscribe peer tips chan = s.send (.ecg chan ecg)) ∨
    s.handleEcgSubscribe peer tips chan =
      { s with ecgSubscribers := s.ecgSubscribers.insert peer chan } := by
  unfold handleEcgSubscribe
  cases s.stateMachine with
  | syncing metadata tree initialState ecg latest =>
    dsimp only
    split_ifs
    · exact Or.inl ⟨ecg, rfl⟩
    · exact Or.inr rfl
  | _ => exact Or.inr rfl

/-- A change of the data leaves the peers alone, and its messages are not about peers. -/
theorem Change.frame (h : Change OT listeners cmd s s') : s'.peers = s.peers ∧
    ∃ l, s'.sent = s.sent ++ l ∧ ∀ m ∈ l, ¬ m.IsPeerMessage := by
  cases h with
  | metadata peer metadata hv ht =>
    refine ⟨rfl, _, rfl, fun m hm => ?_⟩
    obtain ⟨sub, -, rfl⟩ := List.mem_map.mp hm
    exact id
  | merkle peer ranges nodes hs ht => exact ⟨rfl, [], by simp [withPhase], by simp⟩
  | complete peer hs ht hn =>
    obtain ⟨notices, hnotices, rfl⟩ := notifyMerkleSubscribers_ok hn
    refine ⟨rfl, notices, rfl, fun m hm => ?_⟩
    obtain ⟨sub, -, hsub⟩ := mem_of_mapM_eq_ok hnotices hm
    obtain ⟨reply, rfl, -⟩ := merkleNotice_ok hsub
    exact id
  | blocks peer ranges theirBlocks hs hb => exact ⟨rfl, [], by simp [withPhase], by simp⟩
  | syncing peer hs hb hn =>
    obtain ⟨m₀, tree₀, blocks₀, latest, notices, subs, -, -, hnotices, -, rfl⟩ :=
      updateStateToSyncing_ok hn
    refine ⟨rfl, _, List.append_assoc _ _ _, fun m hm => ?_⟩
    rcases List.mem_append.mp hm with hm | hm
    · exact updates_isData hm
    · obtain ⟨sub, -, hsub⟩ := mem_of_mapM_eq_ok hnotices hm
      obtain ⟨blocks, -, rfl⟩ := blockNotice_ok hsub
      exact id
  | operations peer operations hs hf =>
    obtain ⟨subs, heq, -⟩ := updateListeners_spec (s := s.withPhase _) listeners _ _ (some peer)
    rw [heq]
    exact ⟨rfl, _, rfl, fun m hm => updates_isData hm⟩
  | apply header body hs hi ha =>
    obtain ⟨subs, heq, -⟩ := updateListeners_spec (s := s.withPhase _) listeners _ _ none
    rw [heq]
    exact ⟨rfl, _, rfl, fun m hm => updates_isData hm⟩
  | subscribeState chan => exact ⟨rfl, _, rfl, by simp [Sent.IsPeerMessage]⟩
  | metadataRequest peer chan =>
    rcases s.handleMetadataPeerRequest_cases peer chan with ⟨metadata, -, heq⟩ | ⟨-, heq⟩
    · rw [heq]; exact ⟨rfl, _, rfl, by simp [Sent.IsPeerMessage]⟩
    · rw [heq]; exact ⟨rfl, _, rfl, by simp [Sent.IsPeerMessage]⟩
  | merkleRequest peer ranges chan hr =>
    obtain ⟨tree, hashes, -, -, rfl⟩ | ⟨-, rfl⟩ := handleMerklePeerRequest_ok hr
    · exact ⟨rfl, _, rfl, by simp [Sent.IsPeerMessage]⟩
    · exact ⟨rfl, _, rfl, by simp [Sent.IsPeerMessage]⟩
  | blockRequest peer ranges chan hr =>
    obtain ⟨blocks, -, rfl⟩ | ⟨-, rfl⟩ := handleBlockPeerRequest_ok hr
    · exact ⟨rfl, _, rfl, by simp [Sent.IsPeerMessage]⟩
    · exact ⟨rfl, _, rfl, by simp [Sent.IsPeerMessage]⟩
  | subscribeECG peer tips chan =>
    rcases s.handleEcgSubscribe_cases peer tips chan with ⟨ecg, heq⟩ | heq
    · rw [heq]; exact ⟨rfl, _, rfl, by simp [Sent.IsPeerMessage]⟩
    · rw [heq]; exact ⟨rfl, [], by simp, by simp⟩

/-! ### The phase -/

/-- What a change does to the phase, if it does anything. -/
inductive PhaseStep (OT : OssaType StoreId H HeaderId Body T Op) :
    Command H HeaderId Header Body → StateMachine StoreId H HeaderId Header T →
      StateMachine StoreId H HeaderId Header T → Prop
  | metadata {sm tree} (peer : DeviceId) (metadata : MetadataHeader H)
    (hv : metadata.validateStoreId OT.into (sm.storeId OT.into) = true)
    (ht : MerkleTree.newWithCapacity metadata.merkleRoot metadata.blockCount = .ok tree) :
    PhaseStep OT (.receivedMetadata peer metadata) sm (.downloadingMerkle metadata tree)
  | merkle {metadata tree tree'} (peer : DeviceId) (ranges : List Range) (nodes : List H)
    (ht : tree.setAll ((flattenRanges ranges).zip nodes) = .ok tree') :
    PhaseStep OT (.receivedMerkleHashes peer ranges nodes) (.downloadingMerkle metadata tree)
      (.downloadingMerkle metadata tree')
  | complete {cmd metadata tree merkleTree} (ht : tree.tryComplete = some merkleTree) :
    PhaseStep OT cmd (.downloadingMerkle metadata tree)
      (.downloadingInitialState metadata merkleTree (List.replicate metadata.blockCount none))
  | blocks {metadata tree blocks blocks'} (peer : DeviceId) (ranges : List Range)
    (theirBlocks : List (Option (List UInt8)))
    (hb : ((flattenRanges ranges).zip theirBlocks).foldlM (setBlock tree) blocks = .ok blocks') :
    PhaseStep OT (.receivedInitialStateBlocks peer ranges theirBlocks)
      (.downloadingInitialState metadata tree blocks)
      (.downloadingInitialState metadata tree blocks')
  | syncing {cmd metadata tree blocks latest} (hb : none ∉ blocks)
    (hl : OT.fromSlice (blocks.filterMap id).flatten = some latest) :
    PhaseStep OT cmd (.downloadingInitialState metadata tree blocks)
      (.syncing metadata tree (blocks.filterMap id).flatten .new latest)
  | operations {metadata tree initialState ecg latest ecg' latest'} (peer : DeviceId)
    (operations : List (Header × RawECGBody))
    (hf : operations.foldlM (receiveOperation OT) (ecg, latest) = .ok (ecg', latest')) :
    PhaseStep OT (.receivedECGOperations peer operations)
      (.syncing metadata tree initialState ecg latest)
      (.syncing metadata tree initialState ecg' latest')
  | apply {metadata tree initialState ecg latest ecg' latest'} (header : Header) (body : Body)
    (hi : ecg.insertHeader header (OT.bodyToVec body) = (ecg', true))
    (ha : applyOperations OT latest ecg' header body = .ok latest') :
    PhaseStep OT (.apply header body) (.syncing metadata tree initialState ecg latest)
      (.syncing metadata tree initialState ecg' latest')

theorem Change.phaseStep (h : Change OT listeners cmd s s') :
    s'.stateMachine = s.stateMachine ∨ PhaseStep OT cmd s.stateMachine s'.stateMachine := by
  cases h with
  | metadata peer metadata hv ht => exact Or.inr (.metadata peer metadata hv ht)
  | merkle peer ranges nodes hs ht =>
    rw [hs]
    exact Or.inr (.merkle peer ranges nodes ht)
  | complete peer hs ht hn =>
    obtain ⟨notices, -, rfl⟩ := notifyMerkleSubscribers_ok hn
    rw [hs]
    exact Or.inr (.complete ht)
  | blocks peer ranges theirBlocks hs hb =>
    rw [hs]
    exact Or.inr (.blocks peer ranges theirBlocks hb)
  | syncing peer hs hb hn =>
    obtain ⟨metadata', tree', blocks', latest, notices, subs, hs', hl, -, -, rfl⟩ :=
      updateStateToSyncing_ok hn
    rw [hs] at hs'
    cases hs'
    rw [hs]
    exact Or.inr (.syncing hb hl)
  | operations peer operations hs hf =>
    rw [hs, updateListeners_stateMachine]
    exact Or.inr (.operations peer operations hf)
  | apply header body hs hi ha =>
    rw [hs, updateListeners_stateMachine]
    exact Or.inr (.apply header body hi ha)
  | subscribeState chan => exact Or.inl rfl
  | metadataRequest peer chan =>
    rcases s.handleMetadataPeerRequest_cases peer chan with ⟨metadata, -, heq⟩ | ⟨-, heq⟩
    · rw [heq]; exact Or.inl rfl
    · rw [heq]; exact Or.inl rfl
  | merkleRequest peer ranges chan hr =>
    obtain ⟨tree, hashes, -, -, rfl⟩ | ⟨-, rfl⟩ := handleMerklePeerRequest_ok hr
    · exact Or.inl rfl
    · exact Or.inl rfl
  | blockRequest peer ranges chan hr =>
    obtain ⟨blocks, -, rfl⟩ | ⟨-, rfl⟩ := handleBlockPeerRequest_ok hr
    · exact Or.inl rfl
    · exact Or.inl rfl
  | subscribeECG peer tips chan =>
    rcases s.handleEcgSubscribe_cases peer tips chan with ⟨ecg, heq⟩ | heq
    · rw [heq]; exact Or.inl rfl
    · rw [heq]; exact Or.inl rfl

/-! ### Invariants -/

/-- An invariant of the changes is an invariant of the handler. -/
theorem run_invariant {I : State StoreId H HeaderId Header T → Prop}
    {h h' : Handler StoreId H HeaderId Header T}
    {cmds : List (Environment × Command H HeaderId Header Body)}
    (hrun : h.run OT cmds = .ok h') (hs : I h.store) (htouch : ∀ s s', I s → s.Touches s' → I s')
    (hstep : ∀ listeners, ∀ cmd ∈ cmds, ∀ s s', I s → Change OT listeners cmd.2 s s' → I s') :
    I h'.store := by
  refine foldlM_invariant (I := fun h => I h.store) hrun hs fun h₁ h₂ cmd hmem hI heq => ?_
  have heffects := handleStore_effects (Handler.handleStore_of_handle heq).1
  generalize h₂.store = s at heffects ⊢
  clear heq
  induction heffects with
  | refl => exact hI
  | tail _ hc ih => exact hc.elim (hstep _ _ hmem _ _ ih) (htouch _ _ ih)

/-- An invariant of the phase. -/
theorem run_phase_invariant {I : StateMachine StoreId H HeaderId Header T → Prop}
    {h h' : Handler StoreId H HeaderId Header T}
    {cmds : List (Environment × Command H HeaderId Header Body)}
    (hrun : h.run OT cmds = .ok h') (hs : I h.store.stateMachine)
    (hstep : ∀ cmd ∈ cmds, ∀ sm sm', I sm → PhaseStep OT cmd.2 sm sm' → I sm') :
    I h'.store.stateMachine := by
  refine run_invariant (I := fun s => I s.stateMachine) hrun hs ?_ fun _ cmd hmem s s' hI hc => ?_
  · rintro s _ hI ⟨peers, l, -, rfl⟩
    exact hI
  rcases hc.phaseStep with heq | hphase
  · rw [heq]
    exact hI
  · exact hstep cmd hmem _ _ hI hphase

end Ossa.Store
