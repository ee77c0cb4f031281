import Ossa.StoreStopped
import Ossa.StoreWaiting

/-!
What a store writes to the peers that waited.

A later answer that carries data carries what the phase after the command has for the request
that waited: the metadata, the nodes of the complete merkle tree, or the blocks of the complete
initial state. A command that crosses several phases at once keeps what an earlier one of them
has answered.
-/

namespace Ossa.Store

open Ossa.Loop Ossa.Util Ossa.Util.MerkleTree Ossa.Collections Ossa.Ecg Ossa.Crdt

variable {StoreId H HeaderId Header Body T Op : Type} [LinearOrder HeaderId]
variable {s s' s'' : State StoreId H HeaderId Header T} {peer : DeviceId} {listeners : List Chan}
variable {sm sm' : StateMachine StoreId H HeaderId Header T}
variable {l l' : List (Sent StoreId H HeaderId Header T)} {waiting waiting' : List Waiting}

/-- Data is only written to those that wait, and is what they would be answered in the phase. -/
def Served (waiting : List Waiting) (sm : StateMachine StoreId H HeaderId Header T)
    (l : List (Sent StoreId H HeaderId Header T)) : Prop :=
  ∀ chan reply, .notice chan (some reply) ∈ l →
    ∃ p q, (p, q, chan) ∈ waiting ∧ sm.immediate q = .ok (some reply)

/-- The notices of `s'` that `s` has not sent serve those that waited. -/
def State.Serves (s s' : State StoreId H HeaderId Header T) : Prop :=
  ∃ l, s'.sent = s.sent ++ l ∧ Served s.waiting s'.stateMachine l

namespace Served

lemma of_noticeless (h : ∀ m ∈ l, m.noticeChan = none) : Served waiting sm l := by
  intro chan reply hmem
  cases h _ hmem

lemma append (h : Served waiting sm l) (h' : Served waiting sm l') :
    Served waiting sm (l ++ l') := fun chan reply hmem =>
  (List.mem_append.mp hmem).elim (h chan reply) (h' chan reply)

lemma mono (h : Served waiting sm l) (hw : ∀ w ∈ waiting, w ∈ waiting') :
    Served waiting' sm l := fun chan reply hmem => by
  obtain ⟨p, q, hw', hi⟩ := h chan reply hmem
  exact ⟨p, q, hw _ hw', hi⟩

end Served

lemma served_metadata {metadata : MetadataHeader H} (hm : sm.metadata = some metadata) :
    Served s.waiting sm (s.metadataSubscribers.toList.map fun sub =>
      .notice sub.2 (if sub.1 = peer then none else some (.metadata metadata))) := by
  intro chan reply hmem
  obtain ⟨sub, hsub, heq⟩ := List.mem_map.mp hmem
  simp only [Sent.notice.injEq] at heq
  obtain ⟨rfl, heq⟩ := heq
  refine ⟨sub.1, .metadata, ?_, ?_⟩
  · exact List.mem_append_left _ (List.mem_append_left _ (List.mem_map.mpr ⟨sub, hsub, rfl⟩))
  · split_ifs at heq
    cases heq
    rw [StateMachine.immediate, hm]
    rfl

lemma served_merkle {tree : MerkleTree H} (hm : sm.merkleTree = some tree)
    (hn : s.merkleSubscribers.toList.mapM (State.merkleNotice peer tree) = .ok l) :
    Served s.waiting sm l := by
  intro chan reply hmem
  obtain ⟨sub, hsub, hnotice⟩ := mem_of_mapM_eq_ok hn hmem
  obtain ⟨reply', heq, hreply⟩ := State.merkleNotice_ok hnotice
  cases heq
  rcases hreply with ⟨-, hreply⟩ | ⟨-, hashes, hh, hreply⟩
  · cases hreply
  · refine ⟨sub.1, .merkle sub.2.1, ?_, ?_⟩
    · exact List.mem_append_left _ (List.mem_append_right _ (List.mem_map.mpr ⟨sub, hsub, rfl⟩))
    · rw [hreply]
      simp only [StateMachine.immediate, hm]
      rw [hh]
      rfl

lemma served_blocks (hn : s.blockSubscribers.toList.mapM (State.blockNotice sm) = .ok l) :
    Served s.waiting sm l := by
  intro chan reply hmem
  obtain ⟨sub, hsub, hnotice⟩ := mem_of_mapM_eq_ok hn hmem
  obtain ⟨blocks, hb, heq⟩ := State.blockNotice_ok hnotice
  cases heq
  refine ⟨sub.1, .blocks sub.2.1, ?_, ?_⟩
  · exact List.mem_append_right _ (List.mem_map.mpr ⟨sub, hsub, rfl⟩)
  · rw [StateMachine.immediate, hb]
    rfl

namespace State

/-- Nothing is written to those that wait. -/
def Noticeless (s s' : State StoreId H HeaderId Header T) : Prop :=
  ∃ l, s'.sent = s.sent ++ l ∧ ∀ m ∈ l, m.noticeChan = none

lemma Noticeless.trans (h : s.Noticeless s') (h' : s'.Noticeless s'') : s.Noticeless s'' := by
  obtain ⟨l, hl, hno⟩ := h
  obtain ⟨l', hl', hno'⟩ := h'
  refine ⟨l ++ l', by rw [hl', hl, List.append_assoc], fun m hm => ?_⟩
  exact (List.mem_append.mp hm).elim (hno m) (hno' m)

lemma Noticeless.of_eq (h : s'.sent = s.sent) : s.Noticeless s' :=
  ⟨[], by rw [h, List.append_nil], by simp⟩

lemma Noticeless.of_touches (h : s.Touches s') : s.Noticeless s' := by
  obtain ⟨peers, l, hl, rfl⟩ := h
  exact ⟨l, rfl, fun m hm => (hl m hm).silent.2⟩

lemma Noticeless.serves (h : s.Noticeless s') : s.Serves s' := by
  obtain ⟨l, hl, hno⟩ := h
  exact ⟨l, hl, .of_noticeless hno⟩

lemma Serves.touches (h : s.Serves s') (ht : s'.Touches s'') : s.Serves s'' := by
  obtain ⟨l, hl, hserved⟩ := h
  obtain ⟨peers, l', hl', rfl⟩ := ht
  refine ⟨l ++ l', by rw [AfterPeers, hl, List.append_assoc], hserved.append ?_⟩
  exact .of_noticeless fun m hm => (hl' m hm).silent.2

end State

section Received

variable {OT : OssaType StoreId H HeaderId Body T Op}

lemma State.serves_updateStateToSyncing (h : s.updateStateToSyncing OT peer listeners = .ok s') :
    s.Serves s' ∧ s'.stateMachine.metadata = s.stateMachine.metadata ∧
      s'.stateMachine.merkleTree = s.stateMachine.merkleTree := by
  obtain ⟨metadata, tree, blocks, latest, notices, subs, hs, -, hn, -, rfl⟩ :=
    updateStateToSyncing_ok h
  refine ⟨⟨_, List.append_assoc _ _ _, ?_⟩, by rw [hs]; rfl, by rw [hs]; rfl⟩
  have hupdates : Served s.waiting (.syncing metadata tree (blocks.filterMap id).flatten .new latest)
      (s.updates listeners latest (.new : UntypedState HeaderId Header) (some peer)) :=
    .of_noticeless fun m hm => (silent_updates m hm).2
  exact hupdates.append (served_blocks hn)

lemma State.serves_updateStateToDownloadingInitialState
    (h : s.updateStateToDownloadingInitialState OT peer listeners = .ok s') :
    s.Serves s' ∧ s'.stateMachine.metadata = s.stateMachine.metadata := by
  unfold updateStateToDownloadingInitialState at h
  cases hs : s.stateMachine with
  | downloadingMerkle metadata tree =>
    simp only [hs] at h
    cases hc : tree.tryComplete with
    | none =>
      simp only [hc] at h
      cases h
      exact ⟨Noticeless.serves (.of_eq rfl), congrArg _ hs⟩
    | some merkleTree =>
      simp only [hc] at h
      obtain ⟨s₁, hn, h⟩ := bind_eq_ok.mp h
      obtain ⟨notices, hnotices, rfl⟩ := notifyMerkleSubscribers_ok hn
      split_ifs at h with hsize
      · obtain ⟨⟨l, hl, hserved⟩, hmeta, htree⟩ := serves_updateStateToSyncing h
        refine ⟨⟨notices ++ l, by rw [hl, List.append_assoc], ?_⟩, hmeta⟩
        refine (served_merkle htree hnotices).append (hserved.mono fun w hw => ?_)
        -- those that wait for nodes have been served
        simp only [waiting, waitingMetadata, waitingMerkle, waitingBlocks, toList_empty,
          List.map_nil, List.append_nil] at hw ⊢
        rcases List.mem_append.mp hw with hw | hw
        · exact List.mem_append_left _ (List.mem_append_left _ hw)
        · exact List.mem_append_right _ hw
      · cases h
        exact ⟨⟨notices, rfl, served_merkle rfl hnotices⟩, rfl⟩
  | downloadingMetadata _ => simp only [hs] at h; cases h
  | downloadingInitialState _ _ _ => simp only [hs] at h; cases h
  | syncing _ _ _ _ _ => simp only [hs] at h; cases h

lemma State.serves_of_ready (hr : s.updateOutgoingPeerToReady peer = .ok s')
    (h : s'.Serves s'') : s.Serves s'' := by
  obtain ⟨info, b, -, -, rfl⟩ := updateOutgoingPeerToReady_ok hr
  obtain ⟨l, hl, hserved⟩ := h
  exact ⟨l, by rw [hl, AfterPeers, List.append_nil], hserved⟩

variable [Hash H] [DecidableEq H] [DecidableEq StoreId]

omit [DecidableEq H] in
lemma State.serves_handleReceivedMetadata {metadata : MetadataHeader H}
    (h : s.handleReceivedMetadata OT peer metadata listeners = .ok s') : s.Serves s' := by
  obtain ⟨s₁, hr, h⟩ := bind_eq_ok.mp h
  refine serves_of_ready hr ?_
  by_cases hv : metadata.validateStoreId OT.into (s₁.stateMachine.storeId OT.into) = true
  · simp only [hv, Bool.not_true, Bool.false_eq_true, if_false] at h
    obtain ⟨tree, ht, h⟩ := bind_eq_ok.mp h
    split_ifs at h with hcount
    · obtain ⟨⟨l, hl, hserved⟩, hmeta⟩ := serves_updateStateToDownloadingInitialState h
      refine ⟨_ ++ l, hl.trans (List.append_assoc _ _ _), ?_⟩
      refine (served_metadata hmeta).append (hserved.mono fun w hw => ?_)
      -- those that wait for the metadata have been served
      simp only [notifyMetadataSubscribers, waiting, waitingMetadata, waitingMerkle, waitingBlocks,
        toList_empty, List.map_nil, List.nil_append] at hw ⊢
      rw [List.append_assoc]
      exact List.mem_append_right _ hw
    · cases h
      exact ⟨_, rfl, served_metadata rfl⟩
  · simp only [hv, Bool.not_false, if_true] at h
    cases h
    exact Noticeless.serves (.of_eq rfl)

omit [DecidableEq StoreId] in
lemma State.serves_handleReceivedMerkleHashes {ranges : List Range} {nodes : List H}
    (h : s.handleReceivedMerkleHashes OT peer ranges nodes listeners = .ok s') : s.Serves s' := by
  obtain ⟨s₁, hr, h⟩ := bind_eq_ok.mp h
  refine serves_of_ready hr ?_
  dsimp only at h
  split_ifs at h with hlen
  · cases h
    exact Noticeless.serves (.of_eq rfl)
  · split at h
    · obtain ⟨tree, ht, h⟩ := bind_eq_ok.mp h
      exact (serves_updateStateToDownloadingInitialState h).1
    · cases h
      exact Noticeless.serves (.of_eq rfl)

omit [DecidableEq StoreId] in
lemma State.serves_handleReceivedInitialStateBlocks {ranges : List Range}
    {blocks : List (Option (List UInt8))}
    (h : s.handleReceivedInitialStateBlocks OT peer ranges blocks listeners = .ok s') :
    s.Serves s' := by
  obtain ⟨s₁, hr, h⟩ := bind_eq_ok.mp h
  refine serves_of_ready hr ?_
  dsimp only at h
  split_ifs at h with hlen
  · cases h
    exact Noticeless.serves (.of_eq rfl)
  · split at h
    · obtain ⟨blocks', hb, h⟩ := bind_eq_ok.mp h
      split_ifs at h with hany
      · cases h
        exact Noticeless.serves (.of_eq rfl)
      · exact (serves_updateStateToSyncing h).1
    · cases h
      exact Noticeless.serves (.of_eq rfl)

end Received

/-! ### A command -/

/-- Those whose requests wait are answered once: they are registered, or they were written to. -/
structure State.Waits (s : State StoreId H HeaderId Header T) : Prop where
  tabled : s.Tabled
  accounted : s.Accounted
  nodup : (s.sent.filterMap Sent.waitChan).Nodup

/-- Each channel that a peer was told to wait on is registered or was written to, once, and no
other channel was written to. -/
structure State.AnsweredOnce (s : State StoreId H HeaderId Header T) : Prop where
  once (chan : Chan) : .response chan none ∈ s.sent →
    (s.waiting.map fun w => w.2.2).count chan + (s.sent.filterMap Sent.noticeChan).count chan = 1
  asked (chan : Chan) (reply : Option (Reply H)) : .notice chan reply ∈ s.sent →
    .response chan none ∈ s.sent

lemma mem_waitChans {chan : Chan} :
    chan ∈ s.sent.filterMap Sent.waitChan ↔ .response chan none ∈ s.sent := by
  rw [List.mem_filterMap]
  constructor
  · rintro ⟨m, hm, heq⟩
    cases m with
    | response chan' reply =>
      cases reply with
      | none => cases heq; exact hm
      | some reply => cases heq
    | _ => cases heq
  · exact fun h => ⟨_, h, rfl⟩

theorem State.Waits.answeredOnce (h : s.Waits) : s.AnsweredOnce where
  once chan hmem := by
    rw [← List.count_append, ← h.accounted.count_eq]
    exact List.count_eq_one_of_mem h.nodup (mem_waitChans.mpr hmem)
  asked chan reply hmem := by
    refine mem_waitChans.mp (h.accounted.mem_iff.mpr (List.mem_append_right _ ?_))
    exact List.mem_filterMap.mpr ⟨_, hmem, rfl⟩

/-- A request comes with a channel of its own, from a peer that does not wait. -/
def Command.Polite (s : State StoreId H HeaderId Header T)
    (cmd : Command H HeaderId Header Body) : Prop :=
  ∀ peer q chan, cmd = PeerRequest.command peer chan q →
    chan ∉ s.sent.filterMap Sent.responseChan ∧ ∀ w ∈ s.waiting, w.1 ≠ peer

variable {cmd : Command H HeaderId Header Body} {n : ℕ} {full : Prop}

lemma exists_request (h : cmd.isRequest = true) : ∃ peer q chan, cmd = PeerRequest.command peer chan q := by
  cases cmd with
  | handleMetadataPeerRequest peer chan => exact ⟨peer, .metadata, chan, rfl⟩
  | handleMerklePeerRequest peer ranges chan => exact ⟨peer, .merkle ranges, chan, rfl⟩
  | handleBlockPeerRequest peer ranges chan => exact ⟨peer, .blocks ranges, chan, rfl⟩
  | _ => cases h

section Handle

variable [Hash H] [DecidableEq H] [DecidableEq StoreId]
variable [ECGHeader Header HeaderId] [CRDT T Op (OperationId HeaderId)]
variable {OT : OssaType StoreId H HeaderId Body T Op} {env : Environment}

omit [Hash H] [DecidableEq H] [DecidableEq StoreId] [ECGHeader Header HeaderId]
  [CRDT T Op (OperationId HeaderId)] in
lemma responseChan_of_mem_updates {latestState : T} {ecgState : UntypedState HeaderId Header}
    {fromPeer : Option DeviceId} {m : Sent StoreId H HeaderId Header T}
    (hm : m ∈ s.updates listeners latestState ecgState fromPeer) : m.responseChan = none := by
  rcases List.mem_append.mp hm with hm | hm
  · obtain ⟨l, -, rfl⟩ := List.mem_map.mp hm
    rfl
  · obtain ⟨sub, -, rfl⟩ := List.mem_map.mp hm
    rfl

lemma Change.unanswered (h : Change OT listeners cmd s s') (hr : cmd.isRequest = false) :
    ∃ l, s'.sent = s.sent ++ l ∧ ∀ m ∈ l, m.responseChan = none := by
  cases h with
  | metadata peer metadata hv ht =>
    refine ⟨_, rfl, fun m hm => ?_⟩
    obtain ⟨sub, -, rfl⟩ := List.mem_map.mp hm
    rfl
  | merkle peer ranges nodes hs ht => exact ⟨[], by simp [State.withPhase], by simp⟩
  | complete peer hs ht hn =>
    obtain ⟨notices, hnotices, rfl⟩ := State.notifyMerkleSubscribers_ok hn
    refine ⟨notices, rfl, fun m hm => ?_⟩
    obtain ⟨sub, -, hsub⟩ := mem_of_mapM_eq_ok hnotices hm
    obtain ⟨reply, rfl, -⟩ := State.merkleNotice_ok hsub
    rfl
  | blocks peer ranges theirBlocks hs hb => exact ⟨[], by simp [State.withPhase], by simp⟩
  | syncing peer hs hb hn =>
    obtain ⟨m₀, tree₀, blocks₀, latest, notices, subs, -, -, hnotices, -, rfl⟩ :=
      State.updateStateToSyncing_ok hn
    refine ⟨_, List.append_assoc _ _ _, fun m hm => ?_⟩
    rcases List.mem_append.mp hm with hm | hm
    · exact responseChan_of_mem_updates hm
    · obtain ⟨sub, -, hsub⟩ := mem_of_mapM_eq_ok hnotices hm
      obtain ⟨blocks, -, rfl⟩ := State.blockNotice_ok hsub
      rfl
  | operations peer operations hs hf =>
    obtain ⟨subs, heq, -⟩ := State.updateListeners_spec (s := s.withPhase _) listeners _ _
      (some peer)
    rw [heq]
    exact ⟨_, rfl, fun m hm => responseChan_of_mem_updates hm⟩
  | apply header body hs hi ha =>
    obtain ⟨subs, heq, -⟩ := State.updateListeners_spec (s := s.withPhase _) listeners _ _ none
    rw [heq]
    exact ⟨_, rfl, fun m hm => responseChan_of_mem_updates hm⟩
  | subscribeState chan => exact ⟨_, rfl, by simp [Sent.responseChan]⟩
  | metadataRequest peer chan => cases hr
  | merkleRequest peer ranges chan _ => cases hr
  | blockRequest peer ranges chan _ => cases hr
  | subscribeECG peer tips chan =>
    rcases s.handleEcgSubscribe_cases peer tips chan with ⟨ecg, heq⟩ | heq
    · rw [heq]; exact ⟨_, rfl, by simp [Sent.responseChan]⟩
    · rw [heq]; exact ⟨[], by simp, by simp⟩

omit [Hash H] [DecidableEq H] [DecidableEq StoreId] [ECGHeader Header HeaderId]
  [CRDT T Op (OperationId HeaderId)] in
lemma waitChans_of_unanswered
    (h : ∃ l, s'.sent = s.sent ++ l ∧ ∀ m ∈ l, m.responseChan = none) :
    s'.sent.filterMap Sent.waitChan = s.sent.filterMap Sent.waitChan := by
  obtain ⟨l, hl, hno⟩ := h
  have hnil : l.filterMap Sent.waitChan = [] := by
    refine List.filterMap_eq_nil_iff.mpr fun m hm => ?_
    have hnone := hno m hm
    cases m with
    | response chan reply => cases hnone
    | _ => rfl
  rw [hl, List.filterMap_append, hnil, List.append_nil]

lemma State.Waits.change (h : s.Waits) (hc : Change OT listeners cmd s s')
    (hr : cmd.isRequest = false) : s'.Waits where
  tabled := h.tabled.change hc hr
  accounted := h.accounted.change hc hr
  nodup := by
    rw [waitChans_of_unanswered (hc.unanswered hr)]
    exact h.nodup

omit [Hash H] [DecidableEq H] [DecidableEq StoreId] [ECGHeader Header HeaderId]
  [CRDT T Op (OperationId HeaderId)] in
lemma State.Waits.touches (h : s.Waits) (ht : s.Touches s') : s'.Waits := by
  obtain ⟨peers, l, hl, rfl⟩ := ht
  refine ⟨⟨h.tabled.metadata, h.tabled.merkle, h.tabled.blocks⟩,
    h.accounted.silent (fun m hm => (hl m hm).silent) rfl rfl, ?_⟩
  have hwait : l.filterMap Sent.waitChan = [] :=
    List.filterMap_eq_nil_iff.mpr fun m hm => (hl m hm).silent.1
  rw [State.AfterPeers, List.filterMap_append, hwait, List.append_nil]
  exact h.nodup

omit [Hash H] [DecidableEq H] [DecidableEq StoreId] [ECGHeader Header HeaderId]
  [CRDT T Op (OperationId HeaderId)] in
lemma State.Waits.respond {q : PeerRequest} {reply : Option (Reply H)} {chan : Chan}
    (h : s.Waits) (hi : s.stateMachine.immediate q = .ok reply)
    (hchan : chan ∉ s.sent.filterMap Sent.responseChan) (hfree : ∀ w ∈ s.waiting, w.1 ≠ peer) :
    (s.respond peer chan q reply).Waits where
  tabled := h.tabled.respond hi
  accounted := h.accounted.respond hfree
  nodup := by
    have hnew : chan ∉ s.sent.filterMap Sent.waitChan := fun hc => by
      exact hchan (List.mem_filterMap.mpr ⟨_, mem_waitChans.mp hc, rfl⟩)
    cases reply with
    | some reply =>
      change (List.filterMap Sent.waitChan (s.sent ++ [Sent.response chan (some reply)])).Nodup
      rw [List.filterMap_append]
      exact (List.append_nil _).symm ▸ h.nodup
    | none =>
      have hsent : (s.respond peer chan q none).sent = s.sent ++ [.response chan none] := by
        cases q <;> rfl
      rw [hsent, List.filterMap_append]
      refine List.nodup_append.mpr ⟨h.nodup, List.nodup_singleton _, fun a ha b hb => ?_⟩
      rw [List.mem_singleton.mp hb]
      exact fun heq => hnew (heq ▸ ha)

/-- **Every command keeps the account of those that wait.** -/
theorem State.Waits.handleStore (h : s.Waits) (hp : cmd.Polite s)
    (hs : Handler.handleStore OT env listeners s cmd = .ok s') : s'.Waits := by
  cases hr : cmd.isRequest with
  | true =>
    obtain ⟨peer, q, chan, rfl⟩ := exists_request hr
    obtain ⟨hchan, hfree⟩ := hp peer q chan rfl
    rw [handleStore_request] at hs
    obtain ⟨reply, hi, heq⟩ := bind_eq_ok.mp hs
    cases heq
    exact h.respond hi hchan hfree
  | false =>
    have heffects := handleStore_effects hs
    clear hs hp
    induction heffects with
    | refl => exact h
    | tail _ hc ih => exact hc.elim (fun hc => ih.change hc hr) ih.touches

/-- Between commands nothing is complete, so that a command without an answer of a peer makes
no transition. -/
lemma State.InOrder.noticeless (h : s.InOrder n full) (hc : Change OT listeners cmd s s')
    (hd : cmd.isDownload = false) : s.Noticeless s' := by
  have hsilent : ∀ {t : State StoreId H HeaderId Header T} {l}, t.sent = s.sent ++ l →
      Silent l → s.Noticeless t := fun hl hno => ⟨_, hl, fun m hm => (hno m hm).2⟩
  cases hc with
  | metadata peer metadata hv ht => cases hd
  | merkle peer ranges nodes hs ht => cases hd
  | blocks peer ranges theirBlocks hs hb => cases hd
  | complete peer hs ht hn => exact absurd ht (h.tryComplete_ne hs)
  | syncing peer hs hb hn =>
    have hi := h.incomplete
    rw [hs] at hi
    exact absurd hi hb
  | operations peer operations hs hf =>
    obtain ⟨subs, heq, -⟩ := State.updateListeners_spec (s := s.withPhase _) listeners _ _
      (some peer)
    rw [heq]
    exact hsilent rfl silent_updates
  | apply header body hs hi ha =>
    obtain ⟨subs, heq, -⟩ := State.updateListeners_spec (s := s.withPhase _) listeners _ _ none
    rw [heq]
    exact hsilent rfl silent_updates
  | subscribeState chan => exact ⟨_, rfl, by simp [Sent.noticeChan]⟩
  | metadataRequest peer chan =>
    rcases s.handleMetadataPeerRequest_cases peer chan with ⟨metadata, -, heq⟩ | ⟨-, heq⟩
    · rw [heq]; exact ⟨_, rfl, by simp [Sent.noticeChan]⟩
    · rw [heq]; exact ⟨_, rfl, by simp [Sent.noticeChan]⟩
  | merkleRequest peer ranges chan hr =>
    obtain ⟨tree, hashes, -, -, rfl⟩ | ⟨-, rfl⟩ := State.handleMerklePeerRequest_ok hr
    · exact ⟨_, rfl, by simp [Sent.noticeChan]⟩
    · exact ⟨_, rfl, by simp [Sent.noticeChan]⟩
  | blockRequest peer ranges chan hr =>
    obtain ⟨blocks, -, rfl⟩ | ⟨-, rfl⟩ := State.handleBlockPeerRequest_ok hr
    · exact ⟨_, rfl, by simp [Sent.noticeChan]⟩
    · exact ⟨_, rfl, by simp [Sent.noticeChan]⟩
  | subscribeECG peer tips chan =>
    rcases s.handleEcgSubscribe_cases peer tips chan with ⟨ecg, heq⟩ | heq
    · rw [heq]; exact ⟨_, rfl, by simp [Sent.noticeChan]⟩
    · rw [heq]; exact .of_eq rfl

/-- **A later answer is the one that the phase after the command has.** -/
theorem State.InOrder.serves (h : s.InOrder n full) (hfits : cmd.Fits OT n full s)
    (hs : Handler.handleStore OT env listeners s cmd = .ok s') : s.Serves s' := by
  cases hd : cmd.isDownload with
  | true =>
    cases cmd with
    | receivedMetadata peer metadata =>
      obtain ⟨s₁, hr, hsend⟩ := bind_eq_ok.mp hs
      exact (serves_handleReceivedMetadata hr).touches (touches_sendSyncRequests hsend)
    | receivedMerkleHashes peer ranges nodes =>
      obtain ⟨s₁, hr, hsend⟩ := bind_eq_ok.mp hs
      exact (serves_handleReceivedMerkleHashes hr).touches (touches_sendSyncRequests hsend)
    | receivedInitialStateBlocks peer ranges blocks =>
      obtain ⟨s₁, hr, hsend⟩ := bind_eq_ok.mp hs
      exact (serves_handleReceivedInitialStateBlocks hr).touches (touches_sendSyncRequests hsend)
    | _ => cases hd
  | false =>
    have heffects := handleStore_effects hs
    clear hs
    have hboth : s'.InOrder n full ∧ s.Noticeless s' := by
      induction heffects with
      | refl => exact ⟨h, .of_eq rfl⟩
      | tail _ hc ih =>
        rcases hc with hc | hc
        · exact ⟨ih.1.change hc hd (fits_of_not_download hd hfits),
            ih.2.trans (ih.1.noticeless hc hd)⟩
        · exact ⟨ih.1.touches hc, ih.2.trans (.of_touches hc)⟩
    exact hboth.2.serves

end Handle

end Ossa.Store
