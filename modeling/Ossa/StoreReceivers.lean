import Ossa.StoreInFlight

/-!
Where the messages of a store go.

Every message of a store is sent with an `expect`, so a receiver that was dropped stops the store.
A command can only reach the receivers that the store holds, those that come with the command, and
the managers of connected peers; if none of these was dropped, the command is handled.
-/

namespace Ossa.Store

open Ossa.Loop Ossa.Util Ossa.Collections Ossa.Ecg Ossa.Crdt Relation

variable {StoreId H HeaderId Header Body T Op : Type} [LinearOrder HeaderId]

namespace Command

/-- The channel that comes with a command. -/
def chan : Command H HeaderId Header Body → Option Chan
  | .subscribeState sendState => some sendState
  | .syncWithPeer _ responseChan => some responseChan
  | .handleMetadataPeerRequest _ responseChan => some responseChan
  | .handleMerklePeerRequest _ _ responseChan => some responseChan
  | .handleBlockPeerRequest _ _ responseChan => some responseChan
  | .subscribeECG _ _ responseChan => some responseChan
  | _ => none

/-- The peer that a command makes ready, before the store sends requests. -/
def readies : Command H HeaderId Header Body → Option DeviceId
  | .registerOutgoingPeerSyncing peer => some peer
  | cmd => cmd.receivedFrom

/-- The receivers that come with a command. -/
def Brings (cmd : Command H HeaderId Header Body) : Receiver → Prop
  | .response chan => cmd.chan = some chan
  | .ecg chan => cmd.chan = some chan
  | .listener chan => cmd.chan = some chan
  | .task peer => cmd.readies = some peer
  | _ => False

end Command

namespace State

variable {s s' s'' : State StoreId H HeaderId Header T} {A B : Receiver → Prop}

/-- The receivers that a store holds: those of the requests that wait and of the subscribers, and
the tasks that it can send a request to. -/
def Holds (s : State StoreId H HeaderId Header T) : Receiver → Prop
  | .waiting chan => (∃ sub ∈ s.metadataSubscribers.toList, sub.2 = chan) ∨
    (∃ sub ∈ s.merkleSubscribers.toList, sub.2.2 = chan) ∨
    ∃ sub ∈ s.blockSubscribers.toList, sub.2.2 = chan
  | .ecg chan => ∃ sub ∈ s.ecgSubscribers.toList, sub.2 = chan
  | .task peer => s.Running peer false
  | _ => False

/-- What is sent goes to receivers of a kind. -/
def Tells (A : Receiver → Prop) (s s' : State StoreId H HeaderId Header T) : Prop :=
  ∃ l, s'.sent = s.sent ++ l ∧ ∀ m ∈ l, A m.receiver

lemma Tells.of_eq (h : s'.sent = s.sent) : s.Tells A s' :=
  ⟨[], h.trans (List.append_nil _).symm, by simp⟩

lemma Tells.of_send {m : Sent StoreId H HeaderId Header T} (h : s'.sent = s.sent ++ [m])
    (hm : A m.receiver) : s.Tells A s' :=
  ⟨[m], h, by simpa using hm⟩

lemma Tells.afterPeers {peers : BTreeMap DeviceId PeerInfo} : s.Tells A (s.AfterPeers peers []) :=
  .of_eq (List.append_nil _)

lemma Tells.trans (h : s.Tells A s') (h' : s'.Tells A s'') : s.Tells A s'' := by
  obtain ⟨l, hl, hA⟩ := h
  obtain ⟨l', hl', hA'⟩ := h'
  refine ⟨l ++ l', by rw [hl', hl, List.append_assoc], fun m hm => ?_⟩
  exact (List.mem_append.mp hm).elim (hA m) (hA' m)

lemma Tells.mono (h : s.Tells A s') (hAB : ∀ r, A r → B r) : s.Tells B s' := by
  obtain ⟨l, hl, hA⟩ := h
  exact ⟨l, hl, fun m hm => hAB _ (hA m hm)⟩

/-- What a command can reach. -/
def Reaches (s : State StoreId H HeaderId Header T) (listeners : List Chan) (env : Environment)
    (cmd : Command H HeaderId Header Body) (r : Receiver) : Prop :=
  s.Holds r ∨ cmd.Brings r ∨ (∃ l ∈ listeners, r = .listener l) ∨
    ∃ peer, env.connected peer = true ∧ r = .manager peer

lemma Reaches.mono {listeners : List Chan} {env : Environment}
    {cmd : Command H HeaderId Header Body} {r : Receiver} (h : s'.Reaches listeners env cmd r)
    (hs : ∀ r, s'.Holds r → s.Holds r ∨ cmd.Brings r) : s.Reaches listeners env cmd r := by
  rcases h with h | h
  · exact (hs r h).imp id Or.inl
  · exact Or.inr h

variable {listeners : List Chan} {env : Environment} {cmd : Command H HeaderId Header Body}

lemma mem_updates {latestState : T} {ecgState : UntypedState HeaderId Header}
    {fromPeer : Option DeviceId} {m : Sent StoreId H HeaderId Header T}
    (hm : m ∈ s.updates listeners latestState ecgState fromPeer) :
    s.Reaches listeners env cmd m.receiver := by
  rcases List.mem_append.mp hm with hm | hm
  · obtain ⟨l, hl, rfl⟩ := List.mem_map.mp hm
    exact Or.inr (Or.inr (Or.inl ⟨l, hl, rfl⟩))
  · obtain ⟨sub, hsub, rfl⟩ := List.mem_map.mp hm
    exact Or.inl ⟨sub, (List.mem_filter.mp hsub).1, rfl⟩

lemma holds_of_subs {subs : BTreeMap DeviceId Chan} {fromPeer : Option DeviceId}
    (hsubs : ∀ p, subs[p]? = if some p = fromPeer then s.ecgSubscribers[p]? else none)
    {sub : DeviceId × Chan} (hsub : sub ∈ subs.toList) : sub ∈ s.ecgSubscribers.toList := by
  have hget : subs[sub.1]? = some sub.2 := mem_toList.mp hsub
  rw [hsubs] at hget
  split_ifs at hget
  exact mem_toList.mpr hget

end State

open State

variable {s s' : State StoreId H HeaderId Header T} {listeners : List Chan}
variable {env env' : Environment} {cmd : Command H HeaderId Header Body} {peer : DeviceId}
variable [Hash H] [DecidableEq H] [DecidableEq StoreId]
variable [ECGHeader Header HeaderId] [CRDT T Op (OperationId HeaderId)]
variable {OT : OssaType StoreId H HeaderId Body T Op}

/-! ### Changes of the data -/

/-- **Each change** tells receivers in reach. -/
theorem Change.tells (h : Change OT listeners cmd s s') :
    s.Tells (s.Reaches listeners env cmd) s' := by
  cases h with
  | metadata peer metadata hv ht =>
    refine ⟨_, rfl, fun m hm => ?_⟩
    obtain ⟨sub, hsub, rfl⟩ := List.mem_map.mp hm
    exact Or.inl (Or.inl ⟨sub, hsub, rfl⟩)
  | merkle peer ranges nodes hs ht => exact .of_eq rfl
  | complete peer hs ht hn =>
    obtain ⟨notices, hnotices, rfl⟩ := notifyMerkleSubscribers_ok hn
    refine ⟨notices, rfl, fun m hm => ?_⟩
    obtain ⟨sub, hsub, hnotice⟩ := mem_of_mapM_eq_ok hnotices hm
    obtain ⟨reply, rfl, -⟩ := merkleNotice_ok hnotice
    exact Or.inl (Or.inr (Or.inl ⟨sub, hsub, rfl⟩))
  | blocks peer ranges theirBlocks hs hb => exact .of_eq rfl
  | syncing peer hs hb hn =>
    obtain ⟨m₀, tree₀, blocks₀, latest, notices, subs, -, -, hnotices, -, rfl⟩ :=
      updateStateToSyncing_ok hn
    refine ⟨_, List.append_assoc _ _ _, fun m hm => ?_⟩
    rcases List.mem_append.mp hm with hm | hm
    · exact mem_updates hm
    · obtain ⟨sub, hsub, hnotice⟩ := mem_of_mapM_eq_ok hnotices hm
      obtain ⟨blocks, -, rfl⟩ := blockNotice_ok hnotice
      exact Or.inl (Or.inr (Or.inr ⟨sub, hsub, rfl⟩))
  | operations peer operations hs hf =>
    obtain ⟨subs, heq, -⟩ := updateListeners_spec (s := s.withPhase _) listeners _ _ (some peer)
    rw [heq]
    exact ⟨_, rfl, fun m hm => mem_updates (s := s) hm⟩
  | apply header body hs hi ha =>
    obtain ⟨subs, heq, -⟩ := updateListeners_spec (s := s.withPhase _) listeners _ _ none
    rw [heq]
    exact ⟨_, rfl, fun m hm => mem_updates (s := s) hm⟩
  | subscribeState chan => exact .of_send rfl (Or.inr (Or.inl rfl))
  | metadataRequest peer chan =>
    rcases s.handleMetadataPeerRequest_cases peer chan with ⟨metadata, -, heq⟩ | ⟨-, heq⟩
    · rw [heq]; exact .of_send rfl (Or.inr (Or.inl rfl))
    · rw [heq]; exact .of_send rfl (Or.inr (Or.inl rfl))
  | merkleRequest peer ranges chan hr =>
    obtain ⟨tree, hashes, -, -, rfl⟩ | ⟨-, rfl⟩ := handleMerklePeerRequest_ok hr
    · exact .of_send rfl (Or.inr (Or.inl rfl))
    · exact .of_send rfl (Or.inr (Or.inl rfl))
  | blockRequest peer ranges chan hr =>
    obtain ⟨blocks, -, rfl⟩ | ⟨-, rfl⟩ := handleBlockPeerRequest_ok hr
    · exact .of_send rfl (Or.inr (Or.inl rfl))
    · exact .of_send rfl (Or.inr (Or.inl rfl))
  | subscribeECG peer tips chan =>
    rcases s.handleEcgSubscribe_cases peer tips chan with ⟨ecg, heq⟩ | heq
    · rw [heq]; exact .of_send rfl (Or.inr (Or.inl rfl))
    · rw [heq]; exact .of_eq rfl

lemma not_exists_mem_empty {β : Type} {P : DeviceId × β → Prop} :
    ¬ ∃ sub ∈ (∅ : BTreeMap DeviceId β).toList, P sub := by
  rintro ⟨sub, hmem, -⟩
  rw [toList_empty] at hmem
  cases hmem

lemma Change.holds_waiting (h : Change OT listeners cmd s s') (hchan : cmd.chan = none)
    {chan : Chan} (hr : s'.Holds (.waiting chan)) : s.Holds (.waiting chan) := by
  cases h with
  | metadata peer metadata hv ht => exact Or.inr (hr.resolve_left not_exists_mem_empty)
  | merkle peer ranges nodes hs ht => exact hr
  | complete peer hs ht hn =>
    obtain ⟨notices, -, rfl⟩ := notifyMerkleSubscribers_ok hn
    exact hr.imp id fun h => Or.inr (h.resolve_left not_exists_mem_empty)
  | blocks peer ranges theirBlocks hs hb => exact hr
  | syncing peer hs hb hn =>
    obtain ⟨_, _, _, _, _, _, -, -, -, -, rfl⟩ := updateStateToSyncing_ok hn
    exact hr.imp id fun h => Or.inl (h.resolve_right not_exists_mem_empty)
  | operations peer operations hs hf =>
    obtain ⟨subs, heq, -⟩ := updateListeners_spec (s := s.withPhase _) listeners _ _ (some peer)
    rw [heq] at hr
    exact hr
  | apply header body hs hi ha =>
    obtain ⟨subs, heq, -⟩ := updateListeners_spec (s := s.withPhase _) listeners _ _ none
    rw [heq] at hr
    exact hr
  | _ => cases hchan

lemma Change.holds_ecg (h : Change OT listeners cmd s s') (hchan : cmd.chan = none) {chan : Chan}
    (hr : s'.Holds (.ecg chan)) : s.Holds (.ecg chan) := by
  cases h with
  | metadata peer metadata hv ht => exact hr
  | merkle peer ranges nodes hs ht => exact hr
  | complete peer hs ht hn =>
    obtain ⟨notices, -, rfl⟩ := notifyMerkleSubscribers_ok hn
    exact hr
  | blocks peer ranges theirBlocks hs hb => exact hr
  | syncing peer hs hb hn =>
    obtain ⟨_, _, _, _, _, subs, -, -, -, hsubs, rfl⟩ := updateStateToSyncing_ok hn
    obtain ⟨sub, hsub, rfl⟩ := hr
    exact ⟨sub, holds_of_subs hsubs hsub, rfl⟩
  | operations peer operations hs hf =>
    obtain ⟨subs, heq, hsubs⟩ := updateListeners_spec (s := s.withPhase _) listeners _ _ (some peer)
    rw [heq] at hr
    obtain ⟨sub, hsub, rfl⟩ := hr
    exact ⟨sub, holds_of_subs (s := s) hsubs hsub, rfl⟩
  | apply header body hs hi ha =>
    obtain ⟨subs, heq, hsubs⟩ := updateListeners_spec (s := s.withPhase _) listeners _ _ none
    rw [heq] at hr
    obtain ⟨sub, hsub, rfl⟩ := hr
    exact ⟨sub, holds_of_subs (s := s) hsubs hsub, rfl⟩
  | _ => cases hchan

/-- What the store holds after a change, it held before, unless a channel came with the command. -/
theorem Change.holds (h : Change OT listeners cmd s s') (hchan : cmd.chan = none) {r : Receiver}
    (hr : s'.Holds r) : s.Holds r := by
  cases r with
  | response chan => exact hr
  | listener chan => exact hr
  | manager peer => exact hr
  | waiting chan => exact h.holds_waiting hchan hr
  | ecg chan => exact h.holds_ecg hchan hr
  | task peer =>
    have hframe := h.frame.1
    simp only [Holds, Running, hframe] at hr ⊢
    exact hr

variable (env) in
lemma tells_of_changes (h : Changes OT listeners cmd s s') (hchan : cmd.chan = none) :
    s.Tells (s.Reaches listeners env cmd) s' ∧ ∀ r, s'.Holds r → s.Holds r := by
  induction h with
  | refl => exact ⟨.of_eq rfl, fun _ => id⟩
  | tail _ hc ih =>
    obtain ⟨htells, hholds⟩ := ih
    refine ⟨htells.trans (hc.tells.mono fun r hr => hr.mono fun r hr => Or.inl (hholds r hr)),
      fun r hr => hholds r (hc.holds hchan hr)⟩

/-! ### Peers -/

omit [Hash H] [DecidableEq H] [DecidableEq StoreId] [ECGHeader Header HeaderId]
  [CRDT T Op (OperationId HeaderId)] in
lemma tells_sendSyncRequests (h : s.sendSyncRequests env.rng = .ok s') :
    s.Tells (s.Reaches listeners env cmd) s' := by
  obtain ⟨reqs, peers, hreqs, rfl, -⟩ := sendSyncRequests_ok h
  refine ⟨_, rfl, fun m hm => ?_⟩
  obtain ⟨req, hreq, rfl⟩ := List.mem_map.mp hm
  exact Or.inl ((ready_of_syncRequests hreqs).2 req.1 (List.mem_map_of_mem hreq))

omit [Hash H] [DecidableEq H] [DecidableEq StoreId] [ECGHeader Header HeaderId]
  [CRDT T Op (OperationId HeaderId)] in
lemma holds_of_ready {info : PeerInfo} {r : Receiver} (hready : cmd.readies = some peer)
    (hr : (s.AfterPeers (s.peers.insert peer info) []).Holds r) : s.Holds r ∨ cmd.Brings r := by
  cases r with
  | task q =>
    by_cases hq : q = peer
    · exact Or.inr (hq ▸ hready)
    · obtain ⟨info', hget, hd⟩ := hr
      exact Or.inl ⟨info', (get_insert.trans (if_neg hq)).symm.trans hget, hd⟩
  | _ => exact Or.inl hr

omit [DecidableEq H] [DecidableEq StoreId] [ECGHeader Header HeaderId]
  [CRDT T Op (OperationId HeaderId)] in
lemma tells_managePeers {into : H → StoreId} (h : s.managePeers into env.connected = .ok s') :
    s.Tells (fun r => ∃ peer, env.connected peer = true ∧ r = .manager peer) s' := by
  refine foldlM_invariant (I := s.Tells _) h (.of_eq rfl) fun t t' p hp ht hstep => ?_
  obtain ⟨t₁, hinit, heq⟩ := bind_eq_ok.mp hstep
  cases heq
  obtain ⟨info, -, -, rfl⟩ := updatePeerToInitializing_ok hinit
  exact ht.trans (Tells.afterPeers.trans (.of_send rfl ⟨p, (List.mem_filter.mp hp).2, rfl⟩))

omit [Hash H] [DecidableEq H] [DecidableEq StoreId] [ECGHeader Header HeaderId]
  [CRDT T Op (OperationId HeaderId)] in
lemma tells_syncWithPeer {chan : Chan} (h : s.syncWithPeer peer chan = .ok s')
    (hchan : cmd.chan = some chan) : s.Tells (s.Reaches listeners env cmd) s' := by
  obtain ⟨info, -, h⟩ := bind_eq_ok.mp h
  refine Tells.trans (.of_eq (sent_insertKnownPeers [peer] s)) ?_
  split_ifs at h with hk
  · obtain ⟨s₁, hinit, heq⟩ := bind_eq_ok.mp h
    cases heq
    obtain ⟨info', -, -, rfl⟩ := updatePeerToInitializing_ok hinit
    exact Tells.afterPeers.trans (.of_send rfl (Or.inr (Or.inl hchan)))
  · cases h
    exact .of_send rfl (Or.inr (Or.inl hchan))

/-! ### Commands -/

/-- **A command only tells receivers in reach.** -/
theorem handleStore_tells (h : Handler.handleStore OT env listeners s cmd = .ok s') :
    s.Tells (s.Reaches listeners env cmd) s' := by
  -- what follows a peer that was made ready
  have hround : ∀ {peer info s₂}, cmd.readies = some peer → cmd.chan = none →
      Changes OT listeners cmd (s.AfterPeers (s.peers.insert peer info) []) s₂ →
      s₂.sendSyncRequests env.rng = .ok s' → s.Tells (s.Reaches listeners env cmd) s' := by
    intro peer info s₂ hready hchan hc hs
    obtain ⟨htells, hholds⟩ := tells_of_changes env hc hchan
    refine Tells.afterPeers.trans
      ((htells.mono fun r hr => hr.mono fun r => holds_of_ready hready).trans
        ((tells_sendSyncRequests hs).mono fun r hr => hr.mono fun r hr => ?_))
    exact holds_of_ready hready (hholds r hr)
  have hreceived : ∀ {peer}, cmd.receivedFrom = some peer →
      s.Tells (s.Reaches listeners env cmd) s' := by
    intro peer hfrom
    obtain ⟨s₁, s₂, hr, hc, hs⟩ := handleStore_received hfrom h
    obtain ⟨info, b, -, -, rfl⟩ := updateOutgoingPeerToReady_ok hr
    cases cmd <;> first | cases hfrom; exact hround rfl rfl hc hs | cases hfrom
  cases cmd with
  | apply header body => exact (tells_of_changes env (changes_apply h) rfl).1
  | subscribeState chan =>
    cases h
    exact (Change.subscribeState chan : Change OT listeners _ s _).tells
  | registerPeers peers =>
    exact Tells.trans (.of_eq (sent_insertKnownPeers peers s))
      ((tells_managePeers h).mono fun r hr => Or.inr (Or.inr (Or.inr hr)))
  | syncWithPeer peer chan => exact tells_syncWithPeer h rfl
  | registerOutgoingPeerSyncing peer =>
    obtain ⟨s₁, hp, h⟩ := bind_eq_ok.mp h
    obtain ⟨info, -, -, rfl⟩ := updatePeerToSyncing_ok hp
    exact hround rfl rfl .refl h
  | registerIncomingPeerSyncing peer =>
    obtain ⟨info, -, -, rfl⟩ := updatePeerToSyncing_ok h
    exact .afterPeers
  | handleMetadataPeerRequest peer chan =>
    cases h
    exact (Change.metadataRequest peer chan : Change OT listeners _ s _).tells
  | handleMerklePeerRequest peer ranges chan =>
    exact (Change.merkleRequest peer ranges chan h : Change OT listeners _ s _).tells
  | handleBlockPeerRequest peer ranges chan =>
    exact (Change.blockRequest peer ranges chan h : Change OT listeners _ s _).tells
  | receivedMetadata peer metadata => exact hreceived rfl
  | receivedMerkleHashes peer ranges nodes => exact hreceived rfl
  | receivedInitialStateBlocks peer ranges blocks => exact hreceived rfl
  | receivedECGOperations peer operations => exact hreceived rfl
  | subscribeECG peer tips chan =>
    cases h
    exact (Change.subscribeECG peer tips chan : Change OT listeners _ s _).tells

/-- No receiver that the command can reach was dropped. -/
def Handler.Heard (h : Handler StoreId H HeaderId Header T) (env : Environment)
    (cmd : Command H HeaderId Header Body) : Prop :=
  ∀ r, h.store.Reaches h.listeners env cmd r → env.alive r = true

/-- **A command that is heard** is handled as if nobody could be gone. -/
theorem Handler.handle_of_heard {h : Handler StoreId H HeaderId Header T}
    (hs : handleStore OT env h.listeners h.store cmd = .ok s) (hh : h.Heard env cmd) :
    h.handle OT env cmd = .ok ⟨s, handleListeners h.listeners cmd⟩ := by
  obtain ⟨l, hl, hreach⟩ := handleStore_tells hs
  refine handle_of_handleStore hs fun m hm => hh _ (hreach m ?_)
  rwa [hl, List.drop_left] at hm

omit [Hash H] [DecidableEq H] [DecidableEq StoreId] [ECGHeader Header HeaderId]
  [CRDT T Op (OperationId HeaderId)] in
lemma System.heard_of_receive {sys : System StoreId H HeaderId Header Body T}
    (ho : sys.offered (.receive env peer) = some (env', cmd)) (halive : ∀ r, env.alive r = true) :
    sys.handler.Heard env' cmd := by
  obtain ⟨cmd', -, heq⟩ := Option.map_eq_some_iff.mp ho
  cases heq
  exact fun r _ => halive r

end Ossa.Store
