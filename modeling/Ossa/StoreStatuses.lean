import Ossa.StoreForward

/-!
What a command does to the status of one peer, and what it asks the peer's manager for.

The status of a peer moves in its incoming direction when the peer asks to sync, and when the task
that is spawned then registers; in its outgoing direction when peers are managed, in which case
its manager is asked for a stream, and when the task of that stream registers.
-/

namespace Ossa.Store

open Ossa.Loop Ossa.Util Ossa.Collections Ossa.Ecg Ossa.Crdt State

variable {StoreId H HeaderId Header Body T Op : Type} [LinearOrder HeaderId]

namespace State

/-- How far the store has come with syncing from the peer. -/
def outRank (s : State StoreId H HeaderId Header T) (p : DeviceId) : ℕ :=
  rankOf PeerInfo.outgoing s.peers[p]?

/-- How far the store has come with letting the peer sync. -/
def inRank (s : State StoreId H HeaderId Header T) (p : DeviceId) : ℕ :=
  rankOf PeerInfo.incoming s.peers[p]?

end State

/-- The stores that the manager of a peer is asked to sync. -/
def syncRequested (p : DeviceId) (l : List (Sent StoreId H HeaderId Header T)) : List StoreId :=
  l.filterMap fun
    | .requestStoreSync peer storeId => if peer = p then some storeId else none
    | _ => none

@[simp] lemma syncRequested_nil (p : DeviceId) :
    syncRequested p ([] : List (Sent StoreId H HeaderId Header T)) = [] := rfl

lemma syncRequested_append (p : DeviceId) (l l' : List (Sent StoreId H HeaderId Header T)) :
    syncRequested p (l ++ l') = syncRequested p l ++ syncRequested p l' := List.filterMap_append ..

variable {s s' s'' : State StoreId H HeaderId Header T} {p peer : DeviceId}

lemma syncRequested_commands (reqs : List (DeviceId × StoreSyncCommand HeaderId Header)) :
    syncRequested p (commands reqs : List (Sent StoreId H HeaderId Header T)) = [] :=
  List.filterMap_eq_nil_iff.mpr fun m hm => by
    obtain ⟨r, -, rfl⟩ := List.mem_map.mp hm
    rfl

lemma syncRequested_of_data {l : List (Sent StoreId H HeaderId Header T)}
    (h : ∀ m ∈ l, ¬ m.IsPeerMessage) : syncRequested p l = [] :=
  List.filterMap_eq_nil_iff.mpr fun m hm => by
    cases m with
    | requestStoreSync peer storeId => exact absurd trivial (h _ hm)
    | _ => rfl

/-! ### The status of a peer stays -/

namespace State

/-- Where peer `p` is afterwards, whether it is known, and what its manager is asked to sync. -/
structure Moves (p : DeviceId) (s s' : State StoreId H HeaderId Header T) (out into : ℕ)
    (known : Bool) (ids : List StoreId) : Prop where
  outRank : s'.outRank p = out
  inRank : s'.inRank p = into
  contains : s'.peers.contains p = known
  sent : ∃ l, s'.sent = s.sent ++ l ∧ syncRequested p l = ids

/-- For peer `p` nothing happens but that its task may be asked, or is ready. -/
abbrev Still (p : DeviceId) (s s' : State StoreId H HeaderId Header T) : Prop :=
  s.Moves p s' (s.outRank p) (s.inRank p) (s.peers.contains p) []

lemma Moves.trans {out out' into into' : ℕ} {known known' : Bool} {ids ids' : List StoreId}
    (h : s.Moves p s' out into known ids) (h' : s'.Moves p s'' out' into' known' ids') :
    s.Moves p s'' out' into' known' (ids ++ ids') := by
  obtain ⟨l, hl, hids⟩ := h.sent
  obtain ⟨l', hl', hids'⟩ := h'.sent
  refine ⟨h'.outRank, h'.inRank, h'.contains, l ++ l', by rw [hl', hl, List.append_assoc], ?_⟩
  rw [syncRequested_append, hids, hids']

lemma Moves.then_still {out into : ℕ} {known : Bool} {ids : List StoreId}
    (h : s.Moves p s' out into known ids) (h' : s'.Still p s'') :
    s.Moves p s'' out into known ids := by
  have hnext := h.trans h'
  rwa [h.outRank, h.inRank, h.contains, List.append_nil] at hnext

end State

namespace State.Still

lemma refl (s : State StoreId H HeaderId Header T) : s.Still p s :=
  ⟨rfl, rfl, rfl, [], (List.append_nil _).symm, rfl⟩

lemma trans (h : s.Still p s') (h' : s'.Still p s'') : s.Still p s'' :=
  h.then_still h'

lemma of_insert {info info' : PeerInfo} {l : List (Sent StoreId H HeaderId Header T)}
    (hget : s.peers[peer]? = some info)
    (hin : info'.incomingStatus.rank = info.incomingStatus.rank)
    (hout : info'.outgoingStatus.rank = info.outgoingStatus.rank) (hl : syncRequested p l = []) :
    s.Still p (s.AfterPeers (s.peers.insert peer info') l) := by
  have hranks := sameRanks_insert (l := l) hget hin hout p
  refine ⟨hranks.2, hranks.1, ?_, l, rfl, hl⟩
  show (s.peers.insert peer info').contains p = _
  rw [Std.ExtTreeMap.contains_insert]
  by_cases hp : peer = p
  · subst hp
    simpa using (contains_iff.mpr ⟨info, hget⟩).symm
  · simp [hp]

lemma of_ne (info' : PeerInfo) {l : List (Sent StoreId H HeaderId Header T)} (hp : p ≠ peer)
    (hl : syncRequested p l = []) : s.Still p (s.AfterPeers (s.peers.insert peer info') l) := by
  have hget : (s.peers.insert peer info')[p]? = s.peers[p]? := get_insert.trans (if_neg hp)
  refine ⟨congrArg (rankOf PeerInfo.outgoing) hget, congrArg (rankOf PeerInfo.incoming) hget, ?_,
    l, rfl, hl⟩
  show (s.peers.insert peer info').contains p = _
  rw [Std.ExtTreeMap.contains_insert]
  simp [Ne.symm hp]

lemma ready (h : s.updateOutgoingPeerToReady peer = .ok s') : s.Still p s' := by
  obtain ⟨info, b, hget, hd, rfl⟩ := updateOutgoingPeerToReady_ok h
  exact of_insert hget rfl (by rw [hd]; rfl) rfl

lemma sendSyncRequests {rng : Rng} (h : s.sendSyncRequests rng = .ok s') : s.Still p s' := by
  have hranks := sameRanks_sendSyncRequests h p
  obtain ⟨reqs, peers, hreqs, rfl, hpeers⟩ := sendSyncRequests_ok h
  refine ⟨hranks.2, hranks.1, ?_, _, rfl, syncRequested_commands reqs⟩
  have hsome : peers[p]?.isSome = s.peers[p]?.isSome := by
    rw [hpeers p]
    split_ifs
    · exact Option.isSome_map
    · rfl
  show peers.contains p = s.peers.contains p
  simpa using hsome

lemma insertKnownPeer (hp : p ≠ peer) : s.Still p (s.insertKnownPeer peer) := by
  unfold State.insertKnownPeer
  split_ifs
  · exact .refl s
  · have hnext := of_ne (s := s) ⟨.known, .known⟩ (l := []) hp rfl
    rwa [AfterPeers, List.append_nil] at hnext

lemma insertKnownPeers {peers : List DeviceId} (hp : p ∉ peers) :
    s.Still p (peers.foldl State.insertKnownPeer s) := by
  induction peers generalizing s with
  | nil => exact .refl s
  | cons q peers ih =>
    obtain ⟨hq, hp⟩ := not_or.mp (List.mem_cons.not.mp hp)
    exact (insertKnownPeer hq).trans (ih hp)

lemma syncWithPeer {chan : Chan} (hp : p ≠ peer) (h : s.syncWithPeer peer chan = .ok s') :
    s.Still p s' := by
  obtain ⟨info, hinfo, h⟩ := bind_eq_ok.mp h
  refine (insertKnownPeer hp).trans ?_
  split_ifs at h
  · obtain ⟨s₁, hs₁, heq⟩ := bind_eq_ok.mp h
    cases heq
    obtain ⟨info', -, -, rfl⟩ := updatePeerToInitializing_ok hs₁
    have hne := of_ne (s := s.insertKnownPeer peer) (PeerInfo.incoming.set info' .initializing)
      (l := [.syncResponse chan (some peer)]) hp rfl
    simpa [AfterPeers, State.send] using hne
  · cases h
    exact ⟨rfl, rfl, rfl, [.syncResponse chan none], rfl, rfl⟩

lemma updatePeerToSyncing {A : Type} {d : PeerInfo.Direction A} {a : A} (hp : p ≠ peer)
    (h : s.updatePeerToSyncing peer d a = .ok s') : s.Still p s' := by
  obtain ⟨info, -, -, rfl⟩ := updatePeerToSyncing_ok h
  exact of_ne _ hp rfl

variable [Hash H] [DecidableEq H] [DecidableEq StoreId]
variable [ECGHeader Header HeaderId] [CRDT T Op (OperationId HeaderId)]
variable {OT : OssaType StoreId H HeaderId Body T Op} {listeners : List Chan}
variable {cmd : Command H HeaderId Header Body}

lemma changes (h : Changes OT listeners cmd s s') : s.Still p s' := by
  induction h with
  | refl => exact .refl s
  | tail _ hc ih =>
    obtain ⟨hpeers, l, hl, hdata⟩ := hc.frame
    refine ih.trans ⟨?_, ?_, by rw [hpeers], l, hl, syncRequested_of_data hdata⟩
    · rw [State.outRank, hpeers, State.outRank]
    · rw [State.inRank, hpeers, State.inRank]

end State.Still

/-! ### The store finds what to ask for -/

/-- The phase is not one that should be over. -/
def StateMachine.CanAsk : StateMachine StoreId H HeaderId Header T → Prop
  | downloadingMerkle _ tree => tree.missingIndices ≠ []
  | downloadingInitialState _ _ blocks => State.missingBlocks blocks ≠ []
  | _ => True

lemma canAsk_of_syncRequests {rng : Rng} {reqs : List (DeviceId × StoreSyncCommand HeaderId Header)}
    (h : s.syncRequests rng = .ok reqs) : s.stateMachine.CanAsk := by
  unfold State.syncRequests at h
  dsimp only at h
  cases hs : s.stateMachine with
  | downloadingMerkle metadata tree =>
    rw [hs] at h
    dsimp only at h
    split_ifs at h with hempty
    intro hnil
    rw [hnil] at hempty
    exact hempty rfl
  | downloadingInitialState metadata tree blocks =>
    rw [hs] at h
    dsimp only at h
    split_ifs at h with hempty
    intro hnil
    rw [hnil] at hempty
    exact hempty rfl
  | _ => trivial

lemma StateMachine.CanAsk.exists_syncRequests (h : s.stateMachine.CanAsk) (rng : Rng) :
    ∃ reqs, s.syncRequests rng = .ok reqs := by
  unfold State.syncRequests
  dsimp only
  cases hs : s.stateMachine with
  | downloadingMerkle metadata tree =>
    rw [hs] at h
    exact ⟨_, if_neg (by simpa using chunks_ne_nil (by decide) h)⟩
  | downloadingInitialState metadata tree blocks =>
    rw [hs] at h
    exact ⟨_, if_neg (by simpa using chunks_ne_nil (by decide) h)⟩
  | _ => exact ⟨_, rfl⟩

lemma StateMachine.CanAsk.exists_sendSyncRequests (h : s.stateMachine.CanAsk) (rng : Rng)
    (peers : BTreeMap DeviceId PeerInfo) :
    ∃ t, (s.AfterPeers peers []).sendSyncRequests rng = .ok t := by
  obtain ⟨reqs, hreqs⟩ := exists_syncRequests (s := s.AfterPeers peers []) h rng
  obtain ⟨peers', heq, -⟩ := sendSyncRequests_spec hreqs
  exact ⟨_, heq⟩

/-! ### Tasks register -/

lemma exists_updatePeerToSyncing {A : Type} {d : PeerInfo.Direction A} {a : A}
    (hrank : rankOf d s.peers[p]? = 1) : ∃ info, s.peers[p]? = some info ∧
      s.updatePeerToSyncing p d a =
        .ok (s.AfterPeers (s.peers.insert p (d.set info (.syncing a))) []) := by
  unfold rankOf at hrank
  cases hp : s.peers[p]? with
  | none => simp [hp] at hrank
  | some info =>
    rw [hp] at hrank
    have hd : d.get info = .initializing := by
      have hone : (d.get info).rank = 1 := hrank
      cases hd : d.get info <;> simp_all [PeerStatus.rank]
    exact ⟨info, rfl, updatePeerToSyncing_eq hp hd⟩

/-! ### Peers are managed -/

section Manage

variable [Hash H] {into : H → StoreId} {connected : DeviceId → Bool}

/-- The peer's manager is asked for a stream. -/
structure State.Starts (into : H → StoreId) (p : DeviceId)
    (s s' : State StoreId H HeaderId Header T) : Prop where
  known : s.peers.contains p = true
  before : s.outRank p = 0
  moves : s.Moves p s' 1 (s.inRank p) true [s.stateMachine.storeId into]

lemma State.Still.starts (h : s.Still p s') (hsm : s'.stateMachine = s.stateMachine)
    (h' : s'.Starts into p s'') : s.Starts into p s'' := by
  refine ⟨h.contains ▸ h'.known, h.outRank ▸ h'.before, ?_⟩
  have hnext := State.Moves.trans h h'.moves
  rwa [h.inRank, hsm, List.nil_append] at hnext

lemma State.Starts.still (h : s.Starts into p s') (h' : s'.Still p s'') :
    s.Starts into p s'' :=
  ⟨h.known, h.before, h.moves.then_still h'⟩

lemma manage_one {t : State StoreId H HeaderId Header T} (h : (do
      let s ← s.updatePeerToInitializing peer PeerInfo.outgoing
      pure (s.send (.requestStoreSync peer (s.stateMachine.storeId into)))) = .ok t) :
    t.stateMachine = s.stateMachine ∧
      if p = peer then s.Starts into p t else s.Still p t := by
  obtain ⟨s₁, hs₁, heq⟩ := bind_eq_ok.mp h
  cases heq
  obtain ⟨info, hget, hd, rfl⟩ := updatePeerToInitializing_ok hs₁
  have hsend : (s.AfterPeers (s.peers.insert peer (PeerInfo.outgoing.set info .initializing))
      []).send (.requestStoreSync peer (s.stateMachine.storeId into)) =
      s.AfterPeers (s.peers.insert peer (PeerInfo.outgoing.set info .initializing))
        [.requestStoreSync peer (s.stateMachine.storeId into)] := by
    simp [AfterPeers, State.send]
  refine ⟨rfl, ?_⟩
  rw [show (s.AfterPeers _ []).stateMachine = s.stateMachine from rfl, hsend]
  split_ifs with hp
  · subst hp
    have hinsert : (s.peers.insert p (PeerInfo.outgoing.set info .initializing))[p]? =
        some (PeerInfo.outgoing.set info .initializing) := get_insert.trans (if_pos rfl)
    refine ⟨contains_iff.mpr ⟨info, hget⟩, ?_, congrArg (rankOf PeerInfo.outgoing) hinsert, ?_,
      contains_iff.mpr ⟨_, hinsert⟩, _, rfl, by simp [syncRequested]⟩
    · rw [State.outRank, hget]
      exact congrArg PeerStatus.rank hd
    · rw [State.inRank, State.inRank, hget]
      exact (congrArg (rankOf PeerInfo.incoming) hinsert).trans rfl
  · exact .of_ne _ hp (by simp [syncRequested, Ne.symm hp])

/-- **Peers are managed**: those that are known, connected and not asked yet are asked. -/
theorem managePeers_spec (h : s.managePeers into connected = .ok s') (p : DeviceId) :
    s'.stateMachine = s.stateMachine ∧
      if s.peers.contains p = true ∧ s.outRank p = 0 ∧ connected p = true
        then s.Starts into p s' else s.Still p s' := by
  have hfold : ∀ (l : List DeviceId) (t t' : State StoreId H HeaderId Header T), l.Nodup →
      l.foldlM (fun s peer => do
        let s ← s.updatePeerToInitializing peer PeerInfo.outgoing
        pure (s.send (.requestStoreSync peer (s.stateMachine.storeId into)))) t = .ok t' →
      t'.stateMachine = t.stateMachine ∧
        if p ∈ l then t.Starts into p t' else t.Still p t' := by
    intro l
    induction l with
    | nil =>
      rintro t t' - h
      cases h
      exact ⟨rfl, by rw [if_neg List.not_mem_nil]; exact .refl t⟩
    | cons q l ih =>
      intro t t' hnodup h
      obtain ⟨hq, hnodup⟩ := List.nodup_cons.mp hnodup
      rw [List.foldlM_cons] at h
      obtain ⟨t₁, hone, hrest⟩ := bind_eq_ok.mp h
      obtain ⟨hsm, hfirst⟩ := manage_one (p := p) hone
      obtain ⟨hsm', hrest⟩ := ih t₁ t' hnodup hrest
      refine ⟨hsm'.trans hsm, ?_⟩
      by_cases hpq : p = q
      · subst hpq
        rw [if_pos rfl] at hfirst
        rw [if_neg hq] at hrest
        rw [if_pos List.mem_cons_self]
        exact hfirst.still hrest
      · rw [if_neg hpq] at hfirst
        by_cases hp : p ∈ l
        · rw [if_pos hp] at hrest
          rw [if_pos (List.mem_cons_of_mem _ hp)]
          exact hfirst.starts hsm hrest
        · rw [if_neg hp] at hrest
          rw [if_neg (not_or.mpr ⟨hpq, hp⟩ ∘ List.mem_cons.mp)]
          exact hfirst.trans hrest
  have hmem : p ∈ ((s.peers.toList.filter fun p => p.2.outgoingStatus.isKnown).map
      Prod.fst).filter connected ↔
        s.peers.contains p = true ∧ s.outRank p = 0 ∧ connected p = true := by
    rw [List.mem_filter, List.mem_map, ← and_assoc]
    refine and_congr_left fun _ => ?_
    rw [contains_iff, State.outRank]
    constructor
    · rintro ⟨⟨q, info⟩, hq, rfl⟩
      obtain ⟨hq, hknown⟩ := List.mem_filter.mp hq
      have hget := mem_toList.mp hq
      refine ⟨⟨info, hget⟩, ?_⟩
      rw [hget]
      show info.outgoingStatus.rank = 0
      cases hd : info.outgoingStatus <;> simp_all [PeerStatus.isKnown, PeerStatus.rank]
    · rintro ⟨⟨info, hget⟩, hrank⟩
      refine ⟨(p, info), List.mem_filter.mpr ⟨mem_toList.mpr hget, ?_⟩, rfl⟩
      rw [hget] at hrank
      have hzero : info.outgoingStatus.rank = 0 := hrank
      cases hd : info.outgoingStatus <;> simp_all [PeerStatus.isKnown, PeerStatus.rank]
  obtain ⟨hsm, hresult⟩ := hfold _ s s'
    (((nodup_keys s.peers).sublist (List.filter_sublist.map _)).filter _) h
  refine ⟨hsm, ?_⟩
  by_cases hp : s.peers.contains p = true ∧ s.outRank p = 0 ∧ connected p = true
  · rw [if_pos (hmem.mpr hp)] at hresult
    rw [if_pos hp]
    exact hresult
  · rw [if_neg (hp ∘ hmem.mp)] at hresult
    rw [if_neg hp]
    exact hresult

end Manage

/-! ### The commands -/

section Command

variable [Hash H] [DecidableEq H] [DecidableEq StoreId]
variable [ECGHeader Header HeaderId] [CRDT T Op (OperationId HeaderId)]
variable {OT : OssaType StoreId H HeaderId Body T Op} {env : Environment} {listeners : List Chan}
variable {cmd : Command H HeaderId Header Body}

/-- The command says something about peer `p` that its manager or a task of it says. -/
def Command.isAbout (p : DeviceId) : Command H HeaderId Header Body → Bool
  | registerPeers peers => peers.contains p
  | syncWithPeer peer _ => decide (peer = p)
  | registerOutgoingPeerSyncing peer => decide (peer = p)
  | registerIncomingPeerSyncing peer => decide (peer = p)
  | _ => false

/-- **A command about others**: the peer's manager is asked at most once, if it was not yet. -/
theorem handleStore_still (hcmd : cmd.isAbout p = false)
    (h : Handler.handleStore OT env listeners s cmd = .ok s') :
    s.Still p s' ∨ s.Starts OT.into p s' := by
  have hreceived : ∀ {peer}, cmd.receivedFrom = some peer → s.Still p s' := by
    intro peer hfrom
    obtain ⟨s₁, s₂, hr, hc, hs⟩ := handleStore_received hfrom h
    exact (State.Still.ready hr).trans ((State.Still.changes hc).trans (.sendSyncRequests hs))
  cases cmd with
  | registerPeers peers =>
    have hp : p ∉ peers := by simpa [Command.isAbout] using hcmd
    obtain ⟨hsm, hmanage⟩ := managePeers_spec h p
    have hstill : s.Still p (peers.foldl insertKnownPeer s) := .insertKnownPeers hp
    have hsame : (peers.foldl insertKnownPeer s).stateMachine = s.stateMachine :=
      (touches_insertKnownPeers peers).stateMachine_eq
    split_ifs at hmanage
    · exact Or.inr (hstill.starts hsame hmanage)
    · exact Or.inl (hstill.trans hmanage)
  | syncWithPeer peer chan =>
    exact Or.inl (.syncWithPeer (Ne.symm (by simpa [Command.isAbout] using hcmd)) h)
  | registerOutgoingPeerSyncing peer =>
    obtain ⟨s₁, hs, h⟩ := bind_eq_ok.mp h
    have hp : p ≠ peer := Ne.symm (by simpa [Command.isAbout] using hcmd)
    exact Or.inl ((State.Still.updatePeerToSyncing hp hs).trans (.sendSyncRequests h))
  | registerIncomingPeerSyncing peer =>
    have hp : p ≠ peer := Ne.symm (by simpa [Command.isAbout] using hcmd)
    exact Or.inl (State.Still.updatePeerToSyncing hp h)
  | receivedMetadata peer _ => exact Or.inl (hreceived rfl)
  | receivedMerkleHashes peer _ _ => exact Or.inl (hreceived rfl)
  | receivedInitialStateBlocks peer _ _ => exact Or.inl (hreceived rfl)
  | receivedECGOperations peer _ => exact Or.inl (hreceived rfl)
  | apply _ _ => exact Or.inl (.changes (changes_of_data rfl h))
  | subscribeState _ => exact Or.inl (.changes (changes_of_data rfl h))
  | handleMetadataPeerRequest _ _ => exact Or.inl (.changes (changes_of_data rfl h))
  | handleMerklePeerRequest _ _ _ => exact Or.inl (.changes (changes_of_data rfl h))
  | handleBlockPeerRequest _ _ _ => exact Or.inl (.changes (changes_of_data rfl h))
  | subscribeECG _ _ _ => exact Or.inl (.changes (changes_of_data rfl h))

variable (OT env listeners)

/-- **The peer is registered**: it is known from then on, and its manager was asked. -/
theorem handleStore_registerPeer (s : State StoreId H HeaderId Header T)
    (hconnected : env.connected p = true) : ∃ s',
    Handler.handleStore OT env listeners s (.registerPeers [p]) = .ok s' ∧
    s'.stateMachine = s.stateMachine ∧
    if s.outRank p = 0 then s.Moves p s' 1 (s.inRank p) true [s.stateMachine.storeId OT.into]
      else s.Moves p s' (s.outRank p) (s.inRank p) true [] := by
  have hknown : (s.insertKnownPeer p).peers.contains p = true ∧
      (s.insertKnownPeer p).outRank p = s.outRank p ∧
      (s.insertKnownPeer p).inRank p = s.inRank p ∧ (s.insertKnownPeer p).sent = s.sent ∧
      (s.insertKnownPeer p).stateMachine = s.stateMachine := by
    have hranks := sameRanks_insertKnownPeer s p p
    refine ⟨?_, hranks.2, hranks.1, ?_, ?_⟩
    all_goals unfold State.insertKnownPeer
    all_goals split_ifs with hc
    · exact hc
    · exact contains_iff.mpr ⟨_, get_insert.trans (if_pos rfl)⟩
    all_goals rfl
  obtain ⟨hcontains, hout, hin, hsent, hsm⟩ := hknown
  obtain ⟨s', hs'⟩ : ∃ s', (s.insertKnownPeer p).managePeers OT.into env.connected = .ok s' :=
    exists_managePeers _ _ _
  obtain ⟨hsm', hmanage⟩ := managePeers_spec hs' p
  refine ⟨s', hs', hsm'.trans hsm, ?_⟩
  have hbefore : s.Moves p (s.insertKnownPeer p) (s.outRank p) (s.inRank p) true [] :=
    ⟨hout, hin, hcontains, [], by rw [hsent, List.append_nil], rfl⟩
  rw [hout] at hmanage
  split_ifs with hzero
  · rw [if_pos ⟨hcontains, hzero, hconnected⟩] at hmanage
    have hnext := hbefore.trans hmanage.moves
    rwa [hin, hsm, List.nil_append] at hnext
  · rw [if_neg fun hc => hzero hc.2.1] at hmanage
    exact hbefore.then_still hmanage

/-- **The peer asks to sync** for the first time: it is given a task. -/
theorem handleStore_syncWithPeer (hin : s.inRank p = 0) (chan : Chan) : ∃ s',
    Handler.handleStore OT env listeners s (.syncWithPeer p chan) = .ok s' ∧
    s'.sent = s.sent ++ [.syncResponse chan (some p)] ∧
    s.Moves p s' (s.outRank p) 1 true [] := by
  have hknown : (s.infoOf p).incomingStatus = .known := by
    unfold State.inRank rankOf at hin
    unfold State.infoOf
    cases hp : s.peers[p]? with
    | none => rfl
    | some info =>
      rw [hp] at hin
      have hrank : info.incomingStatus.rank = 0 := hin
      cases hd : info.incomingStatus <;> simp_all [PeerStatus.rank]
  have hget : (s.peers.insert p (PeerInfo.incoming.set (s.infoOf p) .initializing))[p]? =
      some (PeerInfo.incoming.set (s.infoOf p) .initializing) := get_insert.trans (if_pos rfl)
  refine ⟨_, State.syncWithPeer_of_known chan hknown, rfl, ?_,
    congrArg (rankOf PeerInfo.incoming) hget, contains_iff.mpr ⟨_, hget⟩, _, rfl, rfl⟩
  refine (congrArg (rankOf PeerInfo.outgoing) hget).trans ?_
  unfold State.outRank rankOf State.infoOf
  cases s.peers[p]? <;> rfl

/-- **The task registers** that lets the peer sync. -/
theorem handleStore_registerIncoming (hin : s.inRank p = 1) : ∃ s',
    Handler.handleStore OT env listeners s (.registerIncomingPeerSyncing p) = .ok s' ∧
    s.Moves p s' (s.outRank p) 2 (s.peers.contains p) [] := by
  obtain ⟨info, hget, hs⟩ := exists_updatePeerToSyncing (d := PeerInfo.incoming) (a := ()) hin
  have hinsert : (s.peers.insert p (PeerInfo.incoming.set info (.syncing ())))[p]? =
      some (PeerInfo.incoming.set info (.syncing ())) := get_insert.trans (if_pos rfl)
  refine ⟨_, hs, ?_, congrArg (rankOf PeerInfo.incoming) hinsert, ?_, [], rfl, rfl⟩
  · refine (congrArg (rankOf PeerInfo.outgoing) hinsert).trans ?_
    rw [State.outRank, hget]
    rfl
  · rw [contains_iff.mpr ⟨info, hget⟩]
    exact contains_iff.mpr ⟨_, hinsert⟩

/-- **The task registers** that syncs with the peer, and is given work. -/
theorem handleStore_registerOutgoing (hout : s.outRank p = 1)
    (hask : s.stateMachine.CanAsk) : ∃ s',
    Handler.handleStore OT env listeners s (.registerOutgoingPeerSyncing p) = .ok s' ∧
    s'.stateMachine = s.stateMachine ∧
    s.Moves p s' 2 (s.inRank p) (s.peers.contains p) [] := by
  obtain ⟨info, hget, hs⟩ :=
    exists_updatePeerToSyncing (d := PeerInfo.outgoing) (a := ⟨false⟩) hout
  have hinsert : (s.peers.insert p (PeerInfo.outgoing.set info (.syncing ⟨false⟩)))[p]? =
      some (PeerInfo.outgoing.set info (.syncing ⟨false⟩)) := get_insert.trans (if_pos rfl)
  obtain ⟨t, ht⟩ := hask.exists_sendSyncRequests env.rng
    (s.peers.insert p (PeerInfo.outgoing.set info (.syncing ⟨false⟩)))
  have hmoves : s.Moves p (s.AfterPeers
      (s.peers.insert p (PeerInfo.outgoing.set info (.syncing ⟨false⟩))) []) 2 (s.inRank p)
      (s.peers.contains p) [] := by
    refine ⟨congrArg (rankOf PeerInfo.outgoing) hinsert, ?_, ?_, [], rfl, rfl⟩
    · refine (congrArg (rankOf PeerInfo.incoming) hinsert).trans ?_
      rw [State.inRank, hget]
      rfl
    · rw [contains_iff.mpr ⟨info, hget⟩]
      exact contains_iff.mpr ⟨_, hinsert⟩
  refine ⟨t, ?_, (touches_sendSyncRequests ht).stateMachine_eq,
    hmoves.then_still (.sendSyncRequests ht)⟩
  exact bind_eq_ok.mpr ⟨_, hs, ht⟩

variable {OT env listeners}

lemma PhaseStep.storeId {sm sm' : StateMachine StoreId H HeaderId Header T}
    (h : PhaseStep OT cmd sm sm') : sm'.storeId OT.into = sm.storeId OT.into := by
  cases h with
  | metadata peer metadata hv ht => exact (of_decide_eq_true hv).symm
  | _ => rfl

/-- **The id of a store never changes.** -/
theorem handleStore_storeId (h : Handler.handleStore OT env listeners s cmd = .ok s') :
    s'.stateMachine.storeId OT.into = s.stateMachine.storeId OT.into := by
  have heffects := handleStore_effects h
  clear h
  induction heffects with
  | refl => rfl
  | tail _ hc ih =>
    refine Eq.trans ?_ ih
    rcases hc with hc | htouch
    · rcases hc.phaseStep with heq | hphase
      · rw [heq]
      · exact hphase.storeId
    · rw [htouch.stateMachine_eq]

omit [Hash H] [DecidableEq H] [DecidableEq StoreId] in
lemma canAsk_apply {header : Header} {body : Body} (hs : s.stateMachine.CanAsk)
    (h : s.apply OT header body listeners = .ok s') : s'.stateMachine.CanAsk := by
  unfold State.apply at h
  cases hsm : s.stateMachine with
  | syncing metadata tree initialState ecg latest =>
    rw [hsm] at h
    dsimp only at h
    split_ifs at h
    obtain ⟨latest', -, heq⟩ := bind_eq_ok.mp h
    cases heq
    rw [updateListeners_stateMachine]
    trivial
  | _ =>
    rw [hsm] at h
    cases h
    exact hs

/-- **Between commands something is missing** that the store can ask for, if it syncs not yet. -/
theorem handleStore_canAsk (hs : s.stateMachine.CanAsk)
    (h : Handler.handleStore OT env listeners s cmd = .ok s') : s'.stateMachine.CanAsk := by
  have hreceived : ∀ {peer}, cmd.receivedFrom = some peer → s'.stateMachine.CanAsk := by
    intro peer hfrom
    obtain ⟨s₁, s₂, -, -, hsend⟩ := handleStore_received hfrom h
    obtain ⟨reqs, peers, hreqs, rfl, -⟩ := sendSyncRequests_ok hsend
    exact show s₂.stateMachine.CanAsk from canAsk_of_syncRequests hreqs
  have htouches : s.Touches s' → s'.stateMachine.CanAsk := fun ht => ht.stateMachine_eq ▸ hs
  cases cmd with
  | registerPeers peers =>
    exact htouches ((touches_insertKnownPeers peers).trans (touches_managePeers h))
  | syncWithPeer peer chan => exact htouches (touches_syncWithPeer h)
  | registerOutgoingPeerSyncing peer =>
    obtain ⟨s₁, hp, h⟩ := bind_eq_ok.mp h
    exact htouches ((touches_updatePeerToSyncing hp).trans (touches_sendSyncRequests h))
  | registerIncomingPeerSyncing peer => exact htouches (touches_updatePeerToSyncing h)
  | receivedMetadata peer _ => exact hreceived rfl
  | receivedMerkleHashes peer _ _ => exact hreceived rfl
  | receivedInitialStateBlocks peer _ _ => exact hreceived rfl
  | receivedECGOperations peer _ => exact hreceived rfl
  | apply header body => exact canAsk_apply hs h
  | subscribeState chan => cases h; exact hs
  | handleMetadataPeerRequest peer chan =>
    cases h
    obtain ⟨metadata, -, heq⟩ | ⟨-, heq⟩ := s.handleMetadataPeerRequest_cases peer chan
    all_goals rw [heq]; exact hs
  | handleMerklePeerRequest peer ranges chan =>
    obtain ⟨tree, hashes, -, -, rfl⟩ | ⟨-, rfl⟩ := handleMerklePeerRequest_ok h
    all_goals exact hs
  | handleBlockPeerRequest peer ranges chan =>
    obtain ⟨blocks, -, rfl⟩ | ⟨-, rfl⟩ := handleBlockPeerRequest_ok h
    all_goals exact hs
  | subscribeECG peer tips chan =>
    cases h
    obtain ⟨ecg, heq⟩ | heq := s.handleEcgSubscribe_cases peer tips chan
    all_goals rw [heq]; exact hs

end Command

end Ossa.Store
