import Ossa.StoreAnswers

/-!
The requests of peers that wait.

A request that cannot be answered yet is registered in one of three tables, and each table is
emptied by the step that makes its requests answerable: the metadata is known, the merkle tree
is complete, the initial state is complete. Every channel that a peer waits on is registered or
has been written to, once; and what is written is what the peer would be answered if it asked
again.
-/

namespace Ossa.Store

open Ossa.Loop Ossa.Util Ossa.Util.MerkleTree Ossa.Collections Ossa.Ecg Ossa.Crdt

variable {StoreId H HeaderId Header Body T Op : Type} [LinearOrder HeaderId]

/-- What a peer asks for. -/
inductive PeerRequest
  | metadata
  | merkle (nodeIds : List Range)
  | blocks (blockIds : List Range)

namespace PeerRequest

def command (peer : DeviceId) (chan : Chan) : PeerRequest → Command H HeaderId Header Body
  | metadata => .handleMetadataPeerRequest peer chan
  | merkle nodeIds => .handleMerklePeerRequest peer nodeIds chan
  | blocks blockIds => .handleBlockPeerRequest peer blockIds chan

end PeerRequest

namespace StateMachine

/-- The phase has passed the last transition. -/
def isSyncing : StateMachine StoreId H HeaderId Header T → Bool
  | syncing _ _ _ _ _ => true
  | _ => false

/-- What a request is answered at once, or `none` if it has to wait. -/
def immediate (sm : StateMachine StoreId H HeaderId Header T) :
    PeerRequest → Exec (Option (Reply H))
  | .metadata => .ok (sm.metadata.map .metadata)
  | .merkle nodeIds =>
    match sm.merkleTree with
    | some merkleTree => do
      let hashes ← State.handleMerklePeerRequestHelper merkleTree nodeIds
      pure (some (.hashes hashes))
    | none => .ok none
  | .blocks blockIds => do
    let blocks ← State.handleBlockPeerRequestHelper sm blockIds
    pure (blocks.map .blocks)

end StateMachine

/-- A request that waits: the peer, what it asked for, and its channel. -/
abbrev Waiting := DeviceId × PeerRequest × Chan

namespace State

variable (s : State StoreId H HeaderId Header T)

/-- The three tables. -/
def waitingMetadata : List Waiting :=
  s.metadataSubscribers.toList.map fun sub => (sub.1, .metadata, sub.2)

def waitingMerkle : List Waiting :=
  s.merkleSubscribers.toList.map fun sub => (sub.1, .merkle sub.2.1, sub.2.2)

def waitingBlocks : List Waiting :=
  s.blockSubscribers.toList.map fun sub => (sub.1, .blocks sub.2.1, sub.2.2)

def waiting : List Waiting := s.waitingMetadata ++ s.waitingMerkle ++ s.waitingBlocks

/-- Register a request that waits. -/
def register (peer : DeviceId) (chan : Chan) :
    PeerRequest → State StoreId H HeaderId Header T
  | .metadata => { s with metadataSubscribers := s.metadataSubscribers.insert peer chan }
  | .merkle nodeIds =>
    { s with merkleSubscribers := s.merkleSubscribers.insert peer (nodeIds, chan) }
  | .blocks blockIds =>
    { s with blockSubscribers := s.blockSubscribers.insert peer (blockIds, chan) }

end State

/-- The channel of a request that was told to wait. -/
def Sent.waitChan : Sent StoreId H HeaderId Header T → Option Chan
  | .response chan none => some chan
  | _ => none

/-- The channel of a later answer. -/
def Sent.noticeChan : Sent StoreId H HeaderId Header T → Option Chan
  | .notice chan _ => some chan
  | _ => none

/-- The channel of a request that was answered, or told to wait. -/
def Sent.responseChan : Sent StoreId H HeaderId Header T → Option Chan
  | .response chan _ => some chan
  | _ => none

/-- Requests only wait for what the phase does not have yet. -/
structure State.Tabled (s : State StoreId H HeaderId Header T) : Prop where
  metadata : s.metadataSubscribers ≠ ∅ → ∃ storeId, s.stateMachine = .downloadingMetadata storeId
  merkle : s.merkleSubscribers ≠ ∅ → s.stateMachine.merkleTree = none
  blocks : s.blockSubscribers ≠ ∅ → s.stateMachine.isSyncing = false

/-- Every channel that a peer waits on is registered, or was written to once. -/
def State.Accounted (s : State StoreId H HeaderId Header T) : Prop :=
  (s.sent.filterMap Sent.waitChan).Perm
    (s.waiting.map (fun w => w.2.2) ++ s.sent.filterMap Sent.noticeChan)

variable {s s' : State StoreId H HeaderId Header T} {peer : DeviceId} {listeners : List Chan}
variable {cmd : Command H HeaderId Header Body} {n : ℕ}

/-! ### One request -/

section Request

variable [Hash H] [DecidableEq H] [DecidableEq StoreId]
variable [ECGHeader Header HeaderId] [CRDT T Op (OperationId HeaderId)]
variable {OT : OssaType StoreId H HeaderId Body T Op} {env : Environment}

/-- The answer to a request, and the store afterwards. -/
def State.respond (s : State StoreId H HeaderId Header T) (peer : DeviceId) (chan : Chan)
    (q : PeerRequest) : Option (Reply H) → State StoreId H HeaderId Header T
  | some reply => s.send (.response chan (some reply))
  | none => (s.send (.response chan none)).register peer chan q

omit [Hash H] [DecidableEq H] [DecidableEq StoreId] [ECGHeader Header HeaderId]
  [CRDT T Op (OperationId HeaderId)] in
lemma State.sent_respond (q : PeerRequest) (chan : Chan) (reply : Option (Reply H)) :
    (s.respond peer chan q reply).sent = s.sent ++ [.response chan reply] := by
  cases reply <;> cases q <;> rfl

/-- **A request** is answered at once, or told to wait and registered. -/
theorem handleStore_request (q : PeerRequest) (chan : Chan) :
    Handler.handleStore OT env listeners s (q.command peer chan) =
      s.stateMachine.immediate q >>= fun reply => .ok (s.respond peer chan q reply) := by
  cases q with
  | metadata =>
    change Except.ok (s.handleMetadataPeerRequest peer chan) = _
    rw [State.handleMetadataPeerRequest, StateMachine.immediate]
    cases s.stateMachine.metadata <;> rfl
  | merkle nodeIds =>
    change s.handleMerklePeerRequest peer nodeIds chan = _
    rw [State.handleMerklePeerRequest, StateMachine.immediate]
    cases s.stateMachine.merkleTree with
    | none => rfl
    | some tree =>
      dsimp only
      cases State.handleMerklePeerRequestHelper tree nodeIds <;> rfl
  | blocks blockIds =>
    change s.handleBlockPeerRequest peer blockIds chan = _
    rw [State.handleBlockPeerRequest, StateMachine.immediate]
    cases State.handleBlockPeerRequestHelper s.stateMachine blockIds with
    | error e => rfl
    | ok blocks => cases blocks <;> rfl

end Request

/-! ### Tables -/

lemma State.Tabled.metadata_eq (h : s.Tabled)
    (hs : ∀ storeId, s.stateMachine ≠ .downloadingMetadata storeId) :
    s.metadataSubscribers = ∅ := by
  by_contra hne
  obtain ⟨storeId, heq⟩ := h.metadata hne
  exact hs storeId heq

lemma State.Tabled.of_table {sm : StateMachine StoreId H HeaderId Header T}
    (hsm : s'.stateMachine = sm) (hm : s'.metadataSubscribers = ∅)
    (hk : s'.merkleSubscribers = ∅ ∨ sm.merkleTree = none)
    (hb : s'.blockSubscribers = ∅ ∨ sm.isSyncing = false) : s'.Tabled where
  metadata hne := absurd hm hne
  merkle hne := hsm ▸ hk.resolve_left hne
  blocks hne := hsm ▸ hb.resolve_left hne

lemma State.Tabled.merkle_or (h : s.Tabled) :
    s.merkleSubscribers = ∅ ∨ s.stateMachine.merkleTree = none := by
  by_cases hk : s.merkleSubscribers = ∅
  · exact Or.inl hk
  · exact Or.inr (h.merkle hk)

lemma State.Tabled.blocks_or (h : s.Tabled) :
    s.blockSubscribers = ∅ ∨ s.stateMachine.isSyncing = false := by
  by_cases hb : s.blockSubscribers = ∅
  · exact Or.inl hb
  · exact Or.inr (h.blocks hb)

lemma State.Tabled.syncing {metadata : MetadataHeader H} {tree : MerkleTree H}
    {initialState : List UInt8} {ecg : UntypedState HeaderId Header} {latest : T}
    (h : s.Tabled) (hs : s.stateMachine = .syncing metadata tree initialState ecg latest) :
    s.metadataSubscribers = ∅ ∧ s.merkleSubscribers = ∅ ∧ s.blockSubscribers = ∅ := by
  have hk := h.merkle_or
  have hb := h.blocks_or
  rw [hs] at hk hb
  exact ⟨h.metadata_eq (by simp [hs]), hk.resolve_right (by simp [StateMachine.merkleTree]),
    hb.resolve_right (by simp [StateMachine.isSyncing])⟩

/-- The command asks for something on behalf of a peer. -/
def Command.isRequest : Command H HeaderId Header Body → Bool
  | .handleMetadataPeerRequest _ _ => true
  | .handleMerklePeerRequest _ _ _ => true
  | .handleBlockPeerRequest _ _ _ => true
  | _ => false

section Change

variable [Hash H] [DecidableEq H] [DecidableEq StoreId]
variable [ECGHeader Header HeaderId] [CRDT T Op (OperationId HeaderId)]
variable {OT : OssaType StoreId H HeaderId Body T Op}

/-- **Each transition empties the table of those it can answer.** -/
theorem State.Tabled.change (h : s.Tabled) (hc : Change OT listeners cmd s s')
    (hr : cmd.isRequest = false) : s'.Tabled := by
  cases hc with
  | metadata peer metadata hv ht => exact .of_table rfl rfl (Or.inr rfl) (Or.inr rfl)
  | merkle peer ranges nodes hs ht =>
    exact .of_table rfl (h.metadata_eq (by simp [hs])) (Or.inr rfl) (Or.inr rfl)
  | complete peer hs ht hn =>
    obtain ⟨notices, -, rfl⟩ := State.notifyMerkleSubscribers_ok hn
    exact .of_table rfl (h.metadata_eq (by simp [hs])) (Or.inl rfl) (Or.inr rfl)
  | blocks peer ranges theirBlocks hs hb =>
    have hk := h.merkle_or
    rw [hs] at hk
    exact .of_table rfl (h.metadata_eq (by simp [hs])) (hk.imp_right fun hc => by cases hc)
      (Or.inr rfl)
  | syncing peer hs hb hn =>
    obtain ⟨m, tree, blocks, latest, notices, subs, hs', -, -, -, rfl⟩ :=
      State.updateStateToSyncing_ok hn
    have hk := h.merkle_or
    rw [hs'] at hk
    exact .of_table rfl (h.metadata_eq (by simp [hs'])) (hk.imp_right fun hc => by cases hc)
      (Or.inl rfl)
  | operations peer operations hs hf =>
    obtain ⟨subs, heq, -⟩ := State.updateListeners_spec (s := s.withPhase _) listeners _ _
      (some peer)
    rw [heq]
    obtain ⟨hm, hk, hb⟩ := h.syncing hs
    exact .of_table rfl hm (Or.inl hk) (Or.inl hb)
  | apply header body hs hi ha =>
    obtain ⟨subs, heq, -⟩ := State.updateListeners_spec (s := s.withPhase _) listeners _ _ none
    rw [heq]
    obtain ⟨hm, hk, hb⟩ := h.syncing hs
    exact .of_table rfl hm (Or.inl hk) (Or.inl hb)
  | subscribeState chan => exact ⟨h.metadata, h.merkle, h.blocks⟩
  | metadataRequest peer chan => cases hr
  | merkleRequest peer ranges chan _ => cases hr
  | blockRequest peer ranges chan _ => cases hr
  | subscribeECG peer tips chan =>
    rcases s.handleEcgSubscribe_cases peer tips chan with ⟨ecg, heq⟩ | heq
    · rw [heq]; exact ⟨h.metadata, h.merkle, h.blocks⟩
    · rw [heq]; exact ⟨h.metadata, h.merkle, h.blocks⟩

end Change

/-! ### The account of wait channels -/

/-- The messages are about no request of a peer. -/
def Silent (l : List (Sent StoreId H HeaderId Header T)) : Prop :=
  ∀ m ∈ l, m.waitChan = none ∧ m.noticeChan = none

lemma Sent.IsPeerMessage.silent {m : Sent StoreId H HeaderId Header T} (h : m.IsPeerMessage) :
    m.waitChan = none ∧ m.noticeChan = none := by
  cases m with
  | response _ _ => exact h.elim
  | notice _ _ => exact h.elim
  | _ => exact ⟨rfl, rfl⟩

lemma silent_updates {latestState : T} {ecgState : UntypedState HeaderId Header}
    {fromPeer : Option DeviceId} : Silent (s.updates listeners latestState ecgState fromPeer) := by
  intro m hm
  rcases List.mem_append.mp hm with hm | hm
  · obtain ⟨l, -, rfl⟩ := List.mem_map.mp hm
    exact ⟨rfl, rfl⟩
  · obtain ⟨sub, -, rfl⟩ := List.mem_map.mp hm
    exact ⟨rfl, rfl⟩

lemma Silent.filterMap {l : List (Sent StoreId H HeaderId Header T)} (hl : Silent l) :
    l.filterMap Sent.waitChan = [] ∧ l.filterMap Sent.noticeChan = [] :=
  ⟨List.filterMap_eq_nil_iff.mpr fun m hm => (hl m hm).1,
    List.filterMap_eq_nil_iff.mpr fun m hm => (hl m hm).2⟩

lemma State.Accounted.silent {l : List (Sent StoreId H HeaderId Header T)} (h : s.Accounted)
    (hl : Silent l) (hsent : s'.sent = s.sent ++ l) (hw : s'.waiting = s.waiting) :
    s'.Accounted := by
  obtain ⟨hwait, hnotice⟩ := hl.filterMap
  rw [State.Accounted, hsent, hw, List.filterMap_append, List.filterMap_append, hwait, hnotice,
    List.append_nil, List.append_nil]
  exact h

lemma State.Accounted.same (h : s.Accounted) (hsent : s'.sent = s.sent)
    (hw : s'.waiting = s.waiting) : s'.Accounted := by
  rw [State.Accounted, hsent, hw]
  exact h

lemma chans_waiting : (s.waiting.map fun w => w.2.2) =
    s.metadataSubscribers.toList.map Prod.snd ++
      s.merkleSubscribers.toList.map (fun sub => sub.2.2) ++
      s.blockSubscribers.toList.map fun sub => sub.2.2 := by
  simp [State.waiting, State.waitingMetadata, State.waitingMerkle, State.waitingBlocks,
    Function.comp_def]

/-- Requests that waited are answered: their channels move from the tables to the notices. -/
lemma State.Accounted.notify {l : List (Sent StoreId H HeaderId Header T)} {told : List Chan}
    (kept : List Chan) (h : s.Accounted)
    (hw : (s.waiting.map fun w => w.2.2).Perm (told ++ kept))
    (hsent : s'.sent = s.sent ++ l) (hw' : (s'.waiting.map fun w => w.2.2) = kept)
    (hwait : l.filterMap Sent.waitChan = []) (hnotice : l.filterMap Sent.noticeChan = told) :
    s'.Accounted := by
  rw [State.Accounted, hsent, hw', List.filterMap_append, List.filterMap_append, hwait, hnotice,
    List.append_nil]
  refine h.trans ((hw.append_right _).trans ?_)
  rw [List.append_assoc, ← List.append_assoc kept]
  exact List.perm_append_comm

lemma filterMap_notices {α : Type} {g : α → Chan} {l : List α}
    {r : List (Sent StoreId H HeaderId Header T)}
    (h : List.Forall₂ (fun a m => ∃ reply, m = .notice (g a) reply) l r) :
    r.filterMap Sent.waitChan = [] ∧ r.filterMap Sent.noticeChan = l.map g := by
  induction h with
  | nil => exact ⟨rfl, rfl⟩
  | cons ha _ ih =>
    obtain ⟨reply, rfl⟩ := ha
    exact ⟨ih.1, congrArg _ ih.2⟩

section Change

variable [Hash H] [DecidableEq H] [DecidableEq StoreId]
variable [ECGHeader Header HeaderId] [CRDT T Op (OperationId HeaderId)]
variable {OT : OssaType StoreId H HeaderId Body T Op}

/-- **Each transition writes once to each channel of the table it empties.** -/
theorem State.Accounted.change (h : s.Accounted) (hc : Change OT listeners cmd s s')
    (hr : cmd.isRequest = false) : s'.Accounted := by
  cases hc with
  | metadata peer metadata hv ht =>
    have hnotices : List.Forall₂ (fun (sub : DeviceId × Chan)
        (m : Sent StoreId H HeaderId Header T) => ∃ reply, m = .notice sub.2 reply)
        s.metadataSubscribers.toList (s.metadataSubscribers.toList.map fun sub =>
          .notice sub.2 (if sub.1 = peer then none else some (.metadata metadata))) :=
      List.forall₂_map_right_iff.mpr (List.forall₂_same.mpr fun sub _ => ⟨_, rfl⟩)
    obtain ⟨hwait, hnotice⟩ := filterMap_notices hnotices
    refine h.notify (s.merkleSubscribers.toList.map (fun sub => sub.2.2) ++
      s.blockSubscribers.toList.map fun sub => sub.2.2) ?_ rfl ?_ hwait hnotice
    · rw [chans_waiting, List.append_assoc]
    · rw [chans_waiting]
      exact congrArg (· ++ _ ++ _) (congrArg (List.map _) toList_empty)
  | merkle peer ranges nodes hs ht => exact h.same rfl rfl
  | complete peer hs ht hn =>
    obtain ⟨notices, hnotices, rfl⟩ := State.notifyMerkleSubscribers_ok hn
    obtain ⟨hwait, hnotice⟩ := filterMap_notices (g := fun sub => sub.2.2)
      ((mapM_eq_ok.mp hnotices).imp fun sub m hm => by
        obtain ⟨reply, rfl, -⟩ := State.merkleNotice_ok hm
        exact ⟨reply, rfl⟩)
    refine h.notify (s.metadataSubscribers.toList.map Prod.snd ++
      s.blockSubscribers.toList.map fun sub => sub.2.2) ?_ rfl ?_ hwait hnotice
    · rw [chans_waiting, ← List.append_assoc]
      exact List.perm_append_comm.append_right _
    · rw [chans_waiting]
      refine congrArg (· ++ _) ((congrArg (_ ++ ·) (congrArg (List.map _) toList_empty)).trans ?_)
      exact List.append_nil _
  | blocks peer ranges theirBlocks hs hb => exact h.same rfl rfl
  | syncing peer hs hb hn =>
    obtain ⟨m, tree, blocks, latest, notices, subs, hs', -, hnotices, -, rfl⟩ :=
      State.updateStateToSyncing_ok hn
    obtain ⟨hwait, hnotice⟩ := filterMap_notices (g := fun sub => sub.2.2)
      ((mapM_eq_ok.mp hnotices).imp fun sub m hm => by
        obtain ⟨reply, -, rfl⟩ := State.blockNotice_ok hm
        exact ⟨_, rfl⟩)
    have hsilent : Silent (s.updates listeners latest (.new : UntypedState HeaderId Header)
        (some peer)) := silent_updates
    obtain ⟨hupdates, hupdates'⟩ := hsilent.filterMap
    have hwait' : (s.updates listeners latest .new (some peer) ++ notices).filterMap
        Sent.waitChan = [] := by
      rw [List.filterMap_append, hwait, hupdates, List.append_nil]
    have hnotice' : (s.updates listeners latest .new (some peer) ++ notices).filterMap
        Sent.noticeChan = s.blockSubscribers.toList.map fun sub => sub.2.2 := by
      rw [List.filterMap_append, hnotice, hupdates', List.nil_append]
    refine h.notify (s.metadataSubscribers.toList.map Prod.snd ++
      s.merkleSubscribers.toList.map fun sub => sub.2.2) ?_ (List.append_assoc _ _ _) ?_ hwait'
      hnotice'
    · rw [chans_waiting]
      exact List.perm_append_comm
    · rw [chans_waiting]
      refine (congrArg (_ ++ ·) (congrArg (List.map _) toList_empty)).trans ?_
      exact List.append_nil _
  | operations peer operations hs hf =>
    obtain ⟨subs, heq, -⟩ := State.updateListeners_spec (s := s.withPhase _) listeners _ _
      (some peer)
    rw [heq]
    exact h.silent silent_updates rfl rfl
  | apply header body hs hi ha =>
    obtain ⟨subs, heq, -⟩ := State.updateListeners_spec (s := s.withPhase _) listeners _ _ none
    rw [heq]
    exact h.silent silent_updates rfl rfl
  | subscribeState chan => exact h.silent (by simp [Silent, Sent.waitChan, Sent.noticeChan]) rfl rfl
  | metadataRequest peer chan => cases hr
  | merkleRequest peer ranges chan _ => cases hr
  | blockRequest peer ranges chan _ => cases hr
  | subscribeECG peer tips chan =>
    rcases s.handleEcgSubscribe_cases peer tips chan with ⟨ecg, heq⟩ | heq
    · rw [heq]
      exact h.silent (by simp [Silent, Sent.waitChan, Sent.noticeChan]) rfl rfl
    · rw [heq]
      exact h.same rfl rfl

end Change

/-! ### A new request -/

section Respond

variable {q : PeerRequest} {reply : Option (Reply H)} {chan : Chan}

/-- A request that has to wait is one for a table of its phase. -/
theorem State.Tabled.respond (h : s.Tabled) (hi : s.stateMachine.immediate q = .ok reply) :
    (s.respond peer chan q reply).Tabled := by
  cases reply with
  | some reply => exact ⟨h.metadata, h.merkle, h.blocks⟩
  | none =>
    cases q with
    | metadata =>
      refine ⟨fun _ => ?_, h.merkle, h.blocks⟩
      have hi' : s.stateMachine.metadata.map (Reply.metadata (H := H)) = none := Except.ok.inj hi
      change ∃ storeId, s.stateMachine = .downloadingMetadata storeId
      cases hs : s.stateMachine with
      | downloadingMetadata storeId => exact ⟨storeId, rfl⟩
      | downloadingMerkle _ _ => rw [hs] at hi'; cases hi'
      | downloadingInitialState _ _ _ => rw [hs] at hi'; cases hi'
      | syncing _ _ _ _ _ => rw [hs] at hi'; cases hi'
    | merkle nodeIds =>
      refine ⟨h.metadata, fun _ => ?_, h.blocks⟩
      change s.stateMachine.merkleTree = none
      cases ht : s.stateMachine.merkleTree with
      | none => rfl
      | some tree =>
        simp only [StateMachine.immediate, ht] at hi
        obtain ⟨hashes, -, hi⟩ := bind_eq_ok.mp hi
        cases hi
    | blocks blockIds =>
      refine ⟨h.metadata, h.merkle, fun _ => ?_⟩
      change s.stateMachine.isSyncing = false
      cases hs : s.stateMachine with
      | syncing m tree initialState ecg latest =>
        rw [hs] at hi
        obtain ⟨blocks, hb, hi⟩ := bind_eq_ok.mp hi
        obtain ⟨served, -, hb⟩ := bind_eq_ok.mp hb
        cases hb
        cases hi
      | downloadingMetadata _ => rfl
      | downloadingMerkle _ _ => rfl
      | downloadingInitialState _ _ _ => rfl

lemma perm_waiting_register (hfree : ∀ w ∈ s.waiting, w.1 ≠ peer) :
    ((s.register peer chan q).waiting.map fun w => w.2.2).Perm
      (chan :: s.waiting.map fun w => w.2.2) := by
  have hnone : ∀ {β : Type} {m : BTreeMap DeviceId β} (f : DeviceId × β → Waiting),
      (∀ e, (f e).1 = e.1) → (∀ e ∈ m.toList, f e ∈ s.waiting) → m[peer]? = none := by
    intro β m f hf hm
    by_contra hc
    obtain ⟨v, hv⟩ := Option.ne_none_iff_exists'.mp hc
    exact hfree _ (hm (peer, v) (mem_toList.mpr hv)) (hf _)
  rw [chans_waiting, chans_waiting]
  cases q with
  | metadata =>
    have hm : s.metadataSubscribers[peer]? = none := hnone (fun sub => (sub.1, .metadata, sub.2))
      (fun _ => rfl) fun e he => List.mem_append_left _ (List.mem_append_left _
        (List.mem_map.mpr ⟨e, he, rfl⟩))
    exact (((perm_toList_insert hm).map Prod.snd).append_right _).append_right _
  | merkle nodeIds =>
    have hm : s.merkleSubscribers[peer]? = none :=
      hnone (fun sub => (sub.1, .merkle sub.2.1, sub.2.2)) (fun _ => rfl) fun e he =>
        List.mem_append_left _ (List.mem_append_right _ (List.mem_map.mpr ⟨e, he, rfl⟩))
    refine ((((perm_toList_insert hm).map _).append_left _).append_right _).trans ?_
    exact (List.perm_middle.append_right _)
  | blocks blockIds =>
    have hm : s.blockSubscribers[peer]? = none :=
      hnone (fun sub => (sub.1, .blocks sub.2.1, sub.2.2)) (fun _ => rfl) fun e he =>
        List.mem_append_right _ (List.mem_map.mpr ⟨e, he, rfl⟩)
    exact (((perm_toList_insert hm).map _).append_left _).trans List.perm_middle

/-- **A new request** is on the account: it was answered, or it waits and is registered. -/
theorem State.Accounted.respond (h : s.Accounted) (hfree : ∀ w ∈ s.waiting, w.1 ≠ peer) :
    (s.respond peer chan q reply).Accounted := by
  cases reply with
  | some reply =>
    exact h.silent (by simp [Silent, Sent.waitChan, Sent.noticeChan]) rfl rfl
  | none =>
    have hsent : ((s.send (.response chan none)).register peer chan q).sent =
        s.sent ++ [.response chan none] := by
      cases q <;> rfl
    have hperm : (((s.send (.response chan none)).register peer chan q).waiting.map
        fun w => w.2.2).Perm (chan :: s.waiting.map fun w => w.2.2) :=
      perm_waiting_register hfree
    rw [State.Accounted, State.respond, hsent, List.filterMap_append, List.filterMap_append]
    have hwait : [(.response chan none : Sent StoreId H HeaderId Header T)].filterMap
        Sent.waitChan = [chan] := rfl
    have hnotice : [(.response chan none : Sent StoreId H HeaderId Header T)].filterMap
        Sent.noticeChan = [] := rfl
    rw [hwait, hnotice, List.append_nil]
    refine (List.perm_append_comm.trans (h.cons chan)).trans ?_
    exact (hperm.append_right _).symm

end Respond

end Ossa.Store
