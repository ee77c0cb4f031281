import Ossa.EcgHistory
import Ossa.StoreChange

/-!
A store that syncs.

Only two commands change the graph of a store in its last phase, `Apply` and
`ReceivedECGOperations`, and each of them tells the subscribers of the graph in the same step.
A subscription is answered or registered; everything else, short of new metadata, leaves the
graph and its subscribers alone.
-/

namespace Ossa.Store

open Ossa.Loop Ossa.Util Ossa.Collections Ossa.Ecg Ossa.Crdt Relation

variable {StoreId H HeaderId Header Body T Op : Type} [LinearOrder HeaderId]

/-- The graph of a store that syncs, and the state its operations lead to. -/
def StateMachine.replica : StateMachine StoreId H HeaderId Header T →
    Option (UntypedState HeaderId Header × T)
  | .syncing _ _ _ ecgState latestState => some (ecgState, latestState)
  | _ => none

/-- The answer to a subscription of the graph. -/
def Sent.ecgMessage : Sent StoreId H HeaderId Header T →
    Option (Chan × UntypedState HeaderId Header)
  | .ecg chan state => some (chan, state)
  | _ => none

def ecgMessages (sent : List (Sent StoreId H HeaderId Header T)) :
    List (Chan × UntypedState HeaderId Header) := sent.filterMap Sent.ecgMessage

/-- The command tells the store a header of its own metadata. -/
def Command.isMetadata : Command H HeaderId Header Body → Bool
  | receivedMetadata _ _ => true
  | _ => false

/-- The command is about the graph of a store that syncs. -/
def Command.isGraph : Command H HeaderId Header Body → Bool
  | apply _ _ => true
  | receivedECGOperations _ _ => true
  | subscribeECG _ _ _ => true
  | _ => false

variable {s s' s'' : State StoreId H HeaderId Header T} {peer : DeviceId} {listeners : List Chan}
variable {ecg ecg' : UntypedState HeaderId Header} {latest latest' : T}
variable {fromPeer : Option DeviceId} {sm : StateMachine StoreId H HeaderId Header T}

@[simp] lemma ecgMessages_append (l l' : List (Sent StoreId H HeaderId Header T)) :
    ecgMessages (l ++ l') = ecgMessages l ++ ecgMessages l' := List.filterMap_append

lemma ecgMessages_eq_nil {l : List (Sent StoreId H HeaderId Header T)}
    (h : ∀ m ∈ l, m.ecgMessage = none) : ecgMessages l = [] := List.filterMap_eq_nil_iff.mpr h

lemma Sent.IsPeerMessage.ecgMessage {m : Sent StoreId H HeaderId Header T}
    (h : m.IsPeerMessage) : m.ecgMessage = none := by
  cases m with
  | ecg chan state => exact h.elim
  | _ => rfl

lemma exists_of_replica (h : sm.replica = some (ecg, latest)) :
    ∃ metadata tree initialState, sm = .syncing metadata tree initialState ecg latest := by
  cases sm with
  | syncing metadata tree initialState ecg latest => cases h; exact ⟨_, _, _, rfl⟩
  | downloadingMetadata _ => cases h
  | downloadingMerkle _ _ => cases h
  | downloadingInitialState _ _ _ => cases h

/-- The subscribers whom an update from `fromPeer` is told to. -/
def State.told (s : State StoreId H HeaderId Header T) (fromPeer : Option DeviceId) :
    List (DeviceId × Chan) := s.ecgSubscribers.toList.filter fun sub => some sub.1 ≠ fromPeer

/-- The graph has been replaced, and its subscribers have been told, all but the peer that the
update comes from. -/
structure Updated (s s' : State StoreId H HeaderId Header T) (ecg : UntypedState HeaderId Header)
    (latest : T) (fromPeer : Option DeviceId) : Prop where
  replica : s'.stateMachine.replica = some (ecg, latest)
  subscribers (p : DeviceId) :
    s'.ecgSubscribers[p]? = if some p = fromPeer then s.ecgSubscribers[p]? else none
  messages : ecgMessages s'.sent =
    ecgMessages s.sent ++ (s.told fromPeer).map fun sub => (sub.2, ecg)

/-- Nothing happened to the graph and its subscribers. -/
structure Untouched (s s' : State StoreId H HeaderId Header T) : Prop where
  replica : s'.stateMachine.replica = s.stateMachine.replica
  subscribers : s'.ecgSubscribers = s.ecgSubscribers
  messages : ecgMessages s'.sent = ecgMessages s.sent

namespace Untouched

lemma refl (s : State StoreId H HeaderId Header T) : Untouched s s := ⟨rfl, rfl, rfl⟩

lemma trans (h : Untouched s s') (h' : Untouched s' s'') : Untouched s s'' :=
  ⟨h'.replica.trans h.replica, h'.subscribers.trans h.subscribers, h'.messages.trans h.messages⟩

lemma of_touches (h : s.Touches s') : Untouched s s' := by
  obtain ⟨peers, l, hl, rfl⟩ := h
  refine ⟨rfl, rfl, ?_⟩
  have hnil : ecgMessages l = [] := ecgMessages_eq_nil fun m hm => (hl m hm).ecgMessage
  rw [State.AfterPeers, ecgMessages_append, hnil, List.append_nil]

lemma updated {t t' : State StoreId H HeaderId Header T} (h : Untouched s t)
    (hu : Updated t t' ecg latest fromPeer) (h' : Untouched t' s') :
    Updated s s' ecg latest fromPeer where
  replica := h'.replica.trans hu.replica
  subscribers p := by rw [h'.subscribers, hu.subscribers, h.subscribers]
  messages := by rw [h'.messages, hu.messages, h.messages, State.told, h.subscribers, State.told]

end Untouched

lemma updated_updateListeners (h : sm.replica = some (ecg, latest)) :
    Updated s ((s.withPhase sm).updateListeners listeners latest ecg fromPeer) ecg latest
      fromPeer := by
  obtain ⟨subs, heq, hsubs⟩ := State.updateListeners_spec (s := s.withPhase sm) listeners latest
    ecg fromPeer
  rw [heq]
  refine ⟨h, hsubs, ?_⟩
  have hlisteners : ecgMessages (listeners.map fun l =>
      (.stateUpdate l (.snapshot latest ecg) : Sent StoreId H HeaderId Header T)) = [] :=
    ecgMessages_eq_nil fun m hm => by
      obtain ⟨l, -, rfl⟩ := List.mem_map.mp hm
      rfl
  rw [State.updates, ecgMessages_append, ecgMessages_append, hlisteners, List.nil_append,
    State.told, ecgMessages, ecgMessages, List.filterMap_map]
  exact congrArg _ (congrFun (List.filterMap_eq_map (f := fun sub : DeviceId × Chan => (sub.2, ecg))) _)

lemma replica_newSyncing [Hash H] {OT : OssaType StoreId H HeaderId Body T Op} {nonce : Nonce}
    {storeType : TypeId} {initial : T} (h : State.newSyncing OT nonce storeType initial = .ok s) :
    s.stateMachine.replica = some (.new, initial) := by
  obtain ⟨body, -, h⟩ := bind_eq_ok.mp h
  obtain ⟨metadata, -, heq⟩ := bind_eq_ok.mp h
  cases heq
  rfl

lemma replica_updateStateToSyncing {OT : OssaType StoreId H HeaderId Body T Op}
    (h : s.updateStateToSyncing OT peer listeners = .ok s') :
    ∃ metadata tree blocks initial, s.stateMachine = .downloadingInitialState metadata tree blocks ∧
      OT.fromSlice (blocks.filterMap id).flatten = some initial ∧
      s'.stateMachine.replica = some (.new, initial) := by
  obtain ⟨metadata, tree, blocks, latest, notices, subs, hs, hl, -, -, rfl⟩ :=
    State.updateStateToSyncing_ok h
  exact ⟨metadata, tree, blocks, latest, hs, hl, rfl⟩

/-! ### The commands at a store that syncs -/

section Commands

variable [Hash H] [DecidableEq H] [DecidableEq StoreId]
variable [ECGHeader Header HeaderId] [CRDT T Op (OperationId HeaderId)]
variable {OT : OssaType StoreId H HeaderId Body T Op} {env : Environment}
variable {cmd : Command H HeaderId Header Body}

/-- **`Apply`**: the header is accepted, and its operations are applied. -/
theorem handleStore_apply {header : Header} {body : Body}
    (hs : s.stateMachine.replica = some (ecg, latest))
    (h : Handler.handleStore OT env listeners s (.apply header body) = .ok s') :
    ∃ ecg' latest', ecg.insertHeader header (OT.bodyToVec body) = (ecg', true) ∧
      State.applyOperations OT latest ecg' header body = .ok latest' ∧
      Updated s s' ecg' latest' none := by
  obtain ⟨metadata, tree, initialState, hsm⟩ := exists_of_replica hs
  change s.apply OT header body listeners = .ok s' at h
  unfold State.apply at h
  simp only [hsm] at h
  split_ifs at h with hi
  obtain ⟨latest', ha, h⟩ := bind_eq_ok.mp h
  cases h
  exact ⟨_, latest', Prod.ext rfl hi, ha, updated_updateListeners rfl⟩

/-- **`ReceivedECGOperations`**: the operations are received one after the other. -/
theorem handleStore_receivedECGOperations {operations : List (Header × RawECGBody)}
    (hs : s.stateMachine.replica = some (ecg, latest))
    (h : Handler.handleStore OT env listeners s (.receivedECGOperations peer operations) =
      .ok s') :
    ∃ ecg' latest', operations.foldlM (State.receiveOperation OT) (ecg, latest) =
        .ok (ecg', latest') ∧ Updated s s' ecg' latest' (some peer) := by
  obtain ⟨metadata, tree, initialState, hsm⟩ := exists_of_replica hs
  obtain ⟨s₂, hr, hsend⟩ := bind_eq_ok.mp h
  obtain ⟨s₁, hready, hr⟩ := bind_eq_ok.mp hr
  obtain ⟨info, b, -, -, rfl⟩ := State.updateOutgoingPeerToReady_ok hready
  have htouch := Untouched.of_touches (s := s) (State.touches_updateOutgoingPeerToReady hready)
  simp only [State.AfterPeers, hsm] at hr
  obtain ⟨⟨ecg', latest'⟩, hf, hr⟩ := bind_eq_ok.mp hr
  cases hr
  exact ⟨ecg', latest', hf, htouch.updated (updated_updateListeners rfl)
    (.of_touches (State.touches_sendSyncRequests hsend))⟩

omit [Hash H] [DecidableEq H] [DecidableEq StoreId] [ECGHeader Header HeaderId]
  [CRDT T Op (OperationId HeaderId)] in
/-- **`SubscribeECG`**: the subscription is answered, or registered if it knows our tips. -/
theorem handleEcgSubscribe_eq {tips : Option (BTreeSet HeaderId)} {chan : Chan}
    (hs : s.stateMachine.replica = some (ecg, latest)) :
    s.handleEcgSubscribe peer tips chan =
      if State.respondImmediately ecg tips then s.send (.ecg chan ecg)
      else { s with ecgSubscribers := s.ecgSubscribers.insert peer chan } := by
  obtain ⟨metadata, tree, initialState, hsm⟩ := exists_of_replica hs
  simp only [State.handleEcgSubscribe, hsm]

lemma Change.untouched (hc : Change OT listeners cmd s s')
    (hs : s.stateMachine.replica = some (ecg, latest)) (hg : cmd.isGraph = false)
    (hm : cmd.isMetadata = false) : Untouched s s' := by
  obtain ⟨metadata, tree, initialState, hsm⟩ := exists_of_replica hs
  cases hc with
  | metadata peer metadata hv ht => cases hm
  | merkle peer ranges nodes hs' ht => rw [hsm] at hs'; cases hs'
  | complete peer hs' ht hn => rw [hsm] at hs'; cases hs'
  | blocks peer ranges theirBlocks hs' hb => rw [hsm] at hs'; cases hs'
  | syncing peer hs' hb hn => rw [hsm] at hs'; cases hs'
  | operations peer operations hs' hf => cases hg
  | apply header body hs' hi ha => cases hg
  | subscribeECG peer tips chan => cases hg
  | subscribeState chan => exact ⟨rfl, rfl, by simp [State.send, ecgMessages, Sent.ecgMessage]⟩
  | metadataRequest peer chan =>
    rcases s.handleMetadataPeerRequest_cases peer chan with ⟨metadata, -, heq⟩ | ⟨-, heq⟩
    · rw [heq]; exact ⟨rfl, rfl, by simp [State.send, ecgMessages, Sent.ecgMessage]⟩
    · rw [heq]; exact ⟨rfl, rfl, by simp [State.send, ecgMessages, Sent.ecgMessage]⟩
  | merkleRequest peer ranges chan hr =>
    obtain ⟨tree, hashes, -, -, rfl⟩ | ⟨-, rfl⟩ := State.handleMerklePeerRequest_ok hr
    · exact ⟨rfl, rfl, by simp [State.send, ecgMessages, Sent.ecgMessage]⟩
    · exact ⟨rfl, rfl, by simp [State.send, ecgMessages, Sent.ecgMessage]⟩
  | blockRequest peer ranges chan hr =>
    obtain ⟨blocks, -, rfl⟩ | ⟨-, rfl⟩ := State.handleBlockPeerRequest_ok hr
    · exact ⟨rfl, rfl, by simp [State.send, ecgMessages, Sent.ecgMessage]⟩
    · exact ⟨rfl, rfl, by simp [State.send, ecgMessages, Sent.ecgMessage]⟩

/-- **Everything else** leaves the graph and its subscribers alone. -/
theorem handleStore_untouched (hs : s.stateMachine.replica = some (ecg, latest))
    (hg : cmd.isGraph = false) (hm : cmd.isMetadata = false)
    (h : Handler.handleStore OT env listeners s cmd = .ok s') : Untouched s s' := by
  have heffects := handleStore_effects h
  clear h
  induction heffects with
  | refl => exact .refl s
  | tail _ hc ih =>
    refine ih.trans (hc.elim (fun hc => ?_) fun hc => .of_touches hc)
    exact hc.untouched (ih.replica.trans hs) hg hm

end Commands

/-! ### The graph grows -/

section Grows

variable [ECGHeader Header HeaderId] [CRDT T Op (OperationId HeaderId)]
variable {OT : OssaType StoreId H HeaderId Body T Op}

/-- What `receive_operation` does to the graph. -/
lemma receiveOperation_fst {w w' : UntypedState HeaderId Header × T} {o : Header × RawECGBody}
    (h : State.receiveOperation OT w o = .ok w') : w'.1 = (w.1.insertHeader o.1 o.2).1 := by
  obtain ⟨operations, -, h⟩ := bind_eq_ok.mp h
  dsimp only at h
  split_ifs at h with hi
  · obtain ⟨latest', -, heq⟩ := bind_eq_ok.mp h
    cases heq
    rfl
  · cases h
    rfl

lemma foldlM_receiveOperation_fst {w w' : UntypedState HeaderId Header × T}
    {operations : List (Header × RawECGBody)}
    (h : operations.foldlM (State.receiveOperation OT) w = .ok w') :
    w'.1 = insertAll w.1 operations := by
  induction operations generalizing w with
  | nil => cases h; rfl
  | cons o operations ih =>
    obtain ⟨w₁, hw₁, h⟩ := bind_eq_ok.mp ((List.foldlM_cons ..).symm.trans h)
    rw [ih h, receiveOperation_fst hw₁]
    rfl

end Grows

end Ossa.Store
