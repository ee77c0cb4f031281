import Ossa.Advertise
import Ossa.Multiplexer
import Ossa.StoreTasks
import Ossa.StoreDownload

/-!
How a node answers a peer that asks for a stream, as `protocol/manager/v0.rs` does it.

The manager asks the store, then the multiplexer. The store marks the peer before the multiplexer
looks up the id of the stream, and so does the task of the stream, which is spawned before.
-/

namespace Ossa.Network

open Ossa.Collections

inductive Party
  | client
  | server

namespace Party

def isClient : Party → Bool
  | client => true
  | server => false

def dual : Party → Party
  | client => server
  | server => client

end Party

/-- `MultiplexerCommand::CreateStream`, with the channel made for the stream: the streams, and
whether this one was added. -/
def createStream {Sender : Type} (streamMap : BTreeMap StreamId Sender) (streamId : StreamId)
    (sender : Sender) : BTreeMap StreamId Sender × Bool :=
  tryInsert streamMap streamId sender

end Ossa.Network

namespace Ossa

open Ossa.Loop Ossa.Collections Ossa.Util Ossa.Ecg Ossa.Crdt Ossa.Network Ossa.Store

/-- MiniProtocol instance for stream/connection management. -/
structure Manager where
  partyWithInitiative : Party
  peerId : DeviceId

namespace Manager

/-- Returns whether the proposed stream id is valid for the peer. -/
def isValidStreamId (self : Manager) (ourInitiative : Bool) (streamId : StreamId) :
    Bool :=
  let ourParty :=
    if ourInitiative then self.partyWithInitiative else self.partyWithInitiative.dual
  let theirParty := ourParty.dual
  if theirParty.isClient then streamId.val % 2 == 1 else streamId.val % 2 == 0

/-- A `CreateStoreStream` request, with the channels that are made for it. -/
structure StreamRequest (StoreId Sender : Type) where
  streamId : StreamId
  storeId : StoreId
  sender : Sender
  responseChan : Chan

variable {StoreId H HeaderId Header Body T Op Sender : Type}
variable [LinearOrder StoreId] [LinearOrder HeaderId]

/-- What a request meets: the stores, the tasks that own them by the channels they read, and the
streams of the connection. -/
structure Node (StoreId H HeaderId Header T Sender : Type) [LinearOrder StoreId]
    [LinearOrder HeaderId] where
  activeStores : StoreStatuses StoreId Chan
  tasks : BTreeMap Chan (Handler StoreId H HeaderId Header T)
  streamMap : BTreeMap StreamId Sender

/-- The answer to `SyncWithPeer`, if this is it. -/
def spawnTask? (responseChan : Chan) :
    Sent StoreId H HeaderId Header T → Option (Option DeviceId)
  | .syncResponse chan spawnTask => if chan = responseChan then some spawnTask else none
  | _ => none

/-- The channel of a store that runs. -/
def Node.storeChan (node : Node StoreId H HeaderId Header T Sender) (storeId : StoreId) :
    Option Chan :=
  node.activeStores[storeId]?.bind StoreStatus.commandChannel

/-- The node when a task has changed its store. -/
def Node.withStore (node : Node StoreId H HeaderId Header T Sender) (chan : Chan)
    (handler : Handler StoreId H HeaderId Header T) (s : State StoreId H HeaderId Header T) :
    Node StoreId H HeaderId Header T Sender :=
  { node with tasks := node.tasks.insert chan ⟨s, handler.listeners⟩ }

/-- The peers of the store behind a channel. -/
def Node.peers (node : Node StoreId H HeaderId Header T Sender) (chan : Chan) :
    Option (BTreeMap DeviceId PeerInfo) :=
  node.tasks[chan]?.map fun handler => handler.store.peers

def Node.incomingStatus (node : Node StoreId H HeaderId Header T Sender) (chan : Chan)
    (peer : DeviceId) : Option (PeerStatus Unit) :=
  (node.peers chan).bind fun peers => peers[peer]?.map PeerInfo.incomingStatus

/-- Two nodes that differ in nothing a request meets. -/
structure Node.Alike (node node' : Node StoreId H HeaderId Header T Sender) : Prop where
  activeStores : node'.activeStores = node.activeStores
  peers : ∀ chan, node'.peers chan = node.peers chan
  streamMap : node'.streamMap = node.streamMap

section Request

variable [Hash H] [DecidableEq H] [ECGHeader Header HeaderId] [CRDT T Op (OperationId HeaderId)]
variable (OT : OssaType StoreId H HeaderId Body T Op) (env : Environment)

/-- Send a command to a store, and let its task handle it. The one who sends it waits for the
answer, and everybody else the store writes to is taken to be there as well. -/
def Node.tell (node : Node StoreId H HeaderId Header T Sender) (chan : Chan)
    (cmd : Command H HeaderId Header Body) : Exec (Node StoreId H HeaderId Header T Sender ×
      List (Sent StoreId H HeaderId Header T)) := do
  let handler ← orFault (.expect "TODO") node.tasks[chan]?
  let handler' ← handler.handle OT env.allAlive cmd
  pure ({ node with tasks := node.tasks.insert chan handler' },
    handler'.store.sent.drop handler.store.sent.length)

/-- Run protocol to start a new (StorePeer) stream as the client (responder). -/
def runRequestNewStreamClient (self : Manager)
    (node : Node StoreId H HeaderId Header T Sender) (r : StreamRequest StoreId Sender) :
    Exec (Node StoreId H HeaderId Header T Sender × MsgManagerCreateStoreResponse) :=
  -- Check if stream is valid (it can be allocated by peer and is available).
  if !self.isValidStreamId false r.streamId then .ok (node, ⟨.error .invalidStreamId⟩)
  else
    -- Ask store task if they want to sync with this peer.
    match node.storeChan r.storeId with
    | none => .ok (node, ⟨.ok false⟩)
    | some storeChan => do
      let (node, sent) ← node.tell OT env storeChan (.syncWithPeer self.peerId r.responseChan)
      match ← orFault (.expect "TODO") (sent.findSome? (spawnTask? r.responseChan)) with
      | none => pure (node, ⟨.ok false⟩)
      | some peer => do
        -- Tell multiplexer to create miniprotocol.
        let (streamMap, isRunning) := createStream node.streamMap r.streamId r.sender
        -- The task that is spawned tells the store we're running.
        let (node, _) ← Node.tell OT env { node with streamMap } storeChan
          (.registerIncomingPeerSyncing peer)
        pure (node, ⟨.ok isRunning⟩)

/-- The answers to requests that come one after the other. -/
def answers (self : Manager) : Node StoreId H HeaderId Header T Sender →
    List (StreamRequest StoreId Sender) → Exec (List (Except MsgManagerError Bool))
  | _, [] => .ok []
  | node, r :: requests => do
    let (node, response) ← self.runRequestNewStreamClient OT env node r
    let answers ← answers self node requests
    pure (response.accept :: answers)

/-! ### What becomes of a request -/

variable {OT : OssaType StoreId H HeaderId Body T Op} {env : Environment} {m : Manager}
  {node node' : Node StoreId H HeaderId Header T Sender} {r : StreamRequest StoreId Sender}
  {chan : Chan} {handler : Handler StoreId H HeaderId Header T}

lemma tell_eq {cmd : Command H HeaderId Header Body} {s : State StoreId H HeaderId Header T}
    (ht : node.tasks[chan]? = some handler)
    (hs : Handler.handleStore OT env handler.listeners handler.store cmd = .ok s)
    (hl : Handler.handleListeners handler.listeners cmd = handler.listeners) :
    node.tell OT env chan cmd =
      .ok (node.withStore chan handler s, s.sent.drop handler.store.sent.length) := by
  unfold Node.tell
  rw [ht, orFault_some, ok_bind, Handler.handle_allAlive hs, ok_bind, hl]
  rfl

lemma run_of_invalid (h : m.isValidStreamId false r.streamId = false) :
    m.runRequestNewStreamClient OT env node r = .ok (node, ⟨.error .invalidStreamId⟩) := by
  unfold runRequestNewStreamClient
  rw [h]
  rfl

lemma run_of_not_running (hv : m.isValidStreamId false r.streamId = true)
    (h : node.storeChan r.storeId = none) :
    m.runRequestNewStreamClient OT env node r = .ok (node, ⟨.ok false⟩) := by
  unfold runRequestNewStreamClient
  rw [hv, h]
  rfl

lemma run_of_stopped (hv : m.isValidStreamId false r.streamId = true)
    (hc : node.storeChan r.storeId = some chan) (ht : node.tasks[chan]? = none) :
    m.runRequestNewStreamClient OT env node r = .error (.expect "TODO") := by
  unfold runRequestNewStreamClient Node.tell
  rw [hv, hc]
  simp only [Bool.not_true, Bool.false_eq_true, if_false, ht]
  rfl

lemma run_of_busy (hv : m.isValidStreamId false r.streamId = true)
    (hc : node.storeChan r.storeId = some chan) (ht : node.tasks[chan]? = some handler)
    (hb : (handler.store.infoOf m.peerId).incomingStatus ≠ .known) :
    m.runRequestNewStreamClient OT env node r = .ok (node.withStore chan handler
      (handler.store.AfterPeers handler.store.peers [.syncResponse r.responseChan none]),
      ⟨.ok false⟩) := by
  have hs : Handler.handleStore OT env handler.listeners handler.store
      (.syncWithPeer m.peerId r.responseChan) = _ := State.syncWithPeer_of_ne _ hb
  unfold runRequestNewStreamClient
  rw [hv, hc]
  simp only [Bool.not_true, Bool.false_eq_true, if_false]
  rw [tell_eq ht hs rfl, ok_bind]
  simp [State.AfterPeers, spawnTask?]

/-- The store agrees: its peer syncs from then on, whatever the multiplexer says. -/
lemma run_of_known (hv : m.isValidStreamId false r.streamId = true)
    (hc : node.storeChan r.storeId = some chan) (ht : node.tasks[chan]? = some handler)
    (hk : (handler.store.infoOf m.peerId).incomingStatus = .known) :
    m.runRequestNewStreamClient OT env node r =
      .ok ({ node with
        streamMap := (createStream node.streamMap r.streamId r.sender).1 }.withStore chan handler
          (handler.store.synced m.peerId [.syncResponse r.responseChan (some m.peerId)]),
        ⟨.ok (createStream node.streamMap r.streamId r.sender).2⟩) := by
  have hs : Handler.handleStore OT env handler.listeners handler.store
      (.syncWithPeer m.peerId r.responseChan) = _ := State.syncWithPeer_of_known _ hk
  have hs' : ∀ l, Handler.handleStore OT env handler.listeners (handler.store.AfterPeers
      (handler.store.peers.insert m.peerId
        (PeerInfo.incoming.set (handler.store.infoOf m.peerId) .initializing)) l)
      (.registerIncomingPeerSyncing m.peerId) = _ := fun l =>
    State.updatePeerToSyncing_of_initializing l
  unfold runRequestNewStreamClient
  rw [hv, hc]
  simp only [Bool.not_true, Bool.false_eq_true, if_false]
  rw [tell_eq ht hs rfl, ok_bind]
  simp only [State.AfterPeers, List.drop_left, spawnTask?, List.findSome?_cons, if_true,
    orFault_some, ok_bind]
  rw [tell_eq (get_insert.trans (if_pos rfl)) (hs' _) rfl, ok_bind, pure_eq_ok]
  simp only [Node.withStore, insert_insert]

/-! ### What a refusal leaves behind -/

omit [Hash H] [DecidableEq H] [ECGHeader Header HeaderId] in
lemma peers_withStore {s : State StoreId H HeaderId Header T} (c : Chan) :
    (node.withStore chan handler s).peers c = if c = chan then some s.peers else node.peers c := by
  unfold Node.peers Node.withStore
  rw [get_insert]
  split_ifs <;> rfl

omit [Hash H] [DecidableEq H] [ECGHeader Header HeaderId] in
lemma alike_withStore {l : List (Sent StoreId H HeaderId Header T)}
    (ht : node.tasks[chan]? = some handler) : node.Alike
      (node.withStore chan handler (handler.store.AfterPeers handler.store.peers l)) := by
  refine ⟨rfl, fun c => ?_, rfl⟩
  rw [peers_withStore]
  split_ifs with hc
  · rw [hc, Node.peers, ht]
    rfl
  · rfl

/-- **Alike nodes answer alike**, and stay alike. -/
theorem alike_run (h : node.Alike node') (r : StreamRequest StoreId Sender) :
    (∃ e, m.runRequestNewStreamClient OT env node r = .error e ∧
      m.runRequestNewStreamClient OT env node' r = .error e) ∨
    ∃ n n' response, m.runRequestNewStreamClient OT env node r = .ok (n, response) ∧
      m.runRequestNewStreamClient OT env node' r = .ok (n', response) ∧ n.Alike n' := by
  have hchan : node'.storeChan r.storeId = node.storeChan r.storeId := by
    rw [Node.storeChan, h.activeStores]
    rfl
  cases hv : m.isValidStreamId false r.streamId with
  | false => exact Or.inr ⟨_, _, _, run_of_invalid hv, run_of_invalid hv, h⟩
  | true =>
    cases hc : node.storeChan r.storeId with
    | none =>
      rw [hc] at hchan
      exact Or.inr ⟨_, _, _, run_of_not_running hv hc, run_of_not_running hv hchan, h⟩
    | some chan =>
      rw [hc] at hchan
      have hpeers := h.peers chan
      unfold Node.peers at hpeers
      cases ht : node.tasks[chan]? with
      | none =>
        rw [ht] at hpeers
        have ht' : node'.tasks[chan]? = none := Option.map_eq_none_iff.mp hpeers
        exact Or.inl ⟨_, run_of_stopped hv hc ht, run_of_stopped hv hchan ht'⟩
      | some handler =>
        rw [ht] at hpeers
        obtain ⟨handler', ht', hpeers⟩ := Option.map_eq_some_iff.mp hpeers
        have hinfo : handler'.store.infoOf m.peerId = handler.store.infoOf m.peerId := by
          rw [State.infoOf, hpeers]
          rfl
        refine Or.inr ?_
        by_cases hk : (handler.store.infoOf m.peerId).incomingStatus = .known
        · have hk' := hk
          rw [← hinfo] at hk'
          have hrun' : m.runRequestNewStreamClient OT env node' r = _ :=
            run_of_known hv hchan ht' hk'
          rw [h.streamMap] at hrun'
          refine ⟨_, _, _, run_of_known hv hc ht hk, hrun', h.activeStores, fun c => ?_, rfl⟩
          rw [peers_withStore, peers_withStore]
          split_ifs
          · simp only [State.synced, State.AfterPeers, hinfo, hpeers]
          · exact h.peers c
        · have hk' := hk
          rw [← hinfo] at hk'
          refine ⟨_, _, _, run_of_busy hv hc ht hk, run_of_busy hv hchan ht' hk', h.activeStores,
            fun c => ?_, h.streamMap⟩
          rw [peers_withStore, peers_withStore]
          split_ifs
          · exact congrArg some hpeers
          · exact h.peers c

lemma alike_answers (h : node.Alike node') (requests : List (StreamRequest StoreId Sender)) :
    m.answers OT env node' requests = m.answers OT env node requests := by
  induction requests generalizing node node' with
  | nil => rfl
  | cons r requests ih =>
    unfold answers
    have hrun : (∃ e, m.runRequestNewStreamClient OT env node r = .error e ∧ _) ∨ _ := alike_run h r
    rcases hrun with ⟨e, he, he'⟩ | ⟨n, n', response, hn, hn', hnext⟩
    · rw [he, he']
    · rw [hn, hn', ok_bind, ok_bind]
      simp only [ih hnext]

variable (OT env m) in
/-- A request leaves no trace. -/
structure NoTrace (node node' : Node StoreId H HeaderId Header T Sender) : Prop where
  incoming : ∀ chan, node'.incomingStatus chan m.peerId = node.incomingStatus chan m.peerId
  streams : node'.streamMap = node.streamMap
  later : ∀ requests, m.answers OT env node' requests = m.answers OT env node requests

lemma Node.Alike.noTrace (h : node.Alike node') : NoTrace OT env m node node' where
  incoming chan := by
    rw [Node.incomingStatus, h.peers chan]
    rfl
  streams := h.streamMap
  later := alike_answers h

variable (m) in
/-- The store agrees to sync, and then the id of the stream is found in use. -/
def RefusedLate (node : Node StoreId H HeaderId Header T Sender)
    (r : StreamRequest StoreId Sender) : Prop :=
  m.isValidStreamId false r.streamId = true ∧ containsKey node.streamMap r.streamId = true ∧
    ∃ chan handler, node.storeChan r.storeId = some chan ∧ node.tasks[chan]? = some handler ∧
      (handler.store.infoOf m.peerId).incomingStatus = .known

/-- A refusal at the last step leaves the peer syncing. -/
lemma run_of_refusedLate (h : RefusedLate m node r) :
    ∃ node', m.runRequestNewStreamClient OT env node r = .ok (node', ⟨.ok false⟩) ∧
      ∃ chan, node'.incomingStatus chan m.peerId ≠ node.incomingStatus chan m.peerId := by
  obtain ⟨hv, hused, chan, handler, hc, ht, hk⟩ := h
  have hstream : createStream node.streamMap r.streamId r.sender = (node.streamMap, false) :=
    if_pos hused
  have hrun : m.runRequestNewStreamClient OT env node r = _ := run_of_known hv hc ht hk
  rw [hstream] at hrun
  refine ⟨_, hrun, chan, ?_⟩
  unfold Node.incomingStatus
  rw [peers_withStore, if_pos rfl, Node.peers, ht]
  simp only [State.synced, State.AfterPeers, Option.bind_some, Option.map_some]
  rw [get_insert, if_pos rfl]
  unfold State.infoOf at hk
  intro heq
  cases hp : handler.store.peers[m.peerId]? with
  | none =>
    rw [hp] at heq
    cases heq
  | some info =>
    rw [hp] at heq hk
    have hstatus : (.syncing () : PeerStatus Unit) = info.incomingStatus := Option.some.inj heq
    rw [show info.incomingStatus = .known from hk] at hstatus
    cases hstatus

/-- Any other refusal comes before anything has changed. -/
lemma alike_of_refused {response : MsgManagerCreateStoreResponse} (hlate : ¬ RefusedLate m node r)
    (hrun : m.runRequestNewStreamClient OT env node r = .ok (node', response))
    (href : response.accept ≠ .ok true) : node.Alike node' := by
  have hself : node.Alike node := ⟨rfl, fun _ => rfl, rfl⟩
  cases hv : m.isValidStreamId false r.streamId with
  | false =>
    rw [run_of_invalid hv] at hrun
    cases hrun
    exact hself
  | true =>
    cases hc : node.storeChan r.storeId with
    | none =>
      rw [run_of_not_running hv hc] at hrun
      cases hrun
      exact hself
    | some chan =>
      cases ht : node.tasks[chan]? with
      | none =>
        rw [run_of_stopped hv hc ht] at hrun
        cases hrun
      | some handler =>
        by_cases hk : (handler.store.infoOf m.peerId).incomingStatus = .known
        · rw [run_of_known hv hc ht hk] at hrun
          cases hrun
          -- an accepted request, for the id is free
          refine absurd ?_ href
          have hfree : ¬ containsKey node.streamMap r.streamId = true := fun hused =>
            hlate ⟨hv, hused, chan, handler, hc, ht, hk⟩
          show Except.ok (createStream node.streamMap r.streamId r.sender).2 = _
          rw [createStream, tryInsert, if_neg hfree]
        · rw [run_of_busy hv hc ht hk] at hrun
          cases hrun
          exact alike_withStore ht

/-- **A refusal leaves no trace, unless it comes last.** Whatever the stores and the streams are,
a request that is not accepted changes neither the incoming status of its peer at any store nor
the streams, nor what later requests are answered, if and only if it is not the multiplexer that
refuses it: then the store has already marked the peer. -/
theorem noTrace_iff (m : Manager) (node : Node StoreId H HeaderId Header T Sender)
    (r : StreamRequest StoreId Sender) :
    (∀ node' response, m.runRequestNewStreamClient OT env node r = .ok (node', response) →
      response.accept ≠ .ok true → NoTrace OT env m node node') ↔ ¬ RefusedLate m node r := by
  constructor
  · intro h hlate
    obtain ⟨node', hrun, chan, hne⟩ := run_of_refusedLate (r := r) hlate
    exact hne ((h node' _ hrun (by simp)).incoming chan)
  · intro hlate node' response hrun href
    exact (alike_of_refused hlate hrun href).noTrace

end Request

/-! Peer 1 asks for a stream to sync the counter: first with an id in use, then with a free one. -/

section Counter

open V0

local instance instHashCounterStream : Hash UInt8 := tableHash counterTable

/-- A counter whose store has a number for its id. -/
def numberedType : OssaType ℕ UInt8 ℕ (List ℕ) Counter ℕ :=
  { counterType with into := UInt8.toNat }

def counterManager : Manager := ⟨.client, 1⟩

def counterNode : Node ℕ UInt8 ℕ TestHeader Counter Unit :=
  ⟨(∅ : StoreStatuses ℕ Chan).insert 0 (.running 5),
    (∅ : BTreeMap Chan (Handler ℕ UInt8 ℕ TestHeader Counter)).insert 5
      ⟨.newDownloading 0, []⟩,
    (createStream ∅ ⟨3, by decide⟩ ()).1⟩

def usedId : StreamRequest ℕ Unit := ⟨⟨3, by decide⟩, 0, (), 8⟩

def freeId : StreamRequest ℕ Unit := ⟨⟨5, by decide⟩, 0, (), 9⟩

theorem used_id_leaves_trace :
    counterManager.answers numberedType calm counterNode [freeId] = .ok [.ok true] ∧
    counterManager.answers numberedType calm counterNode [usedId, freeId] =
      .ok [.ok false, .ok false] ∧
    ¬ ∀ node' response, counterManager.runRequestNewStreamClient numberedType calm counterNode
      usedId = .ok (node', response) → response.accept ≠ .ok true →
        NoTrace numberedType calm counterManager counterNode node' := by
  refine ⟨rfl, rfl, fun h => ?_⟩
  have hlate : RefusedLate counterManager counterNode usedId :=
    ⟨rfl, rfl, 5, ⟨.newDownloading 0, []⟩, rfl, rfl, rfl⟩
  obtain ⟨node', hrun, chan, hne⟩ := run_of_refusedLate hlate
  exact hne ((h node' _ hrun (by simp)).incoming chan)

end Counter

end Manager

end Ossa
