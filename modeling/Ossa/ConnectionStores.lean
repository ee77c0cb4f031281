import Ossa.Connection

/-!
The stores of a node, as the setting up of a connection sees them: whether a store runs, whether
it knows the peer, and how far it has come with syncing in each direction.
-/

namespace Ossa.Manager

open Ossa.Loop Ossa.Util Ossa.Collections Ossa.Ecg Ossa.Crdt Ossa.Network Ossa.Store

variable {StoreId H HeaderId Header Body T Op Sender : Type} [LinearOrder StoreId]
variable [LinearOrder HeaderId]

namespace Node

variable (node : Node StoreId H HeaderId Header T Sender)

/-- The task that owns a store. -/
def handlerOf (storeId : StoreId) : Option (Handler StoreId H HeaderId Header T) :=
  (node.storeChan storeId).bind fun chan => node.tasks[chan]?

def outRank (p : DeviceId) (storeId : StoreId) : ℕ :=
  ((node.handlerOf storeId).map fun handler => handler.store.outRank p).getD 0

def inRank (p : DeviceId) (storeId : StoreId) : ℕ :=
  ((node.handlerOf storeId).map fun handler => handler.store.inRank p).getD 0

def knows (p : DeviceId) (storeId : StoreId) : Bool :=
  ((node.handlerOf storeId).map fun handler => handler.store.peers.contains p).getD false

/-- The store runs, and reads the channel. -/
def Has (store : StoreId × Chan) : Prop := node.storeChan store.1 = some store.2

def Runs (storeId : StoreId) : Prop := ∃ chan, node.storeChan storeId = some chan

/-- Each running store has a task of its own, which can ask for what it needs. -/
structure Coherent [Hash H] (into : H → StoreId) : Prop where
  handler : ∀ storeId chan, node.storeChan storeId = some chan → ∃ handler,
    node.tasks[chan]? = some handler ∧ handler.store.stateMachine.storeId into = storeId ∧
      handler.store.stateMachine.CanAsk

variable {node} {node' : Node StoreId H HeaderId Header T Sender} {p : DeviceId}
variable {store : StoreId × Chan} {storeId : StoreId} {chan : Chan}
variable {handler handler' : Handler StoreId H HeaderId Header T}

lemma Has.runs (h : node.Has store) : node.Runs store.1 := ⟨store.2, h⟩

lemma knows_of_outRank (h : node.outRank p storeId ≠ 0) : node.knows p storeId = true := by
  unfold outRank at h
  unfold knows
  cases hh : node.handlerOf storeId with
  | none => simp [hh] at h
  | some handler =>
    rw [hh] at h
    have hrank : rankOf PeerInfo.outgoing handler.store.peers[p]? ≠ 0 := h
    cases hp : handler.store.peers[p]? with
    | none => simp [hp, rankOf] at hrank
    | some info => exact contains_iff.mpr ⟨info, hp⟩

lemma runs_of_knows (h : node.knows p storeId = true) : node.Runs storeId := by
  unfold knows handlerOf at h
  cases hc : node.storeChan storeId with
  | none => simp [hc] at h
  | some chan => exact ⟨chan, hc⟩

section Views

variable [Hash H] {into : H → StoreId}

lemma Coherent.handlerOf (hco : node.Coherent into) (h : node.Has store) : ∃ handler,
    node.tasks[store.2]? = some handler ∧ node.handlerOf store.1 = some handler ∧
    handler.store.stateMachine.storeId into = store.1 ∧ handler.store.stateMachine.CanAsk := by
  obtain ⟨handler, ht, hid, hask⟩ := hco.handler store.1 store.2 h
  refine ⟨handler, ht, ?_, hid, hask⟩
  rw [Node.handlerOf, show node.storeChan store.1 = some store.2 from h]
  exact ht

lemma Coherent.chan_ne (hco : node.Coherent into) (h : node.Has store) (hne : storeId ≠ store.1)
    (hc : node.storeChan storeId = some chan) : chan ≠ store.2 := by
  rintro rfl
  obtain ⟨handler, ht, hid, -⟩ := hco.handler store.1 store.2 h
  obtain ⟨handler', ht', hid', -⟩ := hco.handler storeId store.2 hc
  rw [ht] at ht'
  cases ht'
  exact hne (hid'.symm.trans hid)

/-- The node when the task of a store has gone on. -/
def withTask (node : Node StoreId H HeaderId Header T Sender) (chan : Chan)
    (handler : Handler StoreId H HeaderId Header T) : Node StoreId H HeaderId Header T Sender :=
  { node with tasks := node.tasks.insert chan handler }

lemma Coherent.handlerOf_withTask (hco : node.Coherent into) (h : node.Has store)
    (storeId : StoreId) : (node.withTask store.2 handler).handlerOf storeId =
      if storeId = store.1 then some handler else node.handlerOf storeId := by
  show ((node.storeChan storeId).bind fun chan => (node.tasks.insert store.2 handler)[chan]?) = _
  split_ifs with heq
  · subst heq
    rw [show node.storeChan store.1 = some store.2 from h]
    exact get_insert.trans (if_pos rfl)
  · rw [Node.handlerOf]
    cases hc : node.storeChan storeId with
    | none => rfl
    | some chan => exact get_insert.trans (if_neg (hco.chan_ne h heq hc))

lemma Coherent.withTask (hco : node.Coherent into) (h : node.Has store)
    (hid : handler.store.stateMachine.storeId into = store.1)
    (hask : handler.store.stateMachine.CanAsk) : (node.withTask store.2 handler).Coherent into := by
  refine ⟨fun storeId chan hc => ?_⟩
  by_cases heq : storeId = store.1
  · subst heq
    cases h.symm.trans hc
    exact ⟨handler, get_insert.trans (if_pos rfl), hid, hask⟩
  · obtain ⟨handler', ht, hid', hask'⟩ := hco.handler storeId chan hc
    exact ⟨handler', (get_insert.trans (if_neg (hco.chan_ne h heq hc))).trans ht, hid', hask'⟩

/-- One store of the node has come to new ranks, and nothing else has changed. -/
structure Moves (into : H → StoreId) (p : DeviceId) (storeId : StoreId)
    (node node' : Node StoreId H HeaderId Header T Sender) (out inc : ℕ) (known : Bool) :
    Prop where
  activeStores : node'.activeStores = node.activeStores
  streamMap : node'.streamMap = node.streamMap
  outRank (a : StoreId) : node'.outRank p a = if a = storeId then out else node.outRank p a
  inRank (a : StoreId) : node'.inRank p a = if a = storeId then inc else node.inRank p a
  knows (a : StoreId) : node'.knows p a = if a = storeId then known else node.knows p a
  coherent : node'.Coherent into

lemma Moves.storeChan_eq {out inc : ℕ} {known : Bool}
    (h : Moves into p storeId node node' out inc known) (a : StoreId) :
    node'.storeChan a = node.storeChan a := by
  rw [Node.storeChan, h.activeStores, Node.storeChan]

lemma Coherent.moves (hco : node.Coherent into) (h : node.Has store) {out inc : ℕ} {known : Bool}
    (hid : handler.store.stateMachine.storeId into = store.1)
    (hask : handler.store.stateMachine.CanAsk) (hout : handler.store.outRank p = out)
    (hin : handler.store.inRank p = inc) (hknown : handler.store.peers.contains p = known) :
    Moves into p store.1 node (node.withTask store.2 handler) out inc known := by
  refine ⟨rfl, rfl, fun a => ?_, fun a => ?_, fun a => ?_, hco.withTask h hid hask⟩
  · rw [Node.outRank, hco.handlerOf_withTask h]
    split_ifs
    · exact hout
    · rfl
  · rw [Node.inRank, hco.handlerOf_withTask h]
    split_ifs
    · exact hin
    · rfl
  · rw [Node.knows, hco.handlerOf_withTask h]
    split_ifs
    · exact hknown
    · rfl

/-! ### Stores are launched -/

/-- A store that nobody has told anything yet. -/
structure Fresh (into : H → StoreId) (storeId : StoreId)
    (handler : Handler StoreId H HeaderId Header T) : Prop where
  peers : handler.store.peers = ∅
  storeId : handler.store.stateMachine.storeId into = storeId
  canAsk : handler.store.stateMachine.CanAsk

omit [LinearOrder StoreId] in
lemma fresh_newDownloading (storeId : StoreId) :
    Fresh into storeId (⟨.newDownloading storeId, []⟩ : Handler StoreId H HeaderId Header T) :=
  ⟨rfl, rfl, trivial⟩

omit [LinearOrder StoreId] in
lemma fresh_newSyncing {OT : OssaType StoreId H HeaderId Body T Op} {nonce : Store.Nonce}
    {storeType : TypeId} {initialState : T} {s : State StoreId H HeaderId Header T}
    (h : State.newSyncing OT nonce storeType initialState = .ok s) :
    Fresh into (s.stateMachine.storeId into) ⟨s, []⟩ := by
  obtain ⟨body, -, h⟩ := bind_eq_ok.mp h
  obtain ⟨metadata, -, h⟩ := bind_eq_ok.mp h
  cases h
  exact ⟨rfl, rfl, trivial⟩

/-- The node when a store is launched. -/
def launch (node : Node StoreId H HeaderId Header T Sender) (storeId : StoreId) (chan : Chan)
    (handler : Handler StoreId H HeaderId Header T) : Node StoreId H HeaderId Header T Sender :=
  { node with
    activeStores := node.activeStores.insert storeId (.running chan)
    tasks := node.tasks.insert chan handler }

omit [Hash H] in
lemma storeChan_launch (a : StoreId) : (node.launch storeId chan handler).storeChan a =
    if a = storeId then some chan else node.storeChan a := by
  show (node.activeStores.insert storeId (.running chan))[a]?.bind _ = _
  rw [get_insert]
  split_ifs <;> rfl

lemma Coherent.tasks_ne (hco : node.Coherent into) (hchan : containsKey node.tasks chan = false)
    {a : StoreId} {c : Chan} (hc : node.storeChan a = some c) : c ≠ chan := by
  rintro rfl
  obtain ⟨handler, ht, -⟩ := hco.handler a c hc
  exact Bool.eq_false_iff.mp hchan (contains_iff.mpr ⟨handler, ht⟩)

lemma Coherent.launch (hco : node.Coherent into) (hchan : containsKey node.tasks chan = false)
    (hfresh : Fresh into storeId handler) : (node.launch storeId chan handler).Coherent into := by
  refine ⟨fun a c hc => ?_⟩
  rw [storeChan_launch] at hc
  split_ifs at hc with heq
  · cases hc
    exact ⟨handler, get_insert.trans (if_pos rfl), hfresh.storeId.trans heq.symm, hfresh.canAsk⟩
  · obtain ⟨handler', ht, hrest⟩ := hco.handler a c hc
    exact ⟨handler', (get_insert.trans (if_neg (hco.tasks_ne hchan hc))).trans ht, hrest⟩

lemma Coherent.handlerOf_launch (hco : node.Coherent into)
    (hchan : containsKey node.tasks chan = false) (a : StoreId) :
    (node.launch storeId chan handler).handlerOf a =
      if a = storeId then some handler else node.handlerOf a := by
  rw [Node.handlerOf, storeChan_launch]
  split_ifs with heq
  · exact get_insert.trans (if_pos rfl)
  · rw [Node.handlerOf]
    cases hc : node.storeChan a with
    | none => rfl
    | some c => exact get_insert.trans (if_neg (hco.tasks_ne hchan hc))

/-- **A store that is launched** has come nowhere yet, and leaves the others alone. -/
theorem Coherent.views_launch (hco : node.Coherent into) (p : DeviceId)
    (hnew : node.storeChan storeId = none) (hchan : containsKey node.tasks chan = false)
    (hfresh : Fresh into storeId handler) (a : StoreId) :
    (node.launch storeId chan handler).outRank p a = node.outRank p a ∧
    (node.launch storeId chan handler).inRank p a = node.inRank p a ∧
    (node.launch storeId chan handler).knows p a = node.knows p a := by
  unfold Node.outRank Node.inRank Node.knows
  rw [hco.handlerOf_launch hchan]
  split_ifs with heq
  · have hnone : node.handlerOf a = none := by rw [Node.handlerOf, heq, hnew]; rfl
    have hget : handler.store.peers[p]? = none := by rw [hfresh.peers]; rfl
    have hcontains : handler.store.peers.contains p = false := by rw [hfresh.peers]; rfl
    simp [hnone, State.outRank, State.inRank, hget, hcontains, rankOf]
  · exact ⟨rfl, rfl, rfl⟩

end Views

/-! ### The stores that run -/

lemma mem_runningStores {e : StoreId × Chan} :
    e ∈ runningStores node.activeStores ↔ node.Has e := by
  rw [runningStores, List.mem_filterMap, Has, storeChan]
  constructor
  · rintro ⟨⟨a, status⟩, he, hc⟩
    obtain ⟨chan, hchan, rfl⟩ := Option.map_eq_some_iff.mp hc
    rw [mem_toList.mp he]
    exact hchan
  · intro he
    obtain ⟨status, hget, hc⟩ := Option.bind_eq_some_iff.mp he
    exact ⟨(e.1, status), mem_toList.mpr hget, Option.map_eq_some_iff.mpr ⟨e.2, hc, rfl⟩⟩

lemma mem_runningIds : storeId ∈ runningIds node.activeStores ↔ node.Runs storeId := by
  rw [runningIds, List.mem_map]
  constructor
  · rintro ⟨e, he, rfl⟩
    exact (mem_runningStores.mp he).runs
  · rintro ⟨chan, hc⟩
    exact ⟨(storeId, chan), mem_runningStores.mpr hc, rfl⟩

lemma advertisedStores_eq {ids : List StoreId} (hids : ∀ a, node.Runs a → a ∈ ids)
    (hlen : ids.length ≤ MAX_ADVERTISE_STORES) :
    advertisedStores node.activeStores = runningStores node.activeStores := by
  refine List.take_of_length_le (le_trans ?_ hlen)
  have hsub : runningIds node.activeStores ⊆ ids := fun a ha => hids a (mem_runningIds.mp ha)
  have hle := ((nodup_runningIds node.activeStores).subperm hsub).length_le
  rwa [runningIds, List.length_map] at hle

section Tell

variable [Hash H] [DecidableEq H] [ECGHeader Header HeaderId] [CRDT T Op (OperationId HeaderId)]
variable {OT : OssaType StoreId H HeaderId Body T Op} {env : Environment}
variable {cmd : Command H HeaderId Header Body} {s : State StoreId H HeaderId Header T}
variable {sent : List (Sent StoreId H HeaderId Header T)}

omit [DecidableEq H] [ECGHeader Header HeaderId] [CRDT T Op (OperationId HeaderId)] in
lemma Coherent.ranks (hco : node.Coherent OT.into) (h : node.Has store) : ∃ handler,
    node.tasks[store.2]? = some handler ∧
    handler.store.stateMachine.storeId OT.into = store.1 ∧ handler.store.stateMachine.CanAsk ∧
    node.outRank p store.1 = handler.store.outRank p ∧
    node.inRank p store.1 = handler.store.inRank p ∧
    node.knows p store.1 = handler.store.peers.contains p := by
  obtain ⟨handler, ht, hof, hid, hask⟩ := hco.handlerOf h
  exact ⟨handler, ht, hid, hask, by rw [Node.outRank, hof]; rfl, by rw [Node.inRank, hof]; rfl,
    by rw [Node.knows, hof]; rfl⟩

/-- A command that the store handles: the store moves, and its messages are new. -/
lemma Coherent.tell (hco : node.Coherent OT.into) (h : node.Has store)
    (ht : node.tasks[store.2]? = some handler)
    (hs : Handler.handleStore OT env handler.listeners handler.store cmd = .ok s)
    {out inc : ℕ} {known : Bool} {ids : List StoreId}
    (hmoves : handler.store.Moves p s out inc known ids) : ∃ node' sent,
      node.tell OT env store.2 cmd = .ok (node', sent) ∧ s.sent = handler.store.sent ++ sent ∧
      Moves OT.into p store.1 node node' out inc known ∧ syncRequested p sent = ids := by
  obtain ⟨handler', ht', -, hid, hask⟩ := hco.handlerOf h
  rw [ht] at ht'
  cases ht'
  obtain ⟨l, hl, hids⟩ := hmoves.sent
  refine ⟨node.withTask store.2 ⟨s, Handler.handleListeners handler.listeners cmd⟩, l, ?_, hl,
    hco.moves h ((handleStore_storeId hs).trans hid) (handleStore_canAsk hask hs) hmoves.outRank
      hmoves.inRank hmoves.contains, hids⟩
  unfold Node.tell
  rw [ht, orFault_some, ok_bind, Handler.handle_allAlive hs, ok_bind, pure_eq_ok]
  simp only [hl, List.drop_left]
  rfl

lemma tell_ok (h : node.tell OT env chan cmd = .ok (node', sent)) : ∃ handler s,
    node.tasks[chan]? = some handler ∧
    Handler.handleStore OT env handler.listeners handler.store cmd = .ok s := by
  obtain ⟨handler, ht, h⟩ := bind_eq_ok.mp h
  obtain ⟨handler', hh, -⟩ := bind_eq_ok.mp h
  exact ⟨handler, handler'.store, orFault_eq_ok.mp ht,
    Handler.handleStore_allAlive.symm.trans (Handler.handleStore_of_handle hh).1⟩

/-! ### The commands -/

/-- **A command about others**: the manager of the peer is asked at most once. -/
theorem Coherent.command (hco : node.Coherent OT.into) (h : node.Has store)
    (hcmd : cmd.isAbout p = false) (htell : node.tell OT env store.2 cmd = .ok (node', sent)) :
    (Moves OT.into p store.1 node node' (node.outRank p store.1) (node.inRank p store.1)
        (node.knows p store.1) ∧ syncRequested p sent = []) ∨
    (node.outRank p store.1 = 0 ∧ node.knows p store.1 = true ∧
      Moves OT.into p store.1 node node' 1 (node.inRank p store.1) true ∧
        syncRequested p sent = [store.1]) := by
  obtain ⟨handler, ht, hid, hask, hout, hin, hknows⟩ := hco.ranks (p := p) h
  obtain ⟨handler', s, ht', hs⟩ := tell_ok htell
  rw [ht] at ht'
  cases ht'
  rw [hout, hin, hknows]
  rcases handleStore_still hcmd hs with hstill | hstarts
  · obtain ⟨node₁, sent₁, htell₁, -, hmoves, hids⟩ := hco.tell h ht hs hstill
    rw [htell] at htell₁
    cases htell₁
    exact Or.inl ⟨hmoves, hids⟩
  · obtain ⟨node₁, sent₁, htell₁, -, hmoves, hids⟩ := hco.tell h ht hs hstarts.moves
    rw [htell] at htell₁
    cases htell₁
    exact Or.inr ⟨hstarts.before, hstarts.known, hmoves, hid ▸ hids⟩

/-- **The peer is registered.** -/
theorem Coherent.registerPeer (hco : node.Coherent OT.into) (h : node.Has store)
    (hconnected : env.connected p = true) : ∃ node' sent,
      node.tell OT env store.2 (.registerPeers [p]) = .ok (node', sent) ∧
      ((node.outRank p store.1 = 0 ∧
        Moves OT.into p store.1 node node' 1 (node.inRank p store.1) true ∧
        syncRequested p sent = [store.1]) ∨
      (node.outRank p store.1 ≠ 0 ∧ Moves OT.into p store.1 node node' (node.outRank p store.1)
        (node.inRank p store.1) true ∧ syncRequested p sent = [])) := by
  obtain ⟨handler, ht, hid, hask, hout, hin, hknows⟩ := hco.ranks (p := p) h
  obtain ⟨s, hs, -, hmoves⟩ := handleStore_registerPeer OT env handler.listeners
    handler.store hconnected
  rw [hout, hin]
  split_ifs at hmoves with hzero
  · obtain ⟨node', sent, htell, -, hmoves, hids⟩ := hco.tell h ht hs hmoves
    exact ⟨node', sent, htell, Or.inl ⟨hzero, hmoves, hid ▸ hids⟩⟩
  · obtain ⟨node', sent, htell, -, hmoves, hids⟩ := hco.tell h ht hs hmoves
    exact ⟨node', sent, htell, Or.inr ⟨hzero, hmoves, hids⟩⟩

/-- **The peer asks to sync.** -/
theorem Coherent.syncWithPeer (hco : node.Coherent OT.into) (env : Environment) (h : node.Has store)
    (hzero : node.inRank p store.1 = 0) (responseChan : Chan) : ∃ node',
      node.tell OT env store.2 (.syncWithPeer p responseChan) =
        .ok (node', [.syncResponse responseChan (some p)]) ∧
      Moves OT.into p store.1 node node' (node.outRank p store.1) 1 true := by
  obtain ⟨handler, ht, hid, hask, hout, hin, hknows⟩ := hco.ranks (p := p) h
  obtain ⟨s, hs, hsent, hmoves⟩ := handleStore_syncWithPeer OT env handler.listeners
    (hin ▸ hzero) responseChan
  obtain ⟨node', sent, htell, hsent', hmoves, -⟩ := hco.tell h ht hs hmoves
  rw [hsent] at hsent'
  rw [← List.append_cancel_left hsent'] at htell
  exact ⟨node', htell, hout ▸ hmoves⟩

/-- **The task registers** that syncs with the peer. -/
theorem Coherent.registerOutgoing (hco : node.Coherent OT.into) (env : Environment)
    (h : node.Has store) (hone : node.outRank p store.1 = 1) : ∃ node' sent,
      node.tell OT env store.2 (.registerOutgoingPeerSyncing p) = .ok (node', sent) ∧
      Moves OT.into p store.1 node node' 2 (node.inRank p store.1) (node.knows p store.1) ∧
      syncRequested p sent = [] := by
  obtain ⟨handler, ht, hid, hask, hout, hin, hknows⟩ := hco.ranks (p := p) h
  obtain ⟨s, hs, -, hmoves⟩ := handleStore_registerOutgoing OT env handler.listeners
    (hout ▸ hone) hask
  obtain ⟨node', sent, htell, -, hmoves, hids⟩ := hco.tell h ht hs hmoves
  exact ⟨node', sent, htell, hin ▸ hknows ▸ hmoves, hids⟩

/-- **The task registers** that lets the peer sync. -/
theorem Coherent.registerIncoming (hco : node.Coherent OT.into) (env : Environment)
    (h : node.Has store) (hone : node.inRank p store.1 = 1) : ∃ node' sent,
      node.tell OT env store.2 (.registerIncomingPeerSyncing p) = .ok (node', sent) ∧
      Moves OT.into p store.1 node node' (node.outRank p store.1) 2 (node.knows p store.1) ∧
      syncRequested p sent = [] := by
  obtain ⟨handler, ht, hid, hask, hout, hin, hknows⟩ := hco.ranks (p := p) h
  obtain ⟨s, hs, hmoves⟩ := handleStore_registerIncoming OT env handler.listeners
    (hin ▸ hone)
  obtain ⟨node', sent, htell, -, hmoves, hids⟩ := hco.tell h ht hs hmoves
  exact ⟨node', sent, htell, hout ▸ hknows ▸ hmoves, hids⟩

end Tell

end Node

end Ossa.Manager
