import Ossa.Store

/-!
The handler that owns a store: what it does with each command.

`run_handler` of `store/mod.rs` takes one command after the other; the answers of peers are
among the commands. A fault stops the handler.
-/

namespace Ossa.Store

open Ossa.Loop Ossa.Util Ossa.Collections Ossa.Ecg Ossa.Crdt

variable {StoreId H HeaderId Header Body T Op : Type} [LinearOrder HeaderId]

namespace State

variable (OT : OssaType StoreId H HeaderId Body T Op) (s : State StoreId H HeaderId Header T)

/-! ### Waiting peers -/

/-- Send metadata to any peers that are waiting. -/
def notifyMetadataSubscribers (peer : DeviceId) (metadata : MetadataHeader H) :
    State StoreId H HeaderId Header T :=
  { s with
    metadataSubscribers := ∅
    sent := s.sent ++ s.metadataSubscribers.toList.map fun sub =>
      .notice sub.2 (if sub.1 = peer then none else some (.metadata metadata)) }

/-- The message for one peer that waits for nodes of the merkle tree. -/
def merkleNotice (peer : DeviceId) (merkleTree : MerkleTree H)
    (sub : DeviceId × List Range × Chan) : Exec (Sent StoreId H HeaderId Header T) :=
  if sub.1 = peer then .ok (.notice sub.2.2 none)
  else do
    let hashes ← handleMerklePeerRequestHelper merkleTree sub.2.1
    pure (.notice sub.2.2 (some (.hashes hashes)))

/-- Send node hashes to any peers that are waiting. -/
def notifyMerkleSubscribers (peer : DeviceId) (merkleTree : MerkleTree H) :
    Exec (State StoreId H HeaderId Header T) := do
  let notices ← s.merkleSubscribers.toList.mapM (merkleNotice peer merkleTree)
  pure { s with merkleSubscribers := ∅, sent := s.sent ++ notices }

/-- The message for one peer that waits for blocks. -/
def blockNotice (sm : StateMachine StoreId H HeaderId Header T)
    (sub : DeviceId × List Range × Chan) : Exec (Sent StoreId H HeaderId Header T) := do
  let blocks ← handleBlockPeerRequestHelper sm sub.2.1
  let blocks ← orFault (.expect "Unreachable: We just set our state to syncing") blocks
  pure (.notice sub.2.2 (some (.blocks blocks)))

/-- Send blocks to any peers that are waiting. -/
def notifyBlockSubscribers : Exec (State StoreId H HeaderId Header T) := do
  let notices ← s.blockSubscribers.toList.mapM (blockNotice s.stateMachine)
  pure { s with blockSubscribers := ∅, sent := s.sent ++ notices }

/-- Send the state to one subscriber, or keep the subscriber if it told us about the update. -/
def updateSubscriber (ecgState : UntypedState HeaderId Header) (fromPeer : Option DeviceId)
    (s : State StoreId H HeaderId Header T) (sub : DeviceId × Chan) :
    State StoreId H HeaderId Header T :=
  if some sub.1 ≠ fromPeer then s.send (.ecg sub.2 ecgState)
  else { s with ecgSubscribers := s.ecgSubscribers.insert sub.1 sub.2 }

def updateListeners (listeners : List Chan) (latestState : T)
    (ecgState : UntypedState HeaderId Header) (fromPeer : Option DeviceId) :
    State StoreId H HeaderId Header T :=
  let updates := listeners.map fun l => .stateUpdate l (.snapshot latestState ecgState)
  s.ecgSubscribers.toList.foldl (updateSubscriber ecgState fromPeer)
    { s with ecgSubscribers := ∅, sent := s.sent ++ updates }

/-! ### From phase to phase -/

def updateStateToSyncing (peer : DeviceId) (listeners : List Chan) :
    Exec (State StoreId H HeaderId Header T) :=
  match s.stateMachine with
  | .downloadingInitialState metadata merkleTree blocks => do
    let initialState := (blocks.filterMap id).flatten
    let latestState ← orFault (.todo "TODO: The store is invalid. Initial state does not parse.")
      (OT.fromSlice initialState)
    let s := { s with
      stateMachine := .syncing metadata merkleTree initialState .new latestState }
    (s.updateListeners listeners latestState .new (some peer)).notifyBlockSubscribers
  | _ => .error (.unreachable "We already checked that we're downloading the initial state")

/-- Precondition: the phase is `downloadingMerkle`. -/
def updateStateToDownloadingInitialState (peer : DeviceId) (listeners : List Chan) :
    Exec (State StoreId H HeaderId Header T) :=
  match s.stateMachine with
  | .downloadingMerkle metadata partialMerkleTree =>
    -- Check if we're done.
    match partialMerkleTree.tryComplete with
    | none => .ok s
    | some merkleTree => do
      let s := { s with
        stateMachine := .downloadingInitialState metadata merkleTree
          (List.replicate metadata.blockCount none) }
      let s ← s.notifyMerkleSubscribers peer merkleTree
      -- If there's no initial state, we already know all the blocks so move onto syncing.
      if metadata.initialStateSize = 0 then s.updateStateToSyncing OT peer listeners
      else pure s
  | _ => .error
    (.panic "Precondition violated. State mush be StateMachine::DownloadingMerkle")

/-! ### Answers of peers -/

section Received

variable [Hash H] [DecidableEq H] [DecidableEq StoreId]

omit [DecidableEq H] in
def handleReceivedMetadata (peer : DeviceId) (metadata : MetadataHeader H)
    (listeners : List Chan) : Exec (State StoreId H HeaderId Header T) := do
  -- Mark peer as ready.
  let s ← s.updateOutgoingPeerToReady peer
  if !metadata.validateStoreId OT.into (s.stateMachine.storeId OT.into) then pure s
  else do
    let tree ← MerkleTree.newWithCapacity metadata.merkleRoot metadata.blockCount
    let s := { s with stateMachine := .downloadingMerkle metadata tree }
    let s := s.notifyMetadataSubscribers peer metadata
    -- If there's only one block, we already know the entire merkle tree.
    if metadata.blockCount ≤ 1 then s.updateStateToDownloadingInitialState OT peer listeners
    else pure s

omit [DecidableEq StoreId] in
def handleReceivedMerkleHashes (peer : DeviceId) (nodeIds : List Range)
    (theirNodeHashes : List H) (listeners : List Chan) :
    Exec (State StoreId H HeaderId Header T) := do
  -- Mark peer as ready.
  let s ← s.updateOutgoingPeerToReady peer
  let nodeIds := flattenRanges nodeIds
  if nodeIds.length ≠ theirNodeHashes.length then pure s
  else
    match s.stateMachine with
    | .downloadingMerkle metadata tree => do
      let tree ← tree.setAll (nodeIds.zip theirNodeHashes)
      let s := { s with stateMachine := .downloadingMerkle metadata tree }
      s.updateStateToDownloadingInitialState OT peer listeners
    -- We're not downloading anymore so we're done.
    | _ => pure s

omit [DecidableEq StoreId] in
/-- Only set block if it's currently missing and if it validates. -/
def setBlock (merkleTree : MerkleTree H) (blocks : List (Option (List UInt8)))
    (b : ℕ × Option (List UInt8)) : Exec (List (Option (List UInt8))) :=
  match b.2 with
  | none => .ok blocks
  | some theirBlock => do
    let block ← index blocks b.1
    if block.isNone then do
      if ← merkleTree.validateChunk b.1 theirBlock then assign blocks b.1 (some theirBlock)
      else pure blocks
    else pure blocks

omit [DecidableEq StoreId] in
def handleReceivedInitialStateBlocks (peer : DeviceId) (blockIds : List Range)
    (theirBlocks : List (Option (List UInt8))) (listeners : List Chan) :
    Exec (State StoreId H HeaderId Header T) := do
  -- Mark peer as ready.
  let s ← s.updateOutgoingPeerToReady peer
  let blockIds := flattenRanges blockIds
  if blockIds.length ≠ theirBlocks.length then pure s
  else
    match s.stateMachine with
    | .downloadingInitialState metadata merkleTree blocks => do
      let blocks ← (blockIds.zip theirBlocks).foldlM (setBlock merkleTree) blocks
      let s := { s with stateMachine := .downloadingInitialState metadata merkleTree blocks }
      -- Check if we're done. Exit if we're not.
      if blocks.any Option.isNone then pure s else s.updateStateToSyncing OT peer listeners
    | _ => pure s

end Received

section Operations

variable [ECGHeader Header HeaderId] [CRDT T Op (OperationId HeaderId)]

def applyOperations (latestState : T) (ecgState : UntypedState HeaderId Header)
    (operationHeader : Header) (operationBody : Body) : Exec T :=
  (OT.operations operationBody (getHeaderId operationHeader)).foldlM
    (CRDT.apply (toCausalState ecgState)) latestState

/-- Parse and apply the operations of one header. -/
def receiveOperation (w : UntypedState HeaderId Header × T) (o : Header × RawECGBody) :
    Exec (UntypedState HeaderId Header × T) := do
  let operations ← orFault (.expect "TODO: Peer gave us improperly serialized operations")
    (OT.bodyFromSlice o.2)
  let (ecgState, success) := w.1.insertHeader o.1 o.2
  if success then do
    let latestState ← applyOperations OT w.2 ecgState o.1 operations
    pure (ecgState, latestState)
  else pure (ecgState, w.2)

def handleReceivedECGOperations (peer : DeviceId) (operations : List (Header × RawECGBody))
    (listeners : List Chan) : Exec (State StoreId H HeaderId Header T) := do
  -- Mark peer as ready.
  let s ← s.updateOutgoingPeerToReady peer
  match s.stateMachine with
  | .syncing metadata merkleTree initialState ecgState latestState => do
    let (ecgState, latestState) ←
      operations.foldlM (receiveOperation OT) (ecgState, latestState)
    let s := { s with
      stateMachine := .syncing metadata merkleTree initialState ecgState latestState }
    -- Update listeners (except peer).
    pure (s.updateListeners listeners latestState ecgState (some peer))
  | _ => .error (.unreachable "We must be syncing")

/-- `StoreCommand::Apply`. -/
def apply (operationHeader : Header) (operationBody : Body) (listeners : List Chan) :
    Exec (State StoreId H HeaderId Header T) :=
  match s.stateMachine with
  | .syncing metadata merkleTree initialState ecgState latestState => do
    let (ecgState, success) :=
      ecgState.insertHeader operationHeader (OT.bodyToVec operationBody)
    if success then do
      let latestState ← applyOperations OT latestState ecgState operationHeader operationBody
      let s := { s with
        stateMachine := .syncing metadata merkleTree initialState ecgState latestState }
      pure (s.updateListeners listeners latestState ecgState none)
    else .error (.todo "Invalid header")
  | _ => .ok s

end Operations

/-- What a new listener is told first. -/
def snapshot : StateMachine StoreId H HeaderId Header T → StateUpdate HeaderId Header T
  | .downloadingMetadata _ => .downloading 0
  | .downloadingMerkle _ _ => .downloading 0
  | .downloadingInitialState metadata _ blocks =>
    .downloading (if metadata.initialStateSize = 0 then 0
      else 100 * (blocks.countP Option.isSome) * BLOCK_SIZE / metadata.initialStateSize.toNat)
  | .syncing _ _ _ ecgState latestState => .snapshot latestState ecgState

/-- Answer a peer that asks to sync this store, with the task that syncs with it or a refusal. -/
def syncWithPeer (peer : DeviceId) (responseChan : Chan) :
    Exec (State StoreId H HeaderId Header T) := do
  let s := s.insertKnownPeer peer
  let status ← orFault (.unreachable "Don't know this peer.") s.peers[peer]?
  if status.incomingStatus.isKnown then do
    let s ← s.updatePeerToInitializing peer PeerInfo.incoming
    pure (s.send (.syncResponse responseChan (some peer)))
  else pure (s.send (.syncResponse responseChan none))

end State

/-! ### The commands -/

inductive Command (H HeaderId Header Body : Type) [LinearOrder HeaderId]
  | apply (operationHeader : Header) (operationBody : Body)
  | subscribeState (sendState : Chan)
  | registerPeers (peers : List DeviceId)
  | syncWithPeer (peer : DeviceId) (responseChan : Chan)
  | registerOutgoingPeerSyncing (peer : DeviceId)
  | registerIncomingPeerSyncing (peer : DeviceId)
  | handleMetadataPeerRequest (peer : DeviceId) (responseChan : Chan)
  | handleMerklePeerRequest (peer : DeviceId) (request : List Range) (responseChan : Chan)
  | handleBlockPeerRequest (peer : DeviceId) (request : List Range) (responseChan : Chan)
  | receivedMetadata (peer : DeviceId) (metadata : MetadataHeader H)
  | receivedMerkleHashes (peer : DeviceId) (ranges : List Range) (nodes : List H)
  | receivedInitialStateBlocks (peer : DeviceId) (ranges : List Range)
    (blocks : List (Option (List UInt8)))
  | receivedECGOperations (peer : DeviceId) (operations : List (Header × RawECGBody))
  | subscribeECG (peer : DeviceId) (tips : Option (BTreeSet HeaderId)) (responseChan : Chan)

/-- What the handler finds outside: random orders, the peers with a connection, and the receivers
that have not been dropped. -/
structure Environment where
  rng : Rng
  connected : DeviceId → Bool
  alive : Receiver → Bool

def Environment.allAlive (env : Environment) : Environment := { env with alive := fun _ => true }

/-- The variables of `run_handler`. -/
structure Handler (StoreId H HeaderId Header T : Type) [LinearOrder HeaderId] where
  store : State StoreId H HeaderId Header T
  listeners : List Chan

namespace Handler

variable [Hash H] [DecidableEq H] [DecidableEq StoreId]
variable [ECGHeader Header HeaderId] [CRDT T Op (OperationId HeaderId)]
variable (OT : OssaType StoreId H HeaderId Body T Op)

/-- The store after a command that leaves the listeners alone. -/
def handleStore (env : Environment) (listeners : List Chan)
    (s : State StoreId H HeaderId Header T) :
    Command H HeaderId Header Body → Exec (State StoreId H HeaderId Header T)
  | .apply header body => s.apply OT header body listeners
  | .subscribeState sendState => .ok (s.send (.stateUpdate sendState (State.snapshot s.stateMachine)))
  | .registerPeers peers => (peers.foldl State.insertKnownPeer s).managePeers OT.into env.connected
  | .syncWithPeer peer chan => s.syncWithPeer peer chan
  | .registerOutgoingPeerSyncing peer => do
    let s ← s.updatePeerToSyncing peer PeerInfo.outgoing ⟨false⟩
    s.sendSyncRequests env.rng
  | .registerIncomingPeerSyncing peer => s.updatePeerToSyncing peer PeerInfo.incoming ()
  | .handleMetadataPeerRequest peer chan => .ok (s.handleMetadataPeerRequest peer chan)
  | .handleMerklePeerRequest peer request chan => s.handleMerklePeerRequest peer request chan
  | .handleBlockPeerRequest peer request chan => s.handleBlockPeerRequest peer request chan
  | .receivedMetadata peer metadata => do
    let s ← s.handleReceivedMetadata OT peer metadata listeners
    s.sendSyncRequests env.rng
  | .receivedMerkleHashes peer ranges nodes => do
    let s ← s.handleReceivedMerkleHashes OT peer ranges nodes listeners
    s.sendSyncRequests env.rng
  | .receivedInitialStateBlocks peer ranges blocks => do
    let s ← s.handleReceivedInitialStateBlocks OT peer ranges blocks listeners
    s.sendSyncRequests env.rng
  | .receivedECGOperations peer operations => do
    let s ← s.handleReceivedECGOperations OT peer operations listeners
    s.sendSyncRequests env.rng
  | .subscribeECG peer tips chan => .ok (s.handleEcgSubscribe peer tips chan)

/-- The listeners after a command. -/
def handleListeners (listeners : List Chan) : Command H HeaderId Header Body → List Chan
  | .subscribeState sendState => listeners ++ [sendState]
  | _ => listeners

/-- Every message is sent with `expect("TODO")`. -/
def expectReceivers (env : Environment) (messages : List (Sent StoreId H HeaderId Header T)) :
    Exec Unit :=
  if messages.all fun m => env.alive m.receiver then .ok () else .error (.expect "TODO")

def handle (h : Handler StoreId H HeaderId Header T) (env : Environment)
    (cmd : Command H HeaderId Header Body) : Exec (Handler StoreId H HeaderId Header T) := do
  let store ← handleStore OT env h.listeners h.store cmd
  expectReceivers env (store.sent.drop h.store.sent.length)
  pure ⟨store, handleListeners h.listeners cmd⟩

/-- The handler after the commands of a list. -/
def run (h : Handler StoreId H HeaderId Header T)
    (cmds : List (Environment × Command H HeaderId Header Body)) :
    Exec (Handler StoreId H HeaderId Header T) :=
  cmds.foldlM (fun h cmd => h.handle OT cmd.1 cmd.2) h

variable {OT} {h h' : Handler StoreId H HeaderId Header T} {env : Environment}
  {cmd : Command H HeaderId Header Body} {s : State StoreId H HeaderId Header T}

lemma handleStore_of_handle (hh : h.handle OT env cmd = .ok h') :
    handleStore OT env h.listeners h.store cmd = .ok h'.store ∧
      h'.listeners = handleListeners h.listeners cmd := by
  obtain ⟨store, hstore, hh⟩ := bind_eq_ok.mp hh
  obtain ⟨-, -, heq⟩ := bind_eq_ok.mp hh
  cases heq
  exact ⟨hstore, rfl⟩

lemma handle_of_handleStore (hs : handleStore OT env h.listeners h.store cmd = .ok s)
    (ha : ∀ m ∈ s.sent.drop h.store.sent.length, env.alive m.receiver = true) :
    h.handle OT env cmd = .ok ⟨s, handleListeners h.listeners cmd⟩ := by
  have hall : expectReceivers env (s.sent.drop h.store.sent.length) = .ok () :=
    if_pos (List.all_eq_true.mpr ha)
  exact bind_eq_ok.mpr ⟨s, hs, bind_eq_ok.mpr ⟨(), hall, rfl⟩⟩

lemma handle_of_gone (hs : handleStore OT env h.listeners h.store cmd = .ok s)
    (hg : ∃ m ∈ s.sent.drop h.store.sent.length, env.alive m.receiver = false) :
    h.handle OT env cmd = .error (.expect "TODO") := by
  have hall : expectReceivers env (s.sent.drop h.store.sent.length) = .error (.expect "TODO") := by
    obtain ⟨m, hm, hgone⟩ := hg
    refine if_neg fun hall => ?_
    rw [List.all_eq_true.mp hall m hm] at hgone
    cases hgone
  rw [handle, hs, ok_bind, hall]
  rfl

lemma handleStore_allAlive {listeners : List Chan} :
    handleStore OT env.allAlive listeners s cmd = handleStore OT env listeners s cmd := by
  cases cmd <;> rfl

lemma handle_allAlive (hs : handleStore OT env h.listeners h.store cmd = .ok s) :
    h.handle OT env.allAlive cmd = .ok ⟨s, handleListeners h.listeners cmd⟩ :=
  handle_of_handleStore (handleStore_allAlive.trans hs) fun _ _ => rfl

lemma handle_of_error {e : Fault} (hs : handleStore OT env h.listeners h.store cmd = .error e) :
    h.handle OT env cmd = .error e := by
  rw [handle, hs]
  rfl

end Handler

end Ossa.Store
