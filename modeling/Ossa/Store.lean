import Ossa.Causal
import Ossa.MerklePartial
import Ossa.Metadata

/-!
The state of a store, as `store/mod.rs` keeps it: the phase it is in, what it knows of its
peers, and who waits for what.

A store writes to channels: the wait channels of its peers' requests, the queues of the tasks
that talk to peers, the listeners of its application. What was sent is kept, oldest first, and
whether there is somebody to receive it is checked once a command is handled. A wait channel goes
by the name of the response channel of its request, and the queue of a task by its peer.
-/

namespace Ossa.Store

open Ossa.Loop Ossa.Util Ossa.Collections Ossa.Ecg Ossa.Crdt

/-- A device, by its key. -/
abbrev DeviceId := ℕ

abbrev Chan := ℕ

/-- What the types of a store bring along: the id of a hash, the encodings of the state and of
the bodies, and the operations of a body. -/
structure OssaType (StoreId H HeaderId Body T Op : Type) where
  into : H → StoreId
  toVec : T → List UInt8
  fromSlice : List UInt8 → Option T
  bodyToVec : Body → RawECGBody
  bodyFromSlice : RawECGBody → Option Body
  operations : Body → HeaderId → List Op

section Types

variable (StoreId H HeaderId Header T : Type) [LinearOrder HeaderId]

inductive StateMachine
  | downloadingMetadata (storeId : StoreId)
  /-- Invariant: At least one node of the tree is missing. -/
  | downloadingMerkle (metadata : MetadataHeader H)
    (partialMerkleTree : MerkleTree (Potential H))
  /-- Invariant: At least one block is missing. -/
  | downloadingInitialState (metadata : MetadataHeader H) (merkleTree : MerkleTree H)
    (initialState : List (Option (List UInt8)))
  | syncing (metadata : MetadataHeader H) (merkleTree : MerkleTree H)
    (initialState : List UInt8) (ecgState : UntypedState HeaderId Header) (latestState : T)

inductive PeerStatus (A : Type)
  | known
  | initializing
  | syncing (a : A)
  deriving DecidableEq

structure OutgoingPeerStatus where
  /-- Whether we have an outgoing peer request that is outstanding. -/
  isOutstanding : Bool
  deriving DecidableEq

structure PeerInfo where
  incomingStatus : PeerStatus Unit
  outgoingStatus : PeerStatus OutgoingPeerStatus
  deriving DecidableEq

/-- What the task of a peer is asked to request. -/
inductive StoreSyncCommand
  | metadataHeaderRequest
  | merkleRequest (ranges : List Range)
  | initialStateBlockRequest (ranges : List Range)
  | ecgSyncRequest (ecgState : UntypedState HeaderId Header)

/-- The answer to a peer's request. -/
inductive Reply
  | metadata (metadata : MetadataHeader H)
  | hashes (hashes : List H)
  | blocks (blocks : List (Option (List UInt8)))

inductive StateUpdate
  | downloading (percent : ℕ)
  | snapshot (snapshot : T) (ecgState : UntypedState HeaderId Header)

/-- What a store sends. A `response` without a reply hands out the wait channel, on which the
`notice` follows; a notice without a reply is a refusal. -/
inductive Sent
  | response (chan : Chan) (reply : Option (Reply H))
  | notice (chan : Chan) (reply : Option (Reply H))
  | ecg (chan : Chan) (state : UntypedState HeaderId Header)
  | command (peer : DeviceId) (message : StoreSyncCommand HeaderId Header)
  | stateUpdate (listener : Chan) (update : StateUpdate HeaderId Header T)
  | requestStoreSync (peer : DeviceId) (storeId : StoreId)
  | syncResponse (chan : Chan) (spawnTask : Option DeviceId)

/-- Where a message goes. -/
inductive Receiver
  | response (chan : Chan)
  | waiting (chan : Chan)
  | ecg (chan : Chan)
  | listener (chan : Chan)
  | task (peer : DeviceId)
  | manager (peer : DeviceId)

structure State where
  peers : BTreeMap DeviceId PeerInfo
  stateMachine : StateMachine StoreId H HeaderId Header T
  metadataSubscribers : BTreeMap DeviceId Chan
  merkleSubscribers : BTreeMap DeviceId (List Range × Chan)
  blockSubscribers : BTreeMap DeviceId (List Range × Chan)
  ecgSubscribers : BTreeMap DeviceId Chan
  sent : List (Sent StoreId H HeaderId Header T)

end Types

def Sent.receiver {StoreId H HeaderId Header T : Type} [LinearOrder HeaderId] :
    Sent StoreId H HeaderId Header T → Receiver
  | response chan _ => .response chan
  | notice chan _ => .waiting chan
  | ecg chan _ => .ecg chan
  | command peer _ => .task peer
  | stateUpdate listener _ => .listener listener
  | requestStoreSync peer _ => .manager peer
  | syncResponse chan _ => .response chan

/-- The two random orders of `send_sync_requests`. -/
structure Rng where
  shufflePeers : List DeviceId → List DeviceId
  shuffleChunks : List (List ℕ) → List (List ℕ)
  perm_peers (l : List DeviceId) : (shufflePeers l).Perm l
  perm_chunks (l : List (List ℕ)) : (shuffleChunks l).Perm l

namespace PeerStatus

variable {A : Type}

def isKnown : PeerStatus A → Bool
  | known => true
  | _ => false

def isInitializing : PeerStatus A → Bool
  | initializing => true
  | _ => false

end PeerStatus

namespace PeerInfo

/-- Checks if the peer is ready for a sync request: it is syncing and has no outstanding
request. -/
def isReadyForSync (info : PeerInfo) : Bool :=
  match info.outgoingStatus with
  | .syncing s => !s.isOutstanding
  | _ => false

/-- One of the two directions in which a peer syncs. -/
structure Direction (A : Type) where
  get : PeerInfo → PeerStatus A
  set : PeerInfo → PeerStatus A → PeerInfo

def incoming : Direction Unit where
  get info := info.incomingStatus
  set info status := { info with incomingStatus := status }

def outgoing : Direction OutgoingPeerStatus where
  get info := info.outgoingStatus
  set info status := { info with outgoingStatus := status }

end PeerInfo

variable {StoreId H HeaderId Header Body T Op : Type} [LinearOrder HeaderId]

namespace StateMachine

variable (sm : StateMachine StoreId H HeaderId Header T)

def metadata : StateMachine StoreId H HeaderId Header T → Option (MetadataHeader H)
  | downloadingMetadata _ => none
  | downloadingMerkle metadata _ => some metadata
  | downloadingInitialState metadata _ _ => some metadata
  | syncing metadata _ _ _ _ => some metadata

/-- We shouldn't share hashes until we've verified them. -/
def merkleTree : StateMachine StoreId H HeaderId Header T → Option (MerkleTree H)
  | downloadingMetadata _ => none
  | downloadingMerkle _ _ => none
  | downloadingInitialState _ merkleTree _ => some merkleTree
  | syncing _ merkleTree _ _ _ => some merkleTree

def storeId [Hash H] (into : H → StoreId) : StateMachine StoreId H HeaderId Header T → StoreId
  | downloadingMetadata storeId => storeId
  | downloadingMerkle metadata _ => metadata.storeId into
  | downloadingInitialState metadata _ _ => metadata.storeId into
  | syncing metadata _ _ _ _ => metadata.storeId into

end StateMachine

namespace State

/-- A store in its first phase, or created with all its data. -/
def ofStateMachine (sm : StateMachine StoreId H HeaderId Header T) :
    State StoreId H HeaderId Header T where
  peers := ∅
  stateMachine := sm
  metadataSubscribers := ∅
  merkleSubscribers := ∅
  blockSubscribers := ∅
  ecgSubscribers := ∅
  sent := []

/-- Create a new store with the given store id that is downloading the store's header. -/
def newDownloading (storeId : StoreId) : State StoreId H HeaderId Header T :=
  ofStateMachine (.downloadingMetadata storeId)

/-- Initialize a new store with the given state. -/
def newSyncing [Hash H] (OT : OssaType StoreId H HeaderId Body T Op) (nonce : Nonce)
    (storeType : TypeId) (initialState : T) : Exec (State StoreId H HeaderId Header T) := do
  let body ← MetadataBody.new (H := H) (OT.toVec initialState)
  let metadata ← MetadataHeader.generate nonce storeType body
  pure (ofStateMachine
    (.syncing metadata body.merkleTree body.initialState .new initialState))

variable (s : State StoreId H HeaderId Header T)

def send (m : Sent StoreId H HeaderId Header T) : State StoreId H HeaderId Header T :=
  { s with sent := s.sent ++ [m] }

/-! ### Peers -/

/-- Insert a peer as known if its status isn't already tracked by the store. -/
def insertKnownPeer (peer : DeviceId) : State StoreId H HeaderId Header T :=
  if s.peers.contains peer then s
  else { s with peers := s.peers.insert peer ⟨.known, .known⟩ }

def updatePeerToInitializing {A : Type} (peer : DeviceId) (d : PeerInfo.Direction A) :
    Exec (State StoreId H HeaderId Header T) :=
  match s.peers[peer]? with
  | none => .error (.panic "explicit panic")
  | some info =>
    match d.get info with
    | .known => .ok { s with peers := s.peers.insert peer (d.set info .initializing) }
    | _ => .error (.panic "explicit panic")

def updatePeerToSyncing {A : Type} (peer : DeviceId) (d : PeerInfo.Direction A) (a : A) :
    Exec (State StoreId H HeaderId Header T) :=
  match s.peers[peer]? with
  | none => .error (.panic "explicit panic")
  | some info =>
    match d.get info with
    | .initializing => .ok { s with peers := s.peers.insert peer (d.set info (.syncing a)) }
    | _ => .error (.panic "explicit panic")

def updateOutgoingPeerToReady (peer : DeviceId) : Exec (State StoreId H HeaderId Header T) :=
  match s.peers[peer]? with
  | none => .error (.panic "explicit panic")
  | some info =>
    match info.outgoingStatus with
    | .syncing _ =>
      .ok { s with peers := s.peers.insert peer { info with outgoingStatus := .syncing ⟨false⟩ } }
    | _ => .error (.panic "explicit panic")

/-- Spawn the tasks that sync with the connected peers we are not syncing with yet. -/
def managePeers [Hash H] (into : H → StoreId) (connected : DeviceId → Bool) :
    Exec (State StoreId H HeaderId Header T) :=
  let peers := (s.peers.toList.filter fun p => p.2.outgoingStatus.isKnown).map Prod.fst
  (peers.filter connected).foldlM (fun s peer => do
    let s ← s.updatePeerToInitializing peer PeerInfo.outgoing
    pure (s.send (.requestStoreSync peer (s.stateMachine.storeId into)))) s

/-! ### Requests to peers -/

/-- Mark the peer's request as outstanding and send it. -/
def sendCommand (peer : DeviceId) (message : StoreSyncCommand HeaderId Header) :
    Exec (State StoreId H HeaderId Header T) :=
  match s.peers[peer]? with
  | some ⟨incomingStatus, .syncing _⟩ =>
    let peers := s.peers.insert peer ⟨incomingStatus, .syncing ⟨true⟩⟩
    .ok ({ s with peers }.send (.command peer message))
  | _ => .error (.unreachable "Already checked that the peer is ready.")

/-- The peers (of this store) without outstanding requests. -/
def readyPeers : List DeviceId := (s.peers.toList.filter fun p => p.2.isReadyForSync).map Prod.fst

/-- The positions of the blocks that are missing. -/
def missingBlocks (blocks : List (Option (List UInt8))) : List ℕ :=
  blocks.zipIdx.filterMap fun h => if h.1.isNone then some h.2 else none

/-- What to request from which peer, based on what we need. -/
def syncRequests (rng : Rng) : Exec (List (DeviceId × StoreSyncCommand HeaderId Header)) :=
  let peers := rng.shufflePeers s.readyPeers
  match s.stateMachine with
  | .downloadingMetadata _ => .ok ((peers.take 1).map fun p => (p, .metadataHeaderRequest))
  | .downloadingMerkle _ partialMerkleTree =>
    let neededHashes := chunks MERKLE_REQUEST_LIMIT partialMerkleTree.missingIndices
    if neededHashes.isEmpty then .error (.panic ("Invariant violated: We have all merkle nodes " ++
      "but are in state DownloadingMerkle."))
    else .ok (peers.zip ((rng.shuffleChunks neededHashes).map fun hashes =>
      .merkleRequest (compressConsecutiveIntoRanges hashes)))
  | .downloadingInitialState _ _ initialState =>
    let neededBlocks := chunks BLOCK_REQUEST_LIMIT (missingBlocks initialState)
    if neededBlocks.isEmpty then .error (.panic ("Invariant violated: We have all blocks but are " ++
      "in state DownloadingInitialState."))
    else .ok (peers.zip ((rng.shuffleChunks neededBlocks).map fun blocks =>
      .initialStateBlockRequest (compressConsecutiveIntoRanges blocks)))
  | .syncing _ _ _ ecgState _ => .ok (peers.map fun p => (p, .ecgSyncRequest ecgState))

/-- Send sync requests to peers. -/
def sendSyncRequests (rng : Rng) : Exec (State StoreId H HeaderId Header T) := do
  let requests ← s.syncRequests rng
  requests.foldlM (fun s r => s.sendCommand r.1 r.2) s

/-! ### Requests of peers -/

def handleMetadataPeerRequest (peer : DeviceId) (responseChan : Chan) :
    State StoreId H HeaderId Header T :=
  match s.stateMachine.metadata with
  | some metadata => s.send (.response responseChan (some (.metadata metadata)))
  | none =>
    { s.send (.response responseChan none) with
      metadataSubscribers := s.metadataSubscribers.insert peer responseChan }

def handleMerklePeerRequestHelper (merkleTree : MerkleTree H) (nodeIds : List Range) :
    Exec (List H) :=
  (flattenRanges nodeIds).mapM fun i =>
    orFault (.expect "TODO: Properly handle invalid requests") (merkleTree.get i)

def handleMerklePeerRequest (peer : DeviceId) (nodeIds : List Range) (responseChan : Chan) :
    Exec (State StoreId H HeaderId Header T) :=
  match s.stateMachine.merkleTree with
  | some merkleTree => do
    let nodeHashes ← handleMerklePeerRequestHelper merkleTree nodeIds
    pure (s.send (.response responseChan (some (.hashes nodeHashes))))
  | none =>
    .ok { s.send (.response responseChan none) with
      merkleSubscribers := s.merkleSubscribers.insert peer (nodeIds, responseChan) }

def handlePeerRequestRangeHelper {α : Type} (slice : List α) (ids : List Range) :
    Exec (List α) :=
  (flattenRanges ids).mapM fun i =>
    orFault (.expect "TODO: Properly handle invalid requests") slice[i]?

/-- The block at position `i` of the whole initial state. An index so large that a product
overflows is past the end of every state, so it is a fault here as well. -/
def sliceBlock (initialState : List UInt8) (i : ℕ) : Exec (Option (List UInt8)) :=
  let start := i * BLOCK_SIZE
  let stop := min ((i + 1) * BLOCK_SIZE) initialState.length
  if start ≤ stop then .ok (some ((initialState.take stop).drop start))
  else .error .outOfBounds

def handleBlockPeerRequestHelper (sm : StateMachine StoreId H HeaderId Header T)
    (blockIds : List Range) : Exec (Option (List (Option (List UInt8)))) :=
  match sm with
  | .downloadingMetadata _ => .ok none
  | .downloadingMerkle _ _ => .ok none
  | .downloadingInitialState _ _ initialState => do
    let blocks ← handlePeerRequestRangeHelper initialState blockIds
    pure (some blocks)
  | .syncing _ _ initialState _ _ => do
    let blocks ← (flattenRanges blockIds).mapM (sliceBlock initialState)
    pure (some blocks)

def handleBlockPeerRequest (peer : DeviceId) (blockIds : List Range) (responseChan : Chan) :
    Exec (State StoreId H HeaderId Header T) := do
  match ← handleBlockPeerRequestHelper s.stateMachine blockIds with
  | some blocks => pure (s.send (.response responseChan (some (.blocks blocks))))
  | none =>
    pure { s.send (.response responseChan none) with
      blockSubscribers := s.blockSubscribers.insert peer (blockIds, responseChan) }

/-- Whether the peer thread is stale, or requested the state immediately with `none`. -/
def respondImmediately (ecgState : UntypedState HeaderId Header) :
    Option (BTreeSet HeaderId) → Bool
  | some tips => !decide (ecgState.tips.toList = tips.toList)
  | none => true

def handleEcgSubscribe (peer : DeviceId) (tips : Option (BTreeSet HeaderId))
    (responseChan : Chan) : State StoreId H HeaderId Header T :=
  let registered := { s with ecgSubscribers := s.ecgSubscribers.insert peer responseChan }
  match s.stateMachine with
  | .syncing _ _ _ ecgState _ =>
    if respondImmediately ecgState tips then s.send (.ecg responseChan ecgState) else registered
  | _ => registered

end State

end Ossa.Store
