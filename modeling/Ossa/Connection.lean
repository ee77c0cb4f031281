import Ossa.ManagerStreams
import Ossa.StoreStatuses

/-!
The connection of two nodes: how they find the stores they share, and set up a stream for each of
them in both directions.

On each side two managers run: one has the initiative and asks, the other answers the manager of
the peer that has it. Stores, managers and the tasks of streams run on their own, so the commands
for stores are handled in any order, and so are the frames of different streams. A frame that was
sent is in the inbox of its stream until it is consumed; the multiplexer drops none, but stops at
one whose stream it does not know.
-/

namespace Ossa.Manager

/-- `TryInto<MsgManagerCreateStoreResponse>`. -/
def MsgManager.toCreateStoreResponse {StoreId H : Type} :
    MsgManager StoreId H → Option MsgManagerCreateStoreResponse
  | request _ => none
  | advertiseStoresResponse _ => none
  | createStoreResponse r => some r

end Ossa.Manager

deriving instance DecidableEq for Ossa.Network.Party

namespace Ossa.Connection

open Ossa.Loop Ossa.Util Ossa.Collections Ossa.Ecg Ossa.Crdt Ossa.Network Ossa.Store Ossa.Manager

instance instTransOrdStreamId : Std.TransOrd StreamId := inferInstance

/-- A store, by its id and the channel it reads. -/
abbrev Store (StoreId : Type) := StoreId × Chan

/-- What the manager with initiative is at. -/
inductive Initiative (StoreId : Type)
  | starting
  | idle
  | advertising (storeIds : List (Store StoreId))
  | creating (streamId : StreamId) (store : Store StoreId)

/-- A message of a manager, or of a task that syncs a store. -/
inductive Frame (StoreId D : Type)
  | manager (msg : MsgManager StoreId D)
  | storeSync

section Types

variable (StoreId H HeaderId Header Body T D : Type) [LinearOrder StoreId] [LinearOrder HeaderId]

/-- One side of a connection. A stream is known by the store that its task syncs, unless it is one
of the first. -/
structure Side where
  node : Node StoreId H HeaderId Header T (Option StoreId)
  /-- The active stores have changed since the manager with initiative looked at them. -/
  changed : Bool
  initiative : Initiative StoreId
  latestStreamId : StreamId
  /-- The stores that ask the manager with initiative for a stream. -/
  managerChannel : List (Store StoreId)
  /-- The stream that the manager without initiative has asked a store about. -/
  asked : Option (StreamId × Store StoreId)
  /-- The stores that are told of the peer. -/
  registering : List (Store StoreId)
  /-- The tasks that have not registered with their stores. -/
  outgoing : List (Store StoreId)
  incoming : List (Store StoreId)
  /-- The frames that were sent to this side and not consumed. -/
  inbox : StreamId → List (Frame StoreId D)
  /-- The streams on which something was received. -/
  heard : StreamId → Bool

inductive Event
  /-- A store is created or joined. -/
  | launch (storeId : StoreId) (chan : Chan) (handler : Handler StoreId H HeaderId Header T)
  /-- A store handles a command that does not come from setting up this connection. -/
  | command (env : Environment) (storeId : StoreId) (cmd : Command H HeaderId Header Body)
  | registerPeer (env : Environment) (store : Store StoreId)
  | registerOutgoing (env : Environment) (store : Store StoreId)
  | registerIncoming (env : Environment) (store : Store StoreId)
  /-- The manager with initiative advertises the stores. -/
  | advertise (nonce : Manager.Nonce)
  /-- The manager with initiative asks for a stream. -/
  | request
  /-- The manager without initiative takes the next message. -/
  | respond
  /-- The store answers the manager without initiative. -/
  | agree (env : Environment) (responseChan : Chan)
  /-- The manager with initiative takes the response. -/
  | conclude
  /-- The task of a stream sends a frame. -/
  | send (streamId : StreamId)
  /-- The task of a stream receives a frame. -/
  | receive (streamId : StreamId)

end Types

/-- The stream of the managers, by the party with initiative. -/
def control : Party → StreamId
  | .client => ⟨1, by decide⟩
  | .server => ⟨2, by decide⟩

/-- The party whose manager gives out the id. -/
def owner (streamId : StreamId) : Party := if streamId.val % 2 = 1 then .client else .server

/-- The initial miniprotocols: a heartbeat and two managers. -/
def initialStreams {StoreId : Type} : BTreeMap StreamId (Option StoreId) :=
  (((∅ : BTreeMap StreamId (Option StoreId)).insert ⟨0, by decide⟩ none).insert
    (control .client) none).insert (control .server) none

def nextStreamId (latestStreamId : StreamId) : Exec StreamId :=
  if h : latestStreamId.val + 2 < 2 ^ 32 then .ok ⟨latestStreamId.val + 2, h⟩
  else .error .overflow

variable {StoreId H HeaderId Header Body T Op D : Type} [LinearOrder StoreId]
variable [LinearOrder HeaderId]

namespace Side

/-- The side of a party when the connection starts. -/
def start (me : Party) : Side StoreId H HeaderId Header T D where
  node := ⟨∅, ∅, initialStreams⟩
  changed := false
  initiative := .starting
  latestStreamId := control me
  managerChannel := []
  asked := none
  registering := []
  outgoing := []
  incoming := []
  inbox _ := []
  heard _ := false

variable (x : Side StoreId H HeaderId Header T D)

/-- A frame is sent to this side. -/
def push (streamId : StreamId) (frame : Frame StoreId D) : Side StoreId H HeaderId Header T D :=
  { x with inbox := Function.update x.inbox streamId (x.inbox streamId ++ [frame]) }

/-- The multiplexer hands out the next frame of a stream. -/
def take (streamId : StreamId) : Exec (Frame StoreId D × Side StoreId H HeaderId Header T D) :=
  if containsKey x.node.streamMap streamId then
    match x.inbox streamId with
    | [] => .error .assertion
    | frame :: frames =>
      .ok (frame, { x with inbox := Function.update x.inbox streamId frames })
  else .error (.expect "TODO")

/-- The task of a stream may send: the one that asks at any time, the other when it was asked. -/
def maySend (me : Party) (streamId : StreamId) : Bool :=
  match x.node.streamMap[streamId]? with
  | some (some _) => decide (owner streamId = me) || x.heard streamId
  | _ => false

section Stores

variable [Hash H] [DecidableEq H] [ECGHeader Header HeaderId] [CRDT T Op (OperationId HeaderId)]
variable (OT : OssaType StoreId H HeaderId Body T Op)

/-- A store handles a command. What it asks the manager of the peer for is in its channel then. -/
def tell (peer : DeviceId) (env : Environment) (store : Store StoreId)
    (cmd : Command H HeaderId Header Body) : Exec (Side StoreId H HeaderId Header T D ×
      List (Sent StoreId H HeaderId Header T)) := do
  let (node, sent) ← x.node.tell OT env store.2 cmd
  let requested := (syncRequested peer sent).map fun storeId => (storeId, store.2)
  pure ({ x with node, managerChannel := x.managerChannel ++ requested }, sent)

end Stores

end Side

/-! ### What the sides do -/

section Act

variable [Hash H] [DecidableEq H] [ECGHeader Header HeaderId] [CRDT T Op (OperationId HeaderId)]
variable [StoreBytes StoreId] [Hash D] [LinearOrder D]
variable (OT : OssaType StoreId H HeaderId Body T Op) (device : Party → DeviceId) (me : Party)
variable (x y : Side StoreId H HeaderId Header T D)

/-- The manager without initiative answers. -/
def reply (response : MsgManager StoreId D) : Side StoreId H HeaderId Header T D :=
  y.push (control me.dual) (.manager response)

/-- `run_without_initiative`: the next request of the peer. -/
def respond : Exec (Side StoreId H HeaderId Header T D × Side StoreId H HeaderId Header T D) := do
  match ← x.take (control me.dual) with
  | (.storeSync, _) => .error (.expect "TODO")
  | (.manager msg, x) =>
    match ← orFault (.expect "TODO") msg.toRequest with
    | .advertiseStores nonce storeIds => do
      let (response, sharedStores) ←
        runAdvertiseStoresClient nonce storeIds x.node.activeStores
      pure ({ x with registering := x.registering ++ sharedStores },
        reply me y (.advertiseStoresResponse response))
    | .createStoreStream streamId storeId =>
      if !(⟨me.dual, device me.dual⟩ : Manager).isValidStreamId false streamId then
        .ok (x, reply me y (.createStoreResponse ⟨.error .invalidStreamId⟩))
      else
        match x.node.storeChan storeId with
        | none => .ok (x, reply me y (.createStoreResponse ⟨.ok false⟩))
        | some chan => .ok ({ x with asked := some (streamId, storeId, chan) }, y)

/-- The store that was asked answers, and the multiplexer creates the stream. -/
def agree (env : Environment) (responseChan : Chan) :
    Exec (Side StoreId H HeaderId Header T D × Side StoreId H HeaderId Header T D) := do
  let (streamId, store) ← orFault .assertion x.asked
  let (x, sent) ← { x with asked := none }.tell OT (device me.dual) env store
    (.syncWithPeer (device me.dual) responseChan)
  match ← orFault (.expect "TODO") (sent.findSome? (spawnTask? responseChan)) with
  | none => pure (x, reply me y (.createStoreResponse ⟨.ok false⟩))
  | some _ =>
    let (streamMap, isRunning) := createStream x.node.streamMap streamId (some store.1)
    pure ({ x with node := { x.node with streamMap }, incoming := x.incoming ++ [store] },
      reply me y (.createStoreResponse ⟨.ok isRunning⟩))

/-- `run_with_initiative`: the response of the peer. -/
def conclude : Exec (Side StoreId H HeaderId Header T D × Side StoreId H HeaderId Header T D) := do
  match ← x.take (control me) with
  | (.storeSync, _) => .error (.expect "TODO")
  | (.manager msg, x) =>
    match x.initiative with
    | .starting => .error .assertion
    | .idle => .error .assertion
    | .advertising storeIds => do
      let response ← orFault (.expect "TODO") msg.toAdvertiseStoresResponse
      pure ({ x with
        initiative := .idle
        registering := x.registering ++ sharedStores storeIds response.haveStores }, y)
    | .creating streamId store => do
      let response ← orFault (.expect "TODO") msg.toCreateStoreResponse
      match response.accept with
      | .error .invalidStreamId => .error (.todo "Restore status to Known")
      | .ok false => .error (.todo "Restore status to Known")
      | .ok true =>
        -- Tell multiplexer to create miniprotocol.
        let (streamMap, isRunning) := createStream x.node.streamMap streamId (some store.1)
        if isRunning then
          .ok ({ x with
            node := { x.node with streamMap }
            initiative := .idle
            outgoing := x.outgoing ++ [store] }, y)
        else .error (.panic
          "TODO: Send shutdown for this miniprotocol and restore status to Known.")

/-- What an event does to the side `x` of the party `me`, and to the other side. -/
def act : Event StoreId H HeaderId Header Body T →
    Exec (Side StoreId H HeaderId Header T D × Side StoreId H HeaderId Header T D)
  | .launch storeId chan handler =>
    .ok ({ x with
      node := { x.node with
        activeStores := x.node.activeStores.insert storeId (.running chan)
        tasks := x.node.tasks.insert chan handler }
      changed := true }, y)
  | .command env storeId cmd => do
    let chan ← orFault .assertion (x.node.storeChan storeId)
    let (x, _) ← x.tell OT (device me.dual) env (storeId, chan) cmd
    pure (x, y)
  | .registerPeer env store => do
    let (x, _) ← { x with registering := x.registering.erase store }.tell OT (device me.dual) env
      store (.registerPeers [device me.dual])
    pure (x, y)
  | .registerOutgoing env store => do
    let (x, _) ← { x with outgoing := x.outgoing.erase store }.tell OT (device me.dual) env
      store (.registerOutgoingPeerSyncing (device me.dual))
    pure (x, y)
  | .registerIncoming env store => do
    let (x, _) ← { x with incoming := x.incoming.erase store }.tell OT (device me.dual) env
      store (.registerIncomingPeerSyncing (device me.dual))
    pure (x, y)
  | .advertise nonce =>
    let storeIds := advertisedStores x.node.activeStores
    .ok ({ x with initiative := .advertising storeIds, changed := false },
      y.push (control me) (.manager (.request (advertiseRequest nonce storeIds))))
  | .request =>
    match x.managerChannel with
    | [] => .error .assertion
    | store :: managerChannel => do
      let streamId ← nextStreamId x.latestStreamId
      pure ({ x with
          managerChannel
          latestStreamId := streamId
          initiative := .creating streamId store },
        y.push (control me) (.manager (.request (.createStoreStream streamId store.1))))
  | .respond => respond device me x y
  | .agree env responseChan => agree OT device me x y env responseChan
  | .conclude => conclude me x y
  | .send streamId => .ok (x, y.push streamId .storeSync)
  | .receive streamId => do
    let (_, x) ← x.take streamId
    pure ({ x with heard := Function.update x.heard streamId true }, y)

/-- What can happen at the side `x` of the party `me`. -/
def enabled : Event StoreId H HeaderId Header Body T → Bool
  | .launch storeId chan _ =>
    !containsKey x.node.activeStores storeId && !containsKey x.node.tasks chan
  | .command _ storeId cmd =>
    (x.node.storeChan storeId).isSome && !cmd.isAbout (device me.dual)
  | .registerPeer env store => x.registering.contains store && env.connected (device me.dual)
  | .registerOutgoing _ store => x.outgoing.contains store
  | .registerIncoming _ store => x.incoming.contains store
  | .advertise _ =>
    match x.initiative with
    | .starting => true
    | .idle => x.changed
    | _ => false
  | .request =>
    match x.initiative with
    | .idle => !x.managerChannel.isEmpty
    | _ => false
  | .respond => x.asked.isNone && !(x.inbox (control me.dual)).isEmpty
  | .agree _ _ => x.asked.isSome
  | .conclude =>
    match x.initiative with
    | .starting => false
    | .idle => false
    | _ => !(x.inbox (control me)).isEmpty
  | .send streamId => x.maySend me streamId
  | .receive streamId => decide (streamId ≠ control .client ∧ streamId ≠ control .server) &&
    !(x.inbox streamId).isEmpty

end Act

/-- The events of finding stores and setting up streams. -/
def Event.isSetUp : Event StoreId H HeaderId Header Body T → Bool
  | .launch _ _ _ => false
  | .command _ _ _ => false
  | .send _ => false
  | .receive _ => false
  | _ => true

/-! ### Runs -/

section Runs

variable [Hash H] [DecidableEq H] [ECGHeader Header HeaderId] [CRDT T Op (OperationId HeaderId)]
variable [StoreBytes StoreId] [Hash D] [LinearOrder D]
variable (OT : OssaType StoreId H HeaderId Body T Op) (device : Party → DeviceId)

/-- The two sides after an event at one of them. -/
def step (conn : Party → Side StoreId H HeaderId Header T D) (me : Party)
    (ev : Event StoreId H HeaderId Header Body T) :
    Exec (Party → Side StoreId H HeaderId Header T D) := do
  let (x, y) ← act OT device me (conn me) (conn me.dual) ev
  pure fun party => if party = me then x else y

/-- The two sides after the events of a list, if they can happen. -/
def exec (conn : Party → Side StoreId H HeaderId Header T D)
    (evs : List (Party × Event StoreId H HeaderId Header Body T)) :
    Exec (Party → Side StoreId H HeaderId Header T D) :=
  evs.foldlM (fun conn ev => if enabled device ev.1 (conn ev.1) ev.2 then
    step OT device conn ev.1 ev.2 else .error .assertion) conn

end Runs

end Ossa.Connection
