import Ossa.EcgCalls
import Ossa.StoreWaiting

/-!
The two sides of a sync between two stores, `StoreSync` of `protocol/store_peer/v0.rs`.

The side with initiative (`run_server`) takes the commands of its store one after the other and
asks the other side (`run_client`), which asks its own store. The messages of both sides are of
one type, and a side that receives converts them to the type it expects. What the stores do is
left open: which commands the one sends, and whether the other answers at once, tells to wait
and answers later, or rejects later.
-/

namespace Ossa.StoreSync

open Ossa.Loop Ossa.Util Ossa.Collections Ossa.Ecg Ossa.EcgSync Ossa.Store

/-! ### Messages -/

inductive StoreSyncResponse (A : Type)
  | response (a : A)
  /-- Don't currently know, wait until we share it with you. -/
  | wait
  /-- They may or may not have the metadata, but they rejected the request. -/
  | reject

inductive MsgStoreSyncRequest (HeaderId : Type)
  | metadataHeader
  | merkleHashes (ranges : List Range)
  | initialStateBlocks (ranges : List Range)
  | ecgInitialSync (tips : List HeaderId)
  | ecgSync (tips : List HeaderId) (known : HeaderBitmap)

inductive MsgStoreECGSyncResponse (HeaderId Header : Type)
  | response (haves : List HeaderId) (operations : List (Header × RawECGBody))
  | wait

inductive MsgStoreSync (H HeaderId Header : Type)
  | request (request : MsgStoreSyncRequest HeaderId)
  | metadataHeaderResponse (response : StoreSyncResponse (MetadataHeader H))
  | merkleResponse (response : StoreSyncResponse (List H))
  | blocksResponse (response : StoreSyncResponse (List (Option (List UInt8))))
  | ecgResponse (response : MsgStoreECGSyncResponse HeaderId Header)

variable {H HeaderId Header Body : Type}

namespace MsgStoreSync

/-! The implementations of `TryInto`. -/

def toRequest : MsgStoreSync H HeaderId Header → Option (MsgStoreSyncRequest HeaderId)
  | request r => some r
  | _ => none

def toMetadataResponse :
    MsgStoreSync H HeaderId Header → Option (StoreSyncResponse (MetadataHeader H))
  | metadataHeaderResponse r => some r
  | _ => none

def toMerkleResponse : MsgStoreSync H HeaderId Header → Option (StoreSyncResponse (List H))
  | merkleResponse r => some r
  | _ => none

def toBlocksResponse :
    MsgStoreSync H HeaderId Header → Option (StoreSyncResponse (List (Option (List UInt8))))
  | blocksResponse r => some r
  | _ => none

def toECGResponse :
    MsgStoreSync H HeaderId Header → Option (MsgStoreECGSyncResponse HeaderId Header)
  | ecgResponse r => some r
  | _ => none

end MsgStoreSync

/-- What can go wrong in `receive` on a stream that delivers what is sent on it. -/
inductive ProtocolError
  /-- The connection is closed. -/
  | receivedNoData
  | protocolDeviation
  deriving DecidableEq

/-- Receive the next message of a stream, if there is one, and convert it. -/
def receive {M U : Type} (tryInto : M → Option U) : Option M → Except ProtocolError U
  | none => .error .receivedNoData
  | some msg =>
    match tryInto msg with
    | some u => .ok u
    | none => .error .protocolDeviation

/-- Why a side has stopped: `receive` failed, or it aborted in another way. -/
inductive Stop
  | protocol (error : ProtocolError)
  | fault (fault : Fault)

/-! ### The side with initiative -/

/-- What the side with initiative waits for: the response to a request, with the data of the
request that it still needs. An ECG request can be told to wait. -/
inductive Pending
  | metadata
  | merkle (ranges : List Range)
  | blocks (ranges : List Range)
  | ecg (waited : Bool)

inductive Initiating
  | idle
  | receiving (pending : Pending)
  | stopped (why : Stop)

/-- The variables of `run_server`. -/
structure Initiator (HeaderId : Type) where
  ecgSync : Option (ECGSyncInitiator HeaderId)
  task : Initiating

namespace Initiator

variable [LinearOrder HeaderId]

/-- The request for a command of the store, and what is received next. -/
def request (self : Initiator HeaderId) :
    StoreSyncCommand HeaderId Header → Exec (MsgStoreSyncRequest HeaderId × Pending)
  | .metadataHeaderRequest => .ok (.metadataHeader, .metadata)
  | .merkleRequest ranges => .ok (.merkleHashes ranges, .merkle ranges)
  | .initialStateBlockRequest ranges => .ok (.initialStateBlocks ranges, .blocks ranges)
  | .ecgSyncRequest ecgState =>
    match self.ecgSync with
    -- First round of ECG sync.
    | none => .ok (.ecgInitialSync ecgState.tips.toList, .ecg false)
    -- Subsequent rounds of ECG sync.
    | some ecgSync => do
      let known ← ecgSync.knownBitmap ecgState
      pure (.ecgSync ecgState.tips.toList known, .ecg false)

/-- Tell the store the response; a response to wait and a rejection are still to do. -/
def handleResult {A : Type} (self : Initiator HeaderId) (tell : A → Command H HeaderId Header Body) :
    Except ProtocolError (StoreSyncResponse A) →
      Initiator HeaderId × Option (Command H HeaderId Header Body)
  | .error e => ({ self with task := .stopped (.protocol e) }, none)
  | .ok (.response a) => ({ self with task := .idle }, some (tell a))
  | .ok .wait => ({ self with task := .stopped (.fault (.todo "")) }, none)
  | .ok .reject => ({ self with task := .stopped (.fault (.todo "")) }, none)

/-- The response of an ECG round; it is preceded by at most one message to wait. -/
def handleECGResult (self : Initiator HeaderId) (peer : DeviceId) (waited : Bool) :
    Except ProtocolError (MsgStoreECGSyncResponse HeaderId Header) →
      Initiator HeaderId × Option (Command H HeaderId Header Body)
  | .error e => ({ self with task := .stopped (.protocol e) }, none)
  | .ok (.response haves operations) =>
    ({ self with ecgSync := some ⟨haves⟩, task := .idle },
      some (.receivedECGOperations peer operations))
  | .ok .wait =>
    if waited then
      ({ self with
        task := .stopped (.fault (.todo "TODO: Prevent this with session types.")) }, none)
    else ({ self with task := .receiving (.ecg true) }, none)

/-- Receive what is pending, and tell the store. -/
def receive (self : Initiator HeaderId) (peer : DeviceId)
    (msg : Option (MsgStoreSync H HeaderId Header)) :
    Pending → Initiator HeaderId × Option (Command H HeaderId Header Body)
  | .metadata =>
    self.handleResult (.receivedMetadata peer)
      (StoreSync.receive MsgStoreSync.toMetadataResponse msg)
  | .merkle ranges =>
    self.handleResult (.receivedMerkleHashes peer ranges)
      (StoreSync.receive MsgStoreSync.toMerkleResponse msg)
  | .blocks ranges =>
    self.handleResult (.receivedInitialStateBlocks peer ranges)
      (StoreSync.receive MsgStoreSync.toBlocksResponse msg)
  | .ecg waited =>
    self.handleECGResult peer waited (StoreSync.receive MsgStoreSync.toECGResponse msg)

end Initiator

/-- The message converts to the type that is received. -/
def Pending.accepts : Pending → MsgStoreSync H HeaderId Header → Bool
  | .metadata, msg => msg.toMetadataResponse.isSome
  | .merkle _, msg => msg.toMerkleResponse.isSome
  | .blocks _, msg => msg.toBlocksResponse.isSome
  | .ecg _, msg => msg.toECGResponse.isSome

/-! ### The other side -/

/-- The store's answer to a request. -/
def Resp (H : Type) : PeerRequest → Type
  | .metadata => MetadataHeader H
  | .merkle _ => List H
  | .blocks _ => List (Option (List UInt8))

/-- The message with a response of a kind. -/
def buildResponse : (q : PeerRequest) → StoreSyncResponse (Resp H q) → MsgStoreSync H HeaderId Header
  | .metadata, response => .metadataHeaderResponse response
  | .merkle _, response => .merkleResponse response
  | .blocks _, response => .blocksResponse response

/-- The first message of `run_client_helper`: the store answers at once, or it tells to wait. -/
def firstMessage (q : PeerRequest) : Option (Resp H q) → MsgStoreSync H HeaderId Header
  | some response => buildResponse q (.response response)
  -- If waiting, tell peer.
  | none => .metadataHeaderResponse .wait

/-- Its second message, after it told the peer to wait. -/
def secondMessage (q : PeerRequest) : Option (Resp H q) → MsgStoreSync H HeaderId Header
  | some res => buildResponse q (.response res)
  | none => buildResponse q .reject

/-- What the other side is at: it waits for a request, for the first or the second answer of its
store, or for a snapshot of the graph of its store. -/
inductive Serving (HeaderId : Type) [LinearOrder HeaderId]
  | idle
  | asked (q : PeerRequest)
  | waiting (q : PeerRequest)
  | attempting (ecgSync : ECGSyncResponder HeaderId) (attempt : Attempt HeaderId)
  | stopped (why : Stop)

/-- The variables of `run_client`. -/
structure Responder (HeaderId : Type) [LinearOrder HeaderId] where
  ecgSync : Option (ECGSyncResponder HeaderId)
  task : Serving HeaderId

section Parties

variable [LinearOrder HeaderId]

/-- A request is received, and the store is asked. -/
def Responder.serve (self : Responder HeaderId) :
    Except ProtocolError (MsgStoreSyncRequest HeaderId) → Responder HeaderId
  | .error e => { self with task := .stopped (.protocol e) }
  | .ok .metadataHeader => { self with task := .asked .metadata }
  | .ok (.merkleHashes ranges) => { self with task := .asked (.merkle ranges) }
  | .ok (.initialStateBlocks ranges) => { self with task := .asked (.blocks ranges) }
  | .ok (.ecgInitialSync tips) =>
    if self.ecgSync.isSome then
      { self with
        task := .stopped (.fault (.todo "TODO: Error, ECG sync has already been initialized.")) }
    else { self with task := .attempting .new (.initial tips) }
  | .ok (.ecgSync tips known) =>
    match self.ecgSync with
    | none =>
      { self with
        task := .stopped (.fault (.todo "TODO: Error, ECG sync hasn't been initialized.")) }
    | some ecgSync => { self with task := .attempting ecgSync (.round tips known) }

/-! ### The connection -/

/-- Both sides, the latest snapshot of the graph of the responder's store, and the messages in
flight. Recorded are the requests that were received, the latest first, each with the messages
that were sent for it, and what the side with initiative has told its store. -/
structure Connection (H HeaderId Header Body : Type) [LinearOrder HeaderId] where
  initiator : Initiator HeaderId
  responder : Responder HeaderId
  ecg : UntypedState HeaderId Header
  toResponder : List (MsgStoreSync H HeaderId Header)
  toInitiator : List (MsgStoreSync H HeaderId Header)
  log : List (MsgStoreSyncRequest HeaderId × List (MsgStoreSync H HeaderId Header))
  told : List (Command H HeaderId Header Body)

/-- What the stores and the stream do next. -/
inductive Event (H HeaderId Header : Type) [LinearOrder HeaderId]
  /-- The one store sends a command. -/
  | command (cmd : StoreSyncCommand HeaderId Header)
  /-- A request arrives. -/
  | request
  /-- The other store answers a request at once, or tells to wait. -/
  | answer (q : PeerRequest) (response : Option (Resp H q))
  /-- The other store answers a request that waits, or rejects it. -/
  | later (q : PeerRequest) (response : Option (Resp H q))
  /-- The other store gives a snapshot of its graph. -/
  | ecgState (ecgState : UntypedState HeaderId Header)
  /-- A response arrives. -/
  | response

namespace Connection

def start : Connection H HeaderId Header Body :=
  ⟨⟨none, .idle⟩, ⟨none, .idle⟩, .new, [], [], [], []⟩

variable (x : Connection H HeaderId Header Body)

/-- The side with initiative asks for a command. -/
def issue (cmd : StoreSyncCommand HeaderId Header) : Connection H HeaderId Header Body :=
  match x.initiator.request cmd with
  | .ok (request, pending) =>
    { x with
      initiator := { x.initiator with task := .receiving pending }
      toResponder := x.toResponder ++ [.request request] }
  | .error e => { x with initiator := { x.initiator with task := .stopped (.fault e) } }

/-- Record a request that was received. -/
def logRequest (x : Connection H HeaderId Header Body)
    (msg : MsgStoreSync H HeaderId Header) : Connection H HeaderId Header Body :=
  match msg.toRequest with
  | some request => { x with log := (request, []) :: x.log }
  | none => x

/-- The other side receives a message. -/
def accept (msg : MsgStoreSync H HeaderId Header) (rest : List (MsgStoreSync H HeaderId Header)) :
    Connection H HeaderId Header Body :=
  { x.logRequest msg with
    responder := x.responder.serve (receive MsgStoreSync.toRequest (some msg))
    toResponder := rest }

/-- The log when a message was sent for the latest request. -/
def logged (msg : MsgStoreSync H HeaderId Header) :
    List (MsgStoreSyncRequest HeaderId × List (MsgStoreSync H HeaderId Header)) →
      List (MsgStoreSyncRequest HeaderId × List (MsgStoreSync H HeaderId Header))
  | [] => []
  | (request, sent) :: log => (request, sent ++ [msg]) :: log

/-- The other side sends a message. -/
def reply (msg : MsgStoreSync H HeaderId Header) (responder : Responder HeaderId) :
    Connection H HeaderId Header Body :=
  { x with
    responder
    toInitiator := x.toInitiator ++ [msg]
    log := logged msg x.log }

/-- One iteration of `run_response_helper` is over: the other side sends the response, or
subscribes if it is empty, and tells to wait if this is the first iteration. -/
def respond (attempt : Attempt HeaderId)
    (w : ECGSyncResponder HeaderId × List (Header × RawECGBody)) :
    Connection H HeaderId Header Body :=
  if w.2.isEmpty && w.1.sentHaves.isEmpty then
    let responder := { x.responder with task := .attempting w.1 (.again attempt.theirTips) }
    if attempt.isAgain then { x with responder }
    else x.reply (.ecgResponse .wait) responder
  else x.reply (.ecgResponse (.response w.1.sentHaves w.2)) ⟨some w.1, .idle⟩

/-- The side with initiative receives a message. -/
def receive (peer : DeviceId) (pending : Pending) (msg : MsgStoreSync H HeaderId Header)
    (rest : List (MsgStoreSync H HeaderId Header)) : Connection H HeaderId Header Body :=
  let (initiator, cmd) := x.initiator.receive peer (some msg) pending
  { x with initiator, toInitiator := rest, told := x.told ++ cmd.toList }

end Connection

/-- The other side is given a snapshot. -/
def Connection.observe (x : Connection H HeaderId Header Body)
    (ecgState : UntypedState HeaderId Header) : Connection H HeaderId Header Body :=
  { x with ecg := ecgState }

variable [ECGHeader Header HeaderId]

/-- One step of a connection to `peer`. A side that stopped takes no step. The graph of a store
only grows. -/
inductive Step (peer : DeviceId) : Connection H HeaderId Header Body → Event H HeaderId Header →
    Connection H HeaderId Header Body → Prop
  | command {x cmd} : x.initiator.task = .idle → Step peer x (.command cmd) (x.issue cmd)
  | request {x msg rest} : x.responder.task = .idle → x.toResponder = msg :: rest →
    Step peer x .request (x.accept msg rest)
  | answered {x q} (response : Resp H q) : x.responder.task = .asked q →
    Step peer x (.answer q (some response))
      (x.reply (firstMessage q (some response)) { x.responder with task := .idle })
  | toldToWait {x q} : x.responder.task = .asked q →
    Step peer x (.answer q none)
      (x.reply (firstMessage q none) { x.responder with task := .waiting q })
  | later {x q} (response : Option (Resp H q)) : x.responder.task = .waiting q →
    Step peer x (.later q response)
      (x.reply (secondMessage q response) { x.responder with task := .idle })
  | ecgState {x ecgSync attempt s w} : x.responder.task = .attempting ecgSync attempt →
    x.ecg.Grows s → s.WellFormed → Returns (fun fuel => attempt.run fuel s ecgSync) w →
    Step peer x (.ecgState s) ((x.observe s).respond attempt w)
  | ecgFault {x ecgSync attempt s fuel e} : x.responder.task = .attempting ecgSync attempt →
    x.ecg.Grows s → s.WellFormed → (∀ w, ¬ Returns (fun fuel => attempt.run fuel s ecgSync) w) →
    attempt.run fuel s ecgSync = .error e → e ≠ .outOfFuel →
    Step peer x (.ecgState s)
      { x.observe s with responder := { x.responder with task := .stopped (.fault e) } }
  | response {x pending msg rest} : x.initiator.task = .receiving pending →
    x.toInitiator = msg :: rest → Step peer x .response (x.receive peer pending msg rest)

/-- The runs of a connection: the events and the connections before, the latest first. -/
inductive Run (peer : DeviceId) : List (Event H HeaderId Header) →
    List (Connection H HeaderId Header Body) → Connection H HeaderId Header Body → Prop
  | start : Run peer [] [] .start
  | step {events past x ev y} : Run peer events past x → Step peer x ev y →
    Run peer (ev :: events) (x :: past) y

end Parties

end Ossa.StoreSync
