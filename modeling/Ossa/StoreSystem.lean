import Ossa.StoreChange

/-!
A store together with the tasks that talk to its peers.

For each peer the store syncs with, a task runs the requests of the store one after the other
and hands the answers back as commands. Tasks are spawned with a connection, and register with
the store before they take requests. What a peer answers is arbitrary; an answer `Wait` or
`Reject` to a request that is not an ECG request stops the task in a `todo!`. Commands of
different tasks reach the store in any order.
-/

namespace Ossa.Store

open Ossa.Loop Ossa.Util Ossa.Collections Ossa.Ecg Ossa.Crdt

section Types

variable (StoreId H HeaderId Header Body T : Type) [LinearOrder HeaderId]

/-- What the task of a peer is at. -/
inductive Current
  | idle
  | running (request : StoreSyncCommand HeaderId Header)
  | stopped

/-- The task that talks to a peer: the requests in its queue, the one it runs, and the commands
with answers that it has sent to the store. -/
structure Task where
  queue : List (StoreSyncCommand HeaderId Header)
  current : Current HeaderId Header
  received : List (Command H HeaderId Header Body)

/-- The store, the numbers of tasks that are spawned for a peer in each direction and have not
registered yet, and the tasks. -/
structure System where
  handler : Handler StoreId H HeaderId Header T
  outgoing : DeviceId → ℕ
  incoming : DeviceId → ℕ
  tasks : DeviceId → Task H HeaderId Header Body

inductive Event
  /-- A command that comes from neither a spawned task nor an answer. -/
  | external (env : Environment) (cmd : Command H HeaderId Header Body)
  | registerOutgoing (env : Environment) (peer : DeviceId)
  | registerIncoming (env : Environment) (peer : DeviceId)
  /-- The task takes its next request. -/
  | take (peer : DeviceId)
  /-- The peer answers, and the task tells the store. -/
  | answer (peer : DeviceId) (cmd : Command H HeaderId Header Body)
  /-- The peer answers `Wait` or `Reject`. -/
  | stop (peer : DeviceId)
  /-- The store handles the next answer from the task. -/
  | receive (env : Environment) (peer : DeviceId)

end Types

variable {StoreId H HeaderId Header Body T Op : Type} [LinearOrder HeaderId]

def Command.isExternal : Command H HeaderId Header Body → Bool
  | registerOutgoingPeerSyncing _ => false
  | registerIncomingPeerSyncing _ => false
  | receivedMetadata _ _ => false
  | receivedMerkleHashes _ _ _ => false
  | receivedInitialStateBlocks _ _ _ => false
  | receivedECGOperations _ _ => false
  | _ => true

/-- The command tells the store what the peer answered to the request. -/
def StoreSyncCommand.answers (peer : DeviceId) :
    StoreSyncCommand HeaderId Header → Command H HeaderId Header Body → Bool
  | .metadataHeaderRequest, .receivedMetadata p _ => decide (p = peer)
  | .merkleRequest ranges, .receivedMerkleHashes p ranges' _ =>
    decide (p = peer ∧ ranges' = ranges)
  | .initialStateBlockRequest ranges, .receivedInitialStateBlocks p ranges' _ =>
    decide (p = peer ∧ ranges' = ranges)
  | .ecgSyncRequest _, .receivedECGOperations p _ => decide (p = peer)
  | _, _ => false

def StoreSyncCommand.isEcg : StoreSyncCommand HeaderId Header → Bool
  | .ecgSyncRequest _ => true
  | _ => false

def Event.isStop : Event H HeaderId Header Body → Bool
  | .stop _ => true
  | _ => false

namespace System

variable (sys : System StoreId H HeaderId Header Body T)

def idleTask : Task H HeaderId Header Body := ⟨[], .idle, []⟩

/-- A store without connections. -/
def start (handler : Handler StoreId H HeaderId Header T) :
    System StoreId H HeaderId Header Body T :=
  ⟨handler, fun _ => 0, fun _ => 0, fun _ => idleTask⟩

def setTask (peer : DeviceId) (task : Task H HeaderId Header Body) :
    System StoreId H HeaderId Header Body T :=
  { sys with tasks := Function.update sys.tasks peer task }

/-- Deliver a message of the store. -/
def post (sys : System StoreId H HeaderId Header Body T) :
    Sent StoreId H HeaderId Header T → System StoreId H HeaderId Header Body T
  | .command peer request =>
    let task := sys.tasks peer
    sys.setTask peer { task with queue := task.queue ++ [request] }
  | .requestStoreSync peer _ =>
    { sys with outgoing := Function.update sys.outgoing peer (sys.outgoing peer + 1) }
  | .syncResponse _ (some peer) =>
    { sys with incoming := Function.update sys.incoming peer (sys.incoming peer + 1) }
  | _ => sys

/-- The system after a command: the new messages of the store are delivered. -/
def absorb (handler : Handler StoreId H HeaderId Header T) :
    System StoreId H HeaderId Header Body T :=
  let messages := handler.store.sent.drop sys.handler.store.sent.length
  { messages.foldl post sys with handler := handler }

def enabled : Event H HeaderId Header Body → Bool
  | .external _ cmd => cmd.isExternal
  | .registerOutgoing _ peer => decide (0 < sys.outgoing peer)
  | .registerIncoming _ peer => decide (0 < sys.incoming peer)
  | .take peer =>
    match (sys.tasks peer).current with
    | .idle => !(sys.tasks peer).queue.isEmpty
    | _ => false
  | .answer peer cmd =>
    match (sys.tasks peer).current with
    | .running request => request.answers peer cmd
    | _ => false
  | .stop peer =>
    match (sys.tasks peer).current with
    | .running request => !request.isEcg
    | _ => false
  | .receive _ peer => !(sys.tasks peer).received.isEmpty

variable [Hash H] [DecidableEq H] [DecidableEq StoreId]
variable [ECGHeader Header HeaderId] [CRDT T Op (OperationId HeaderId)]
variable (OT : OssaType StoreId H HeaderId Body T Op)

/-- The store handles a command. -/
def command (env : Environment) (cmd : Command H HeaderId Header Body) :
    Exec (System StoreId H HeaderId Header Body T) := do
  let handler ← sys.handler.handle OT env cmd
  pure (sys.absorb handler)

def next : Event H HeaderId Header Body → Exec (System StoreId H HeaderId Header Body T)
  | .external env cmd => sys.command OT env cmd
  | .registerOutgoing env peer =>
    let outgoing := Function.update sys.outgoing peer (sys.outgoing peer - 1)
    { sys with outgoing }.command OT env (.registerOutgoingPeerSyncing peer)
  | .registerIncoming env peer =>
    let incoming := Function.update sys.incoming peer (sys.incoming peer - 1)
    { sys with incoming }.command OT env (.registerIncomingPeerSyncing peer)
  | .take peer =>
    let task := sys.tasks peer
    match task.queue with
    | [] => .ok sys
    | request :: queue => .ok (sys.setTask peer { task with queue, current := .running request })
  | .answer peer cmd =>
    let task := sys.tasks peer
    .ok (sys.setTask peer { task with current := .idle, received := task.received ++ [cmd] })
  | .stop peer => .ok (sys.setTask peer { sys.tasks peer with current := .stopped })
  | .receive env peer =>
    let task := sys.tasks peer
    match task.received with
    | [] => .ok sys
    | cmd :: received => (sys.setTask peer { task with received }).command OT env cmd

/-- The systems that are reached from `sys₀` by events that meet a condition. -/
inductive Run (C : System StoreId H HeaderId Header Body T → Event H HeaderId Header Body → Prop)
    (sys₀ : System StoreId H HeaderId Header Body T) :
    System StoreId H HeaderId Header Body T → Prop
  | refl : Run C sys₀ sys₀
  | step {sys sys' : System StoreId H HeaderId Header Body T} (ev : Event H HeaderId Header Body) :
    Run C sys₀ sys → sys.enabled ev = true → C sys ev → sys.next OT ev = .ok sys' → Run C sys₀ sys'

/-- The system after the events of a list, if they can happen. -/
def exec (sys : System StoreId H HeaderId Header Body T)
    (evs : List (Event H HeaderId Header Body)) :
    Exec (System StoreId H HeaderId Header Body T) :=
  evs.foldlM (fun sys ev => if sys.enabled ev then sys.next OT ev else .error .assertion) sys

/-- The same, if moreover each event passes a check. -/
def execIf (check : System StoreId H HeaderId Header Body T → Event H HeaderId Header Body → Bool)
    (sys : System StoreId H HeaderId Header Body T)
    (evs : List (Event H HeaderId Header Body)) :
    Exec (System StoreId H HeaderId Header Body T) :=
  evs.foldlM (fun sys ev =>
    if sys.enabled ev && check sys ev then sys.next OT ev else .error .assertion) sys

variable {OT sys}
variable {C C' : System StoreId H HeaderId Header Body T → Event H HeaderId Header Body → Prop}
variable {sys₀ sys' : System StoreId H HeaderId Header Body T}

lemma Run.mono (hC : ∀ sys ev, C sys ev → C' sys ev) (h : Run OT C sys₀ sys) :
    Run OT C' sys₀ sys := by
  induction h with
  | refl => exact .refl
  | step ev _ hen hc hnext ih => exact .step ev ih hen (hC _ _ hc) hnext

lemma run_of_exec {evs : List (Event H HeaderId Header Body)} (hC : ∀ sys, ∀ ev ∈ evs, C sys ev)
    (h : exec OT sys evs = .ok sys') : Run OT C sys sys' := by
  refine foldlM_invariant (I := Run OT C sys) h .refl fun t t' ev hmem hrun hstep => ?_
  split_ifs at hstep with hen
  exact .step ev hrun hen (hC t ev hmem) hstep

lemma run_of_execIf {evs : List (Event H HeaderId Header Body)}
    {check : System StoreId H HeaderId Header Body T → Event H HeaderId Header Body → Bool}
    (hC : ∀ sys, ∀ ev ∈ evs, check sys ev = true → C sys ev) (h : execIf OT check sys evs = .ok sys') :
    Run OT C sys sys' := by
  refine foldlM_invariant (I := Run OT C sys) h .refl fun t t' ev hmem hrun hstep => ?_
  split_ifs at hstep with hen
  obtain ⟨hen, hcheck⟩ := Bool.and_eq_true_iff.mp hen
  exact .step ev hrun hen (hC t ev hmem hcheck) hstep

end System

end Ossa.Store
