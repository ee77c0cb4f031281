import Ossa.StoreFaults
import Ossa.StoreTasks

/-!
The requests of a store in a running system.

The ledger of a system is read off its tasks. Each event keeps the statuses of the peers in
agreement with it, so the store and the tasks never lose track of a request, unless a task has
stopped.
-/

namespace Ossa.Store

open Ossa.Loop Ossa.Util Ossa.Collections Ossa.Ecg Ossa.Crdt Relation State

variable {StoreId H HeaderId Header Body T Op : Type} [LinearOrder HeaderId]

/-! ### The part of a command that is about its peer -/

/-- The peer whose answer a command brings. -/
def Command.receivedFrom : Command H HeaderId Header Body → Option DeviceId
  | receivedMetadata peer _ => some peer
  | receivedMerkleHashes peer _ _ => some peer
  | receivedInitialStateBlocks peer _ _ => some peer
  | receivedECGOperations peer _ => some peer
  | _ => none

/-- The command leaves the statuses of peers alone. -/
def Command.isData : Command H HeaderId Header Body → Bool
  | apply _ _ => true
  | subscribeState _ => true
  | handleMetadataPeerRequest _ _ => true
  | handleMerklePeerRequest _ _ _ => true
  | handleBlockPeerRequest _ _ _ => true
  | subscribeECG _ _ _ => true
  | _ => false

/-- The ledger while a command is handled: what the command brought was on its way. -/
def Command.inFlight (L : Ledger) : Command H HeaderId Header Body → Ledger
  | registerOutgoingPeerSyncing peer => moreOutgoing L peer
  | registerIncomingPeerSyncing peer => moreIncoming L peer
  | receivedMetadata peer _ => moreBusy L peer
  | receivedMerkleHashes peer _ _ => moreBusy L peer
  | receivedInitialStateBlocks peer _ _ => moreBusy L peer
  | receivedECGOperations peer _ => moreBusy L peer
  | _ => L

section Handler

variable [Hash H] [DecidableEq H] [DecidableEq StoreId]
variable [ECGHeader Header HeaderId] [CRDT T Op (OperationId HeaderId)]
variable {OT : OssaType StoreId H HeaderId Body T Op}
variable {s s' : State StoreId H HeaderId Header T} {listeners : List Chan} {env : Environment}
variable {cmd : Command H HeaderId Header Body} {L : Ledger} {peer : DeviceId}

/-- What a command does first: it updates the statuses of peers. -/
def statusCall (OT : OssaType StoreId H HeaderId Body T Op) (env : Environment)
    (s : State StoreId H HeaderId Header T) :
    Command H HeaderId Header Body → Exec (State StoreId H HeaderId Header T)
  | .registerPeers peers => (peers.foldl insertKnownPeer s).managePeers OT.into env.connected
  | .syncWithPeer peer chan => s.syncWithPeer peer chan
  | .registerOutgoingPeerSyncing peer => s.updatePeerToSyncing peer PeerInfo.outgoing ⟨false⟩
  | .registerIncomingPeerSyncing peer => s.updatePeerToSyncing peer PeerInfo.incoming ()
  | .receivedMetadata peer _ => s.updateOutgoingPeerToReady peer
  | .receivedMerkleHashes peer _ _ => s.updateOutgoingPeerToReady peer
  | .receivedInitialStateBlocks peer _ _ => s.updateOutgoingPeerToReady peer
  | .receivedECGOperations peer _ => s.updateOutgoingPeerToReady peer
  | _ => .ok s

lemma tracks_of_changes (h : Changes OT listeners cmd s s') : s.Tracks s' := by
  induction h with
  | refl => exact .refl s
  | tail _ hc ih =>
    obtain ⟨hp, l, hl, hdata⟩ := hc.frame
    exact ih.trans (tracks_of_data hp hl hdata)

lemma sameRanks_of_changes (h : Changes OT listeners cmd s s') : s.SameRanks s' := by
  induction h with
  | refl => exact .refl s
  | tail _ hc ih => exact ih.trans (sameRanks_of_peers hc.frame.1)

lemma handleStore_of_fault {e : Fault} (h : statusCall OT env s cmd = .error e) :
    Handler.handleStore OT env listeners s cmd = .error e := by
  cases cmd with
  | registerPeers peers => exact h
  | syncWithPeer peer chan => exact h
  | registerOutgoingPeerSyncing peer => exact congrArg (· >>= _) h
  | registerIncomingPeerSyncing peer => exact h
  | receivedMetadata peer _ => exact congrArg (fun x => (x >>= _) >>= _) h
  | receivedMerkleHashes peer _ _ => exact congrArg (fun x => (x >>= _) >>= _) h
  | receivedInitialStateBlocks peer _ _ => exact congrArg (fun x => (x >>= _) >>= _) h
  | receivedECGOperations peer _ => exact congrArg (fun x => (x >>= _) >>= _) h
  | _ => cases h

omit [DecidableEq H] [DecidableEq StoreId] [ECGHeader Header HeaderId]
  [CRDT T Op (OperationId HeaderId)] in
/-- **No status is unexpected** when it agrees with the ledger. -/
theorem exists_statusCall (h : Agrees s.peers (cmd.inFlight L)) :
    ∃ s', statusCall OT env s cmd = .ok s' := by
  cases cmd with
  | registerPeers peers => exact exists_managePeers _ _ _
  | syncWithPeer peer chan => exact exists_syncWithPeer _ _ _
  | registerOutgoingPeerSyncing peer =>
    obtain ⟨-, s', -, -, hs', -⟩ := syncing_of_outgoing h
    exact ⟨s', hs'⟩
  | registerIncomingPeerSyncing peer =>
    obtain ⟨-, s', -, -, hs', -⟩ := syncing_of_incoming h
    exact ⟨s', hs'⟩
  | receivedMetadata peer _ => exact (ready_of_busy h).imp fun _ => And.left
  | receivedMerkleHashes peer _ _ => exact (ready_of_busy h).imp fun _ => And.left
  | receivedInitialStateBlocks peer _ _ => exact (ready_of_busy h).imp fun _ => And.left
  | receivedECGOperations peer _ => exact (ready_of_busy h).imp fun _ => And.left
  | _ => exact ⟨s, rfl⟩

/-- **A command that finds the statuses it expects** only faults in what is left. -/
lemma faultsIn_handleStore {E : Fault → Prop} (hE : ∀ e, e ≠ barePanic → E e)
    (hT : ∀ st (t : T) (op : Op), FaultsIn E (CRDT.apply st t op))
    (h : FaultsIn E (statusCall OT env s cmd)) :
    FaultsIn E (Handler.handleStore OT env listeners s cmd) := by
  cases cmd with
  | apply header body => exact faultsIn_apply hE OT hT header body listeners
  | subscribeState chan => exact faultsIn_ok _
  | registerPeers peers => exact h
  | syncWithPeer peer chan => exact h
  | registerOutgoingPeerSyncing peer => exact h.bind fun _ => faultsIn_sendSyncRequests hE _
  | registerIncomingPeerSyncing peer => exact h
  | handleMetadataPeerRequest peer chan => exact faultsIn_ok _
  | handleMerklePeerRequest peer request chan => exact faultsIn_handleMerklePeerRequest hE _ _ _
  | handleBlockPeerRequest peer request chan => exact faultsIn_handleBlockPeerRequest hE _ _ _
  | receivedMetadata peer metadata =>
    exact (faultsIn_handleReceivedMetadata hE OT h _ _).bind fun _ => faultsIn_sendSyncRequests hE _
  | receivedMerkleHashes peer ranges nodes =>
    exact (faultsIn_handleReceivedMerkleHashes hE OT h _ _ _).bind fun _ =>
      faultsIn_sendSyncRequests hE _
  | receivedInitialStateBlocks peer ranges blocks =>
    exact (faultsIn_handleReceivedInitialStateBlocks hE OT h _ _ _).bind fun _ =>
      faultsIn_sendSyncRequests hE _
  | receivedECGOperations peer operations =>
    exact (faultsIn_handleReceivedECGOperations hE OT hT h _ _).bind fun _ =>
      faultsIn_sendSyncRequests hE _
  | subscribeECG peer tips chan => exact faultsIn_ok _

lemma changes_of_data (hdata : cmd.isData = true)
    (h : Handler.handleStore OT env listeners s cmd = .ok s') : Changes OT listeners cmd s s' := by
  cases cmd with
  | apply header body => exact changes_apply h
  | subscribeState chan =>
    cases h
    exact .single (.subscribeState chan)
  | handleMetadataPeerRequest peer chan =>
    cases h
    exact .single (.metadataRequest peer chan)
  | handleMerklePeerRequest peer ranges chan => exact .single (.merkleRequest peer ranges chan h)
  | handleBlockPeerRequest peer ranges chan => exact .single (.blockRequest peer ranges chan h)
  | subscribeECG peer tips chan =>
    cases h
    exact .single (.subscribeECG peer tips chan)
  | _ => cases hdata

/-- What the answers of peers have in common: they make their peer ready, change the data, and
send requests. -/
lemma handleStore_received (hfrom : cmd.receivedFrom = some peer)
    (h : Handler.handleStore OT env listeners s cmd = .ok s') : ∃ s₁ s₂,
      s.updateOutgoingPeerToReady peer = .ok s₁ ∧ Changes OT listeners cmd s₁ s₂ ∧
        s₂.sendSyncRequests env.rng = .ok s' := by
  cases cmd with
  | receivedMetadata peer metadata =>
    cases hfrom
    obtain ⟨s₂, hp, h⟩ := bind_eq_ok.mp h
    obtain ⟨s₁, hr, hc⟩ := changes_handleReceivedMetadata hp
    exact ⟨s₁, s₂, hr, hc, h⟩
  | receivedMerkleHashes peer ranges nodes =>
    cases hfrom
    obtain ⟨s₂, hp, h⟩ := bind_eq_ok.mp h
    obtain ⟨s₁, hr, hc⟩ := changes_handleReceivedMerkleHashes hp
    exact ⟨s₁, s₂, hr, hc, h⟩
  | receivedInitialStateBlocks peer ranges blocks =>
    cases hfrom
    obtain ⟨s₂, hp, h⟩ := bind_eq_ok.mp h
    obtain ⟨s₁, hr, hc⟩ := changes_handleReceivedInitialStateBlocks hp
    exact ⟨s₁, s₂, hr, hc, h⟩
  | receivedECGOperations peer operations =>
    cases hfrom
    obtain ⟨s₂, hp, h⟩ := bind_eq_ok.mp h
    obtain ⟨s₁, hr, hc⟩ := changes_handleReceivedECGOperations hp
    exact ⟨s₁, s₂, hr, hc, h⟩
  | _ => cases hfrom

omit [Hash H] [DecidableEq H] [DecidableEq StoreId] [ECGHeader Header HeaderId] in
lemma inFlight_received (hfrom : cmd.receivedFrom = some peer) :
    cmd.inFlight L = moreBusy L peer := by
  cases cmd <;> cases hfrom <;> rfl

omit [Hash H] [DecidableEq H] [DecidableEq StoreId] [ECGHeader Header HeaderId]
  [CRDT T Op (OperationId HeaderId)] in
lemma State.Tracks.agrees (h : s.Tracks s') (hL : Agrees s.peers L) :
    ∃ l, s'.sent = s.sent ++ l ∧ Agrees s'.peers (L.add l) := by
  obtain ⟨l, hl, hadd⟩ := h
  exact ⟨l, hl, hadd L hL⟩

/-- **Handling a command keeps the statuses in agreement** with what is on its way. -/
theorem handleStore_agrees (hL : Agrees s.peers (cmd.inFlight L))
    (h : Handler.handleStore OT env listeners s cmd = .ok s') :
    ∃ l, s'.sent = s.sent ++ l ∧ Agrees s'.peers (L.add l) := by
  have hreceived : ∀ {peer}, cmd.receivedFrom = some peer →
      ∃ l, s'.sent = s.sent ++ l ∧ Agrees s'.peers (L.add l) := by
    intro peer hfrom
    obtain ⟨s₁, s₂, hr, hc, hs⟩ := handleStore_received hfrom h
    rw [inFlight_received hfrom] at hL
    obtain ⟨s₁', hr', hsent, hagrees⟩ := ready_of_busy hL
    rw [hr] at hr'
    cases hr'
    rw [← hsent]
    exact ((tracks_of_changes hc).trans (tracks_sendSyncRequests hs)).agrees hagrees
  cases cmd with
  | registerPeers peers => exact ((tracks_insertKnownPeers peers).trans (tracks_managePeers h)).agrees hL
  | syncWithPeer peer chan => exact (tracks_syncWithPeer h).agrees hL
  | registerOutgoingPeerSyncing peer =>
    obtain ⟨s₁, hp, h⟩ := bind_eq_ok.mp h
    obtain ⟨-, s₁', -, -, hs', hsent, hagrees⟩ := syncing_of_outgoing hL
    rw [hp] at hs'
    cases hs'
    rw [← hsent]
    exact (tracks_sendSyncRequests h).agrees hagrees
  | registerIncomingPeerSyncing peer =>
    obtain ⟨-, s₁', -, -, hs', hsent, hagrees⟩ := syncing_of_incoming hL
    cases h.symm.trans hs'
    exact ⟨[], by rw [hsent, List.append_nil], hagrees⟩
  | receivedMetadata peer _ => exact hreceived rfl
  | receivedMerkleHashes peer _ _ => exact hreceived rfl
  | receivedInitialStateBlocks peer _ _ => exact hreceived rfl
  | receivedECGOperations peer _ => exact hreceived rfl
  | apply _ _ => exact (tracks_of_changes (changes_of_data rfl h)).agrees hL
  | subscribeState _ => exact (tracks_of_changes (changes_of_data rfl h)).agrees hL
  | handleMetadataPeerRequest _ _ => exact (tracks_of_changes (changes_of_data rfl h)).agrees hL
  | handleMerklePeerRequest _ _ _ => exact (tracks_of_changes (changes_of_data rfl h)).agrees hL
  | handleBlockPeerRequest _ _ _ => exact (tracks_of_changes (changes_of_data rfl h)).agrees hL
  | subscribeECG _ _ _ => exact (tracks_of_changes (changes_of_data rfl h)).agrees hL

/-- **A command moves the status of a peer at most one step further**, and never back. -/
theorem handleStore_advances (h : Handler.handleStore OT env listeners s cmd = .ok s') :
    s.Advances s' := by
  have hreceived : ∀ {peer}, cmd.receivedFrom = some peer → s.Advances s' := by
    intro peer hfrom
    obtain ⟨s₁, s₂, hr, hc, hs⟩ := handleStore_received hfrom h
    exact ((sameRanks_updateOutgoingPeerToReady hr).trans
      ((sameRanks_of_changes hc).trans (sameRanks_sendSyncRequests hs))).advances
  cases cmd with
  | registerPeers peers =>
    exact (sameRanks_insertKnownPeers peers).trans_advances (advances_managePeers h)
  | syncWithPeer peer chan => exact advances_syncWithPeer h
  | registerOutgoingPeerSyncing peer =>
    obtain ⟨s₁, hp, h⟩ := bind_eq_ok.mp h
    exact (advances_updatePeerToSyncing_outgoing hp).trans_sameRanks (sameRanks_sendSyncRequests h)
  | registerIncomingPeerSyncing peer => exact advances_updatePeerToSyncing_incoming h
  | receivedMetadata peer _ => exact hreceived rfl
  | receivedMerkleHashes peer _ _ => exact hreceived rfl
  | receivedInitialStateBlocks peer _ _ => exact hreceived rfl
  | receivedECGOperations peer _ => exact hreceived rfl
  | apply _ _ => exact (sameRanks_of_changes (changes_of_data rfl h)).advances
  | subscribeState _ => exact (sameRanks_of_changes (changes_of_data rfl h)).advances
  | handleMetadataPeerRequest _ _ =>
    exact (sameRanks_of_changes (changes_of_data rfl h)).advances
  | handleMerklePeerRequest _ _ _ =>
    exact (sameRanks_of_changes (changes_of_data rfl h)).advances
  | handleBlockPeerRequest _ _ _ =>
    exact (sameRanks_of_changes (changes_of_data rfl h)).advances
  | subscribeECG _ _ _ => exact (sameRanks_of_changes (changes_of_data rfl h)).advances

end Handler

/-! ### The ledger of a system -/

def Current.count : Current HeaderId Header → ℕ
  | .running _ => 1
  | _ => 0

/-- The requests to a peer that are queued, being run, or answered and not handled yet. -/
def Task.inFlight (task : Task H HeaderId Header Body) : ℕ :=
  task.queue.length + task.current.count + task.received.length

namespace System

variable {sys sys' sys₀ : System StoreId H HeaderId Header Body T}

def ledger (sys : System StoreId H HeaderId Header Body T) : Ledger where
  outgoing := sys.outgoing
  incoming := sys.incoming
  busy p := (sys.tasks p).inFlight

/-- The store and its tasks agree on every peer, and answers are the ones of their task. -/
structure Orderly (sys : System StoreId H HeaderId Header Body T) : Prop where
  agrees : Agrees sys.handler.store.peers sys.ledger
  received : ∀ p, ∀ cmd ∈ (sys.tasks p).received, cmd.receivedFrom = some p

lemma ledger_post (sys : System StoreId H HeaderId Header Body T)
    (m : Sent StoreId H HeaderId Header T) : (sys.post m).ledger = sys.ledger.add [m] := by
  have hout : ∀ (f : DeviceId → ℕ) (a p : DeviceId), Function.update f a (f a + 1) p =
      f p + [a].countP (· = p) := fun f a p => by
    by_cases h : p = a
    · subst h
      simp
    · simp [Function.update_of_ne h, Ne.symm h]
  cases m with
  | command peer request =>
    refine Ledger.ext rfl rfl (funext fun p => ?_)
    by_cases h : p = peer
    · subst h
      simp only [post, ledger, setTask, Ledger.add, Function.update_self, Task.inFlight,
        List.length_append, Sent.isCommandTo, List.countP_singleton]
      simp
      omega
    · simp [post, ledger, setTask, Ledger.add, Function.update_of_ne h, Sent.isCommandTo,
        Ne.symm h]
  | requestStoreSync peer _ =>
    refine Ledger.ext (funext fun p => ?_) rfl rfl
    exact hout sys.outgoing peer p
  | syncResponse _ peer =>
    cases peer with
    | none => rfl
    | some peer =>
      refine Ledger.ext rfl (funext fun p => ?_) rfl
      exact hout sys.incoming peer p
  | response _ _ => rfl
  | notice _ _ => rfl
  | ecg _ _ => rfl
  | stateUpdate _ _ => rfl

lemma ledger_foldl (l : List (Sent StoreId H HeaderId Header T))
    (sys : System StoreId H HeaderId Header Body T) :
    (l.foldl post sys).ledger = sys.ledger.add l := by
  induction l generalizing sys with
  | nil => rfl
  | cons m l ih => rw [List.foldl_cons, ih, ledger_post, ← Ledger.add_append, List.singleton_append]

lemma ledger_absorb {handler : Handler StoreId H HeaderId Header T}
    {l : List (Sent StoreId H HeaderId Header T)}
    (h : handler.store.sent = sys.handler.store.sent ++ l) :
    (sys.absorb handler).ledger = sys.ledger.add l := by
  rw [← ledger_foldl l sys, absorb, h, List.drop_left]
  rfl

lemma received_post (m : Sent StoreId H HeaderId Header T) (p : DeviceId) :
    ((sys.post m).tasks p).received = (sys.tasks p).received := by
  cases m with
  | command peer request =>
    by_cases h : p = peer
    · subst h
      simp [post, setTask]
    · simp [post, setTask, Function.update_of_ne h]
  | syncResponse _ peer => cases peer <;> rfl
  | _ => rfl

lemma received_foldl (l : List (Sent StoreId H HeaderId Header T))
    (sys : System StoreId H HeaderId Header Body T) (p : DeviceId) :
    ((l.foldl post sys).tasks p).received = (sys.tasks p).received := by
  induction l generalizing sys with
  | nil => rfl
  | cons m l ih => rw [List.foldl_cons, ih, received_post]

lemma busy_setTask (sys : System StoreId H HeaderId Header Body T) (peer : DeviceId)
    (task : Task H HeaderId Header Body) : (sys.setTask peer task).ledger =
      { sys.ledger with busy := Function.update sys.ledger.busy peer task.inFlight } := by
  refine Ledger.ext rfl rfl (funext fun p => ?_)
  by_cases h : p = peer
  · subst h
    simp [ledger, setTask]
  · simp [ledger, setTask, Function.update_of_ne h]

lemma ledger_setTask {peer : DeviceId} {task : Task H HeaderId Header Body}
    (h : task.inFlight = (sys.tasks peer).inFlight) : (sys.setTask peer task).ledger = sys.ledger := by
  rw [busy_setTask, h]
  exact Ledger.ext rfl rfl (Function.update_eq_self peer _)

/-! ### Commands on their way -/

/-- The command that an event has the store handle. -/
def offered (sys : System StoreId H HeaderId Header Body T) :
    Event H HeaderId Header Body → Option (Environment × Command H HeaderId Header Body)
  | .external env cmd => some (env, cmd)
  | .registerOutgoing env peer => some (env, .registerOutgoingPeerSyncing peer)
  | .registerIncoming env peer => some (env, .registerIncomingPeerSyncing peer)
  | .receive env peer => (sys.tasks peer).received.head?.map fun cmd => (env, cmd)
  | _ => none

/-- The system without the command that an event has the store handle. -/
def consume (sys : System StoreId H HeaderId Header Body T) :
    Event H HeaderId Header Body → System StoreId H HeaderId Header Body T
  | .registerOutgoing _ peer =>
    { sys with outgoing := Function.update sys.outgoing peer (sys.outgoing peer - 1) }
  | .registerIncoming _ peer =>
    { sys with incoming := Function.update sys.incoming peer (sys.incoming peer - 1) }
  | .receive _ peer =>
    sys.setTask peer { sys.tasks peer with received := (sys.tasks peer).received.tail }
  | _ => sys

lemma consume_handler (ev : Event H HeaderId Header Body) :
    (sys.consume ev).handler = sys.handler := by
  cases ev <;> rfl

lemma Orderly.inFlight_consume {env : Environment} {cmd : Command H HeaderId Header Body}
    {ev : Event H HeaderId Header Body} (hI : Orderly sys) (hen : sys.enabled ev = true)
    (ho : sys.offered ev = some (env, cmd)) : cmd.inFlight (sys.consume ev).ledger = sys.ledger := by
  cases ev with
  | external env' cmd' =>
    cases ho
    cases cmd <;> first | rfl | cases hen
  | registerOutgoing env' peer =>
    cases ho
    have hpos : 0 < sys.outgoing peer := of_decide_eq_true hen
    refine Ledger.ext (funext fun p => ?_) rfl rfl
    by_cases h : p = peer
    · subst h
      simp [Command.inFlight, moreOutgoing, ledger, consume]
      omega
    · simp [Command.inFlight, moreOutgoing, ledger, consume, Function.update_of_ne h]
  | registerIncoming env' peer =>
    cases ho
    have hpos : 0 < sys.incoming peer := of_decide_eq_true hen
    refine Ledger.ext rfl (funext fun p => ?_) rfl
    by_cases h : p = peer
    · subst h
      simp [Command.inFlight, moreIncoming, ledger, consume]
      omega
    · simp [Command.inFlight, moreIncoming, ledger, consume, Function.update_of_ne h]
  | receive env' peer =>
    obtain ⟨cmd', hcmd, heq⟩ := Option.map_eq_some_iff.mp ho
    cases heq
    obtain ⟨received, hr⟩ : ∃ received, (sys.tasks peer).received = cmd :: received :=
      List.head?_eq_some_iff.mp hcmd
    rw [inFlight_received (hI.received peer cmd (hr ▸ List.mem_cons_self))]
    refine Ledger.ext rfl rfl (funext fun p => ?_)
    rw [consume, busy_setTask, hr]
    by_cases h : p = peer
    · subst h
      simp only [moreBusy, ledger, Function.update_self, Task.inFlight, hr, List.tail_cons,
        List.length_cons]
      omega
    · simp [moreBusy, ledger, Function.update_of_ne h]
  | take peer => cases ho
  | answer peer cmd => cases ho
  | stop peer => cases ho

lemma received_consume (sys : System StoreId H HeaderId Header Body T)
    (ev : Event H HeaderId Header Body) (p : DeviceId) :
    ((sys.consume ev).tasks p).received ⊆ (sys.tasks p).received := by
  cases ev with
  | receive env' peer =>
    by_cases h : p = peer
    · subst h
      simpa [consume, setTask] using List.tail_subset _
    · simp [consume, setTask, Function.update_of_ne h]
  | _ => exact List.Subset.refl _

lemma receivedFrom_answers {cmd : Command H HeaderId Header Body}
    {request : StoreSyncCommand HeaderId Header} {peer : DeviceId}
    (h : request.answers peer cmd = true) : cmd.receivedFrom = some peer := by
  cases request <;> cases cmd <;> simp_all [StoreSyncCommand.answers, Command.receivedFrom]

lemma Orderly.setTask {peer : DeviceId} {task : Task H HeaderId Header Body} (hI : Orderly sys)
    (htask : task.inFlight = (sys.tasks peer).inFlight)
    (hr : ∀ cmd ∈ task.received, cmd.receivedFrom = some peer) :
    Orderly (sys.setTask peer task) := by
  constructor
  · rw [ledger_setTask htask]
    exact hI.agrees
  · intro p cmd hmem
    by_cases h : p = peer
    · subst h
      simp only [System.setTask, Function.update_self] at hmem
      exact hr cmd hmem
    · simp only [System.setTask, Function.update_of_ne h] at hmem
      exact hI.received p cmd hmem

lemma orderly_start {handler : Handler StoreId H HeaderId Header T}
    (h : handler.store.peers = ∅) :
    Orderly (start handler : System StoreId H HeaderId Header Body T) := by
  constructor
  · intro p
    show AgreesAt handler.store.peers[p]? _ p
    rw [h]
    exact ⟨rfl, rfl, rfl⟩
  · intro p cmd hmem
    cases hmem

/-! ### Runs -/

variable [Hash H] [DecidableEq H] [DecidableEq StoreId]
variable [ECGHeader Header HeaderId] [CRDT T Op (OperationId HeaderId)]
variable {OT : OssaType StoreId H HeaderId Body T Op} {ev : Event H HeaderId Header Body}
variable {env : Environment} {cmd : Command H HeaderId Header Body}

lemma next_of_offered (ho : sys.offered ev = some (env, cmd)) :
    sys.next OT ev = (sys.consume ev).command OT env cmd := by
  cases ev with
  | receive env' peer =>
    obtain ⟨cmd', hcmd, heq⟩ := Option.map_eq_some_iff.mp ho
    cases heq
    obtain ⟨received, hr⟩ : ∃ received, (sys.tasks peer).received = cmd :: received :=
      List.head?_eq_some_iff.mp hcmd
    simp only [next, consume, hr, List.tail_cons]
  | external env' cmd' => cases ho; rfl
  | registerOutgoing env' peer => cases ho; rfl
  | registerIncoming env' peer => cases ho; rfl
  | _ => cases ho

lemma next_command (ho : sys.offered ev = some (env, cmd)) (h : sys.next OT ev = .ok sys') :
    ∃ handler : Handler StoreId H HeaderId Header T,
      Handler.handleStore OT env sys.handler.listeners sys.handler.store cmd = .ok handler.store ∧
        sys' = (sys.consume ev).absorb handler := by
  rw [next_of_offered ho] at h
  obtain ⟨handler, hh, heq⟩ := bind_eq_ok.mp h
  cases heq
  have hstore := (Handler.handleStore_of_handle hh).1
  rw [consume_handler] at hstore
  exact ⟨handler, hstore, rfl⟩

lemma handler_of_not_offered (ho : sys.offered ev = none) (h : sys.next OT ev = .ok sys') :
    sys'.handler = sys.handler := by
  cases ev with
  | external env cmd => cases ho
  | registerOutgoing env peer => cases ho
  | registerIncoming env peer => cases ho
  | take peer => simp only [next] at h; split at h <;> cases h <;> rfl
  | answer peer cmd => cases h; rfl
  | stop peer => cases h; rfl
  | receive env peer =>
    have hr : (sys.tasks peer).received = [] := by simpa [System.offered] using ho
    simp only [next, hr] at h
    cases h
    rfl

lemma Orderly.command (hI : Orderly sys) (hen : sys.enabled ev = true)
    (ho : sys.offered ev = some (env, cmd)) (h : sys.next OT ev = .ok sys') : Orderly sys' := by
  obtain ⟨handler, hstore, rfl⟩ := next_command ho h
  have hagrees := hI.agrees
  rw [← hI.inFlight_consume hen ho] at hagrees
  obtain ⟨l, hl, hagrees⟩ := handleStore_agrees hagrees hstore
  constructor
  · rw [ledger_absorb (hl.trans (by rw [consume_handler]))]
    exact hagrees
  · intro p cmd' hmem
    refine hI.received p cmd' (received_consume sys ev p ?_)
    rwa [← received_foldl _ (sys.consume ev) p]

/-- **Every event keeps the order**, unless it stops a task. -/
theorem Orderly.step (hI : Orderly sys) (hen : sys.enabled ev = true) (hstop : ev.isStop = false)
    (h : sys.next OT ev = .ok sys') : Orderly sys' := by
  cases ev with
  | external env cmd => exact hI.command hen rfl h
  | registerOutgoing env peer => exact hI.command hen rfl h
  | registerIncoming env peer => exact hI.command hen rfl h
  | receive env peer =>
    cases hr : (sys.tasks peer).received with
    | nil => simp [enabled, hr] at hen
    | cons cmd received =>
      exact hI.command hen (show sys.offered _ = some (env, cmd) by simp [offered, hr]) h
  | take peer =>
    cases hc : (sys.tasks peer).current with
    | idle =>
      cases hq : (sys.tasks peer).queue with
      | nil => simp [enabled, hc, hq] at hen
      | cons request queue =>
        simp only [next, hq] at h
        cases h
        refine hI.setTask ?_ (hI.received peer)
        simp [Task.inFlight, hc, hq, Current.count]
    | running _ => simp [enabled, hc] at hen
    | stopped => simp [enabled, hc] at hen
  | answer peer cmd =>
    cases hc : (sys.tasks peer).current with
    | running request =>
      cases h
      simp only [enabled, hc] at hen
      refine hI.setTask ?_ fun cmd' hmem => ?_
      · simp only [Task.inFlight, hc, Current.count, List.length_append, List.length_singleton]
        omega
      · rcases List.mem_append.mp hmem with hmem | hmem
        · exact hI.received peer cmd' hmem
        · rw [List.mem_singleton.mp hmem]
          exact receivedFrom_answers hen
    | idle => simp [enabled, hc] at hen
    | stopped => simp [enabled, hc] at hen
  | stop peer => cases hstop

lemma orderly_run {handler : Handler StoreId H HeaderId Header T} (h0 : handler.store.peers = ∅)
    (hrun : Run OT (fun _ ev => ev.isStop = false) (start handler) sys) : Orderly sys := by
  induction hrun with
  | refl => exact orderly_start h0
  | step ev _ hen hstop hnext ih => exact ih.step hen hstop hnext

/-- The statuses of peers move one step at a time, whatever happens. -/
lemma advances_next (h : sys.next OT ev = .ok sys') :
    sys.handler.store.Advances sys'.handler.store := by
  cases ho : sys.offered ev with
  | some c =>
    obtain ⟨env, cmd⟩ := c
    obtain ⟨handler, hstore, rfl⟩ := next_command ho h
    exact handleStore_advances hstore
  | none =>
    rw [handler_of_not_offered ho h]
    exact (SameRanks.refl _).advances

lemma isOk_of_not_offered (ho : sys.offered ev = none) : ∃ sys', sys.next OT ev = .ok sys' := by
  cases ev with
  | external env cmd => cases ho
  | registerOutgoing env peer => cases ho
  | registerIncoming env peer => cases ho
  | take peer => simp only [next]; split <;> exact ⟨_, rfl⟩
  | answer peer cmd => exact ⟨_, rfl⟩
  | stop peer => exact ⟨_, rfl⟩
  | receive env peer =>
    have hr : (sys.tasks peer).received = [] := by simpa [System.offered] using ho
    simp only [next, hr]
    exact ⟨_, rfl⟩

omit [DecidableEq H] [DecidableEq StoreId] [ECGHeader Header HeaderId]
  [CRDT T Op (OperationId HeaderId)] in
lemma Orderly.exists_statusCall (hI : sys.Orderly) (hen : sys.enabled ev = true)
    (ho : sys.offered ev = some (env, cmd)) :
    ∃ s, statusCall OT env sys.handler.store cmd = .ok s := by
  have hagrees := hI.agrees
  rw [← hI.inFlight_consume hen ho] at hagrees
  exact Store.exists_statusCall hagrees

/-- **No event ends in a bare `panic!()`**, unless `CRDT::apply` does. -/
lemma Orderly.not_barePanic (hI : sys.Orderly) (hen : sys.enabled ev = true)
    (hT : ∀ st (t : T) (op : Op), CRDT.apply st t op ≠ (.error barePanic : Exec T)) :
    sys.next OT ev ≠ .error barePanic := by
  intro h
  cases ho : sys.offered ev with
  | none =>
    obtain ⟨sys', hok⟩ : ∃ sys', sys.next OT ev = .ok sys' := isOk_of_not_offered ho
    cases hok.symm.trans h
  | some c =>
    obtain ⟨env, cmd⟩ := c
    rw [next_of_offered ho] at h
    obtain ⟨s, hs⟩ : ∃ s, statusCall OT env sys.handler.store cmd = .ok s :=
      hI.exists_statusCall hen ho
    have hfaults : FaultsIn (· ≠ barePanic) ((sys.consume ev).command OT env cmd) := by
      refine .bind (.bind (faultsIn_handleStore (fun _ he => he) (fun st t op e he hbare =>
        hT st t op (hbare ▸ he)) ?_) fun _ => .bind (.ite (faultsIn_ok _) ?_) fun _ =>
          faultsIn_ok _) fun _ => faultsIn_ok _
      · rw [consume_handler, hs]
        exact faultsIn_ok s
      · exact faultsIn_error.mpr (by decide)
    exact hfaults _ h rfl

section Counter

open V0

local instance : Hash UInt8 := tableHash counterTable

/-- Peer 1 is asked for the metadata and answers. -/
def answered : List (Event UInt8 ℕ TestHeader (List ℕ)) :=
  [.external calm (.registerPeers [1]), .registerOutgoing calm 1, .take 1,
    .answer 1 (.receivedMetadata 1 counterMetadata)]

/-- Peer 1 is asked for the metadata, and refuses. -/
def refused : List (Event UInt8 ℕ TestHeader (List ℕ)) :=
  [.external calm (.registerPeers [1]), .registerOutgoing calm 1, .take 1, .stop 1]

lemma answered_isOk : (exec counterType (start counterDownload) answered).isOk = true := by
  decide +kernel

lemma refused_isOk : (exec counterType (start counterDownload) refused).isOk = true := by
  decide +kernel

end Counter

end System

end Ossa.Store
