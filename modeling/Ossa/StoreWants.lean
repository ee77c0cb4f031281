import Ossa.StoreForward
import Ossa.StoreReceivers

/-!
What the peers of a store are asked for, and that every one of them is asked.

A request that is in flight is in the queue of a task, being run, or answered and not handled.
The list of what is in flight with a peer changes only when the store sends a request, at its
end, and when it handles an answer, at its head. A peer gets ready when it registers or answers,
and the round of requests that follows leaves nobody ready.
-/

namespace Ossa.Store

open Ossa.Loop Ossa.Util Ossa.Util.MerkleTree Ossa.Collections Ossa.Ecg Ossa.Crdt State

variable {StoreId H HeaderId Header Body T Op : Type} [LinearOrder HeaderId]

/-! ### What is asked for -/

/-- What a request asks for. -/
inductive Want
  | metadata
  | nodes (ranges : List Range)
  | blocks (ranges : List Range)
  | operations
  deriving DecidableEq

def StoreSyncCommand.want : StoreSyncCommand HeaderId Header → Want
  | .metadataHeaderRequest => .metadata
  | .merkleRequest ranges => .nodes ranges
  | .initialStateBlockRequest ranges => .blocks ranges
  | .ecgSyncRequest _ => .operations

/-- What a command brings that was asked for. -/
def Command.brings : Command H HeaderId Header Body → Option Want
  | .receivedMetadata _ _ => some .metadata
  | .receivedMerkleHashes _ ranges _ => some (.nodes ranges)
  | .receivedInitialStateBlocks _ ranges _ => some (.blocks ranges)
  | .receivedECGOperations _ _ => some .operations
  | _ => none

lemma brings_of_answers {r : StoreSyncCommand HeaderId Header} {peer : DeviceId}
    {cmd : Command H HeaderId Header Body} (h : r.answers peer cmd = true) :
    cmd.brings = some r.want := by
  cases r <;> cases cmd <;> simp_all [StoreSyncCommand.answers, Command.brings,
    StoreSyncCommand.want]

lemma isSome_brings {cmd : Command H HeaderId Header Body} :
    cmd.brings.isSome = true ↔ ∃ peer, cmd.receivedFrom = some peer := by
  cases cmd <;> simp [Command.brings, Command.receivedFrom]

/-! ### What is in flight -/

def Current.wants : Current HeaderId Header → List Want
  | .running r => [r.want]
  | _ => []

/-- What is in flight with a peer, oldest first. -/
def Task.wants (task : Task H HeaderId Header Body) : List Want :=
  task.received.filterMap Command.brings ++ task.current.wants ++ task.queue.map (·.want)

/-- What the messages ask a peer for. -/
def asked (p : DeviceId) (l : List (Sent StoreId H HeaderId Header T)) : List Want :=
  l.filterMap fun
    | .command peer r => if peer = p then some r.want else none
    | _ => none

@[simp] lemma asked_nil (p : DeviceId) :
    asked p ([] : List (Sent StoreId H HeaderId Header T)) = [] := rfl

lemma asked_append (p : DeviceId) (l l' : List (Sent StoreId H HeaderId Header T)) :
    asked p (l ++ l') = asked p l ++ asked p l' := List.filterMap_append ..

lemma asked_of_quiet {l : List (Sent StoreId H HeaderId Header T)}
    (h : ∀ p r, Sent.command p r ∉ l) (p : DeviceId) : asked p l = [] := by
  refine List.filterMap_eq_nil_iff.mpr fun m hm => ?_
  cases m with
  | command q r => exact absurd hm (h q r)
  | _ => rfl

namespace System

variable {sys sys' : System StoreId H HeaderId Header Body T}

lemma wants_post (sys : System StoreId H HeaderId Header Body T)
    (m : Sent StoreId H HeaderId Header T) (p : DeviceId) :
    ((sys.post m).tasks p).wants = (sys.tasks p).wants ++ asked p [m] := by
  cases m with
  | command peer request =>
    by_cases h : peer = p
    · subst h
      simp [post, setTask, Task.wants, asked]
    · simp [post, setTask, Function.update_of_ne (Ne.symm h), asked, h]
  | syncResponse _ peer => cases peer <;> exact (List.append_nil _).symm
  | _ => exact (List.append_nil _).symm

lemma wants_absorb {handler : Handler StoreId H HeaderId Header T}
    {l : List (Sent StoreId H HeaderId Header T)}
    (h : handler.store.sent = sys.handler.store.sent ++ l) (p : DeviceId) :
    ((sys.absorb handler).tasks p).wants = (sys.tasks p).wants ++ asked p l := by
  have hfold : ∀ (l : List (Sent StoreId H HeaderId Header T))
      (t : System StoreId H HeaderId Header Body T),
      ((l.foldl System.post t).tasks p).wants = (t.tasks p).wants ++ asked p l := by
    intro l
    induction l with
    | nil => simp
    | cons m l ih =>
      intro t
      rw [List.foldl_cons, ih, wants_post, List.append_assoc, ← asked_append,
        List.singleton_append]
  rw [System.absorb, h, List.drop_left]
  exact hfold l sys

lemma wants_consume_receive {env : Environment} {peer : DeviceId}
    {cmd : Command H HeaderId Header Body} {received : List (Command H HeaderId Header Body)}
    {w : Want} (hr : (sys.tasks peer).received = cmd :: received) (hw : cmd.brings = some w) :
    (sys.tasks peer).wants = w :: ((sys.consume (.receive env peer)).tasks peer).wants := by
  simp [consume, setTask, Task.wants, hr, hw]

lemma wants_consume_ne (ev : Event H HeaderId Header Body) {p : DeviceId}
    (h : ∀ env, ev ≠ .receive env p) :
    ((sys.consume ev).tasks p).wants = (sys.tasks p).wants := by
  cases ev with
  | receive env peer =>
    have hne : p ≠ peer := by
      rintro rfl
      exact h env rfl
    simp [consume, setTask, Function.update_of_ne hne]
  | _ => rfl

lemma Orderly.length_wants (h : sys.Orderly) (p : DeviceId) :
    (sys.tasks p).wants.length = (sys.tasks p).inFlight := by
  have hreceived : ((sys.tasks p).received.filterMap Command.brings).length =
      (sys.tasks p).received.length := by
    rw [List.length_filterMap_eq_countP, List.countP_eq_length]
    exact fun cmd hmem => isSome_brings.mpr ⟨p, h.received p cmd hmem⟩
  have hcurrent : (sys.tasks p).current.wants.length = (sys.tasks p).current.count := by
    cases (sys.tasks p).current <;> rfl
  simp only [Task.wants, Task.inFlight, List.length_append, List.length_map, hreceived, hcurrent]
  omega

end System

/-! ### One round of requests -/

section Round

variable {s s' : State StoreId H HeaderId Header T} {p : DeviceId} {rng : Rng}

lemma zip_ne_nil {α β : Type} {l : List α} {m : List β} (hl : l ≠ []) (hm : m ≠ []) :
    l.zip m ≠ [] := by
  obtain ⟨a, l, rfl⟩ := List.exists_cons_of_ne_nil hl
  obtain ⟨b, m, rfl⟩ := List.exists_cons_of_ne_nil hm
  exact List.cons_ne_nil _ _

/-- A round with a ready peer has a request: the store never runs out of things to ask for. -/
lemma syncRequests_ne_nil {reqs : List (DeviceId × StoreSyncCommand HeaderId Header)}
    (h : s.syncRequests rng = .ok reqs) (hp : s.Running p false) : reqs ≠ [] := by
  have hready : rng.shufflePeers s.readyPeers ≠ [] :=
    List.ne_nil_of_mem ((rng.perm_peers _).mem_iff.mpr (mem_readyPeers.mpr hp))
  have hchunks : ∀ {cs : List (List ℕ)}, cs.isEmpty ≠ true → rng.shuffleChunks cs ≠ [] :=
    fun {cs} hcs hnil => hcs (List.isEmpty_iff.mpr (hnil ▸ rng.perm_chunks cs).symm.eq_nil)
  unfold syncRequests at h
  cases hs : s.stateMachine with
  | downloadingMetadata storeId =>
    simp only [hs] at h
    cases h
    obtain ⟨q, l, hl⟩ := List.exists_cons_of_ne_nil hready
    simp [hl]
  | downloadingMerkle metadata tree =>
    simp only [hs] at h
    split_ifs at h with hempty
    cases h
    exact zip_ne_nil hready (by simpa using hchunks hempty)
  | downloadingInitialState metadata tree blocks =>
    simp only [hs] at h
    split_ifs at h with hempty
    cases h
    exact zip_ne_nil hready (by simpa using hchunks hempty)
  | syncing metadata tree initialState ecg latest =>
    simp only [hs] at h
    cases h
    simpa using hready

/-- **A round with one ready peer** asks this peer for one thing, and leaves nobody ready. -/
theorem round_of_one (hp : ∀ q, s.Running q false ↔ q = p)
    (h : s.sendSyncRequests rng = .ok s') : (∃ r, s.syncRequests rng = .ok [(p, r)] ∧
      s'.sent = s.sent ++ [.command p r]) ∧ ∀ q, ¬ s'.Running q false := by
  obtain ⟨reqs, peers, hreqs, rfl, hpeers⟩ := sendSyncRequests_ok h
  obtain ⟨hnodup, hready⟩ := ready_of_syncRequests hreqs
  have hfst : ∀ r ∈ reqs, r.1 = p := fun r hr => (hp r.1).mp (hready _ (List.mem_map_of_mem hr))
  obtain ⟨⟨q, r⟩, l, hl⟩ := List.exists_cons_of_ne_nil
    (syncRequests_ne_nil hreqs ((hp p).mpr rfl))
  have hq : q = p := hfst _ (hl ▸ List.mem_cons_self)
  subst hq
  have hnil : l = [] := by
    refine List.eq_nil_iff_forall_not_mem.mpr fun r' hr' => ?_
    rw [hl, List.map_cons, List.nodup_cons] at hnodup
    refine hnodup.1 (List.mem_map.mpr ⟨r', hr', hfst r' ?_⟩)
    exact hl ▸ List.mem_cons_of_mem _ hr'
  subst hl hnil
  refine ⟨⟨r, hreqs, rfl⟩, fun q' => ?_⟩
  rintro ⟨info, hget, hd⟩
  rw [show (s.AfterPeers peers (commands [(q, r)])).peers = peers from rfl, hpeers] at hget
  split_ifs at hget with hmem
  · obtain ⟨info', -, rfl⟩ := Option.map_eq_some_iff.mp hget
    cases hd
  · exact hmem (by simpa using (hp q').mp ⟨info, hget, hd⟩)

end Round

/-! ### Commands with a round and without -/

section Handler

variable {s s' : State StoreId H HeaderId Header T} {peer p : DeviceId} {b : Bool}

lemma running_insert {info : PeerInfo} {l : List (Sent StoreId H HeaderId Header T)}
    (h : ∀ b, info.outgoingStatus = .syncing ⟨b⟩ ↔ s.Running peer b) :
    (s.AfterPeers (s.peers.insert peer info) l).Running p b ↔ s.Running p b := by
  have hget : (s.AfterPeers (s.peers.insert peer info) l).peers[p]? =
    if p = peer then some info else s.peers[p]? := get_insert
  unfold Running
  rw [hget]
  split_ifs with hp
  · subst hp
    refine Iff.trans ?_ (h b)
    exact ⟨fun ⟨_, heq, hb⟩ => Option.some.inj heq ▸ hb, fun hb => ⟨info, rfl, hb⟩⟩
  · rfl

lemma running_of_get {info : PeerInfo} (hp : s.peers[p]? = some info) :
    s.Running p b ↔ info.outgoingStatus = .syncing ⟨b⟩ :=
  ⟨fun ⟨_, hp', hb⟩ => Option.some.inj (hp.symm.trans hp') ▸ hb, fun hb => ⟨info, hp, hb⟩⟩

lemma running_insertKnownPeers (peers : List DeviceId) :
    (peers.foldl insertKnownPeer s).Running p b ↔ s.Running p b := by
  induction peers generalizing s with
  | nil => rfl
  | cons q peers ih =>
    rw [List.foldl_cons, ih]
    unfold insertKnownPeer
    split_ifs with hc
    · rfl
    · have hnone : s.peers[q]? = none := by simpa using hc
      refine running_insert (l := []) fun b => ⟨fun h => (by cases h), fun ⟨_, hq, _⟩ => ?_⟩
      rw [hnone] at hq
      cases hq

lemma running_managePeers [Hash H] {into : H → StoreId} {connected : DeviceId → Bool}
    (h : s.managePeers into connected = .ok s') : s'.Running p b ↔ s.Running p b := by
  refine foldlM_invariant (I := fun t => t.Running p b ↔ s.Running p b) h Iff.rfl
    fun t t' q _ ht hstep => ?_
  obtain ⟨t₁, hq, heq⟩ := bind_eq_ok.mp hstep
  cases heq
  obtain ⟨info, hget, hd, rfl⟩ := updatePeerToInitializing_ok hq
  refine Iff.trans (running_insert (l := []) fun b => ?_) ht
  rw [running_of_get hget, show info.outgoingStatus = .known from hd]
  exact ⟨fun h => (by cases h), fun h => (by cases h)⟩

lemma running_syncWithPeer {chan : Chan} (h : s.syncWithPeer peer chan = .ok s') :
    s'.Running p b ↔ s.Running p b := by
  obtain ⟨info, -, h⟩ := bind_eq_ok.mp h
  refine Iff.trans ?_ (running_insertKnownPeers [peer])
  split_ifs at h with hk
  · obtain ⟨s₁, hp, heq⟩ := bind_eq_ok.mp h
    cases heq
    obtain ⟨info', hget, -, rfl⟩ := updatePeerToInitializing_ok hp
    exact running_insert (l := []) fun b => (running_of_get hget).symm
  · cases h
    rfl

variable [Hash H] [DecidableEq H] [DecidableEq StoreId]
variable [ECGHeader Header HeaderId] [CRDT T Op (OperationId HeaderId)]
variable {OT : OssaType StoreId H HeaderId Body T Op} {listeners : List Chan} {env : Environment}
variable {cmd : Command H HeaderId Header Body}

lemma running_of_changes (h : Changes OT listeners cmd s s') :
    s'.Running p b ↔ s.Running p b := by
  induction h with
  | refl => rfl
  | tail _ hc ih =>
    refine Iff.trans ?_ ih
    unfold Running
    rw [hc.frame.1]

lemma handleStore_round (hready : cmd.readies = some peer)
    (h : Handler.handleStore OT env listeners s cmd = .ok s') :
    ∃ s₂, s.Quiet s₂ ∧ s₂.sendSyncRequests env.rng = .ok s' ∧ s₂.Running peer false ∧
      ∀ q b, q ≠ peer → (s₂.Running q b ↔ s.Running q b) := by
  have hset : ∀ info : PeerInfo, info.outgoingStatus = .syncing ⟨false⟩ →
      (s.AfterPeers (s.peers.insert peer info) []).Running peer false ∧ ∀ q b, q ≠ peer →
        ((s.AfterPeers (s.peers.insert peer info) []).Running q b ↔ s.Running q b) := by
    intro info hinfo
    refine ⟨⟨info, get_insert.trans (if_pos rfl), hinfo⟩, fun q b hq => ?_⟩
    have hget : (s.AfterPeers (s.peers.insert peer info) []).peers[q]? = s.peers[q]? :=
      get_insert.trans (if_neg hq)
    unfold Running
    rw [hget]
  have hreceived : cmd.receivedFrom = some peer → ∃ s₂, s.Quiet s₂ ∧
      s₂.sendSyncRequests env.rng = .ok s' ∧ s₂.Running peer false ∧
      ∀ q b, q ≠ peer → (s₂.Running q b ↔ s.Running q b) := by
    intro hfrom
    obtain ⟨s₁, s₂, hr, hc, hs⟩ := handleStore_received hfrom h
    obtain ⟨info, b, -, -, rfl⟩ := updateOutgoingPeerToReady_ok hr
    obtain ⟨hself, hother⟩ := hset (setOutstanding false info) rfl
    exact ⟨s₂, quiet_afterPeers.trans (quiet_of_changes hc), hs, (running_of_changes hc).mpr hself,
      fun q b hq => (running_of_changes hc).trans (hother q b hq)⟩
  cases cmd with
  | registerOutgoingPeerSyncing peer' =>
    cases hready
    obtain ⟨s₁, hp, h⟩ := bind_eq_ok.mp h
    obtain ⟨info, -, -, rfl⟩ := updatePeerToSyncing_ok hp
    exact ⟨_, quiet_afterPeers, h, hset _ rfl⟩
  | _ => exact hreceived hready

lemma handleStore_quiet (hready : cmd.readies = none)
    (h : Handler.handleStore OT env listeners s cmd = .ok s') :
    s.Quiet s' ∧ ∀ p b, s'.Running p b ↔ s.Running p b := by
  have hdata : cmd.isData = true → s.Quiet s' ∧ ∀ p b, s'.Running p b ↔ s.Running p b := by
    intro hd
    have hc := changes_of_data hd h
    exact ⟨quiet_of_changes hc, fun p b => running_of_changes hc⟩
  cases cmd with
  | registerPeers peers =>
    have hknown : s.Quiet (peers.foldl insertKnownPeer s) := .of_eq (sent_insertKnownPeers peers s)
    exact ⟨hknown.trans (quiet_managePeers h), fun p b =>
      (running_managePeers h).trans (running_insertKnownPeers peers)⟩
  | syncWithPeer peer chan => exact ⟨quiet_syncWithPeer h, fun p b => running_syncWithPeer h⟩
  | registerIncomingPeerSyncing peer =>
    obtain ⟨info, hget, -, rfl⟩ := updatePeerToSyncing_ok h
    exact ⟨quiet_afterPeers, fun p b => running_insert (l := []) fun b =>
      (running_of_get hget).symm⟩
  | registerOutgoingPeerSyncing _ => cases hready
  | receivedMetadata _ _ => cases hready
  | receivedMerkleHashes _ _ _ => cases hready
  | receivedInitialStateBlocks _ _ _ => cases hready
  | receivedECGOperations _ _ => cases hready
  | apply _ _ => exact hdata rfl
  | subscribeState _ => exact hdata rfl
  | handleMetadataPeerRequest _ _ => exact hdata rfl
  | handleMerklePeerRequest _ _ _ => exact hdata rfl
  | handleBlockPeerRequest _ _ _ => exact hdata rfl
  | subscribeECG _ _ _ => exact hdata rfl

end Handler

/-! ### Runs -/

namespace System

variable {sys sys' : System StoreId H HeaderId Header Body T}
variable [Hash H] [DecidableEq H] [DecidableEq StoreId]
variable [ECGHeader Header HeaderId] [CRDT T Op (OperationId HeaderId)]
variable {OT : OssaType StoreId H HeaderId Body T Op} {ev : Event H HeaderId Header Body}

lemma wants_of_not_offered (hen : sys.enabled ev = true) (hstop : ev.isStop = false)
    (ho : sys.offered ev = none) (h : sys.next OT ev = .ok sys') (p : DeviceId) :
    (sys'.tasks p).wants = (sys.tasks p).wants := by
  have hset : ∀ (peer : DeviceId) (task : Task H HeaderId Header Body),
      task.wants = (sys.tasks peer).wants →
        ((sys.setTask peer task).tasks p).wants = (sys.tasks p).wants := by
    intro peer task htask
    by_cases hp : p = peer
    · subst hp
      simpa [setTask] using htask
    · simp [setTask, Function.update_of_ne hp]
  cases ev with
  | external env cmd => cases ho
  | registerOutgoing env peer => cases ho
  | registerIncoming env peer => cases ho
  | stop peer => cases hstop
  | receive env peer =>
    have hr : (sys.tasks peer).received = [] := by simpa [System.offered] using ho
    simp [enabled, hr] at hen
  | take peer =>
    cases hc : (sys.tasks peer).current with
    | idle =>
      cases hq : (sys.tasks peer).queue with
      | nil => simp [enabled, hc, hq] at hen
      | cons request queue =>
        simp only [next, hq] at h
        cases h
        exact hset peer _ (by simp [Task.wants, hc, hq, Current.wants])
    | running _ => simp [enabled, hc] at hen
    | stopped => simp [enabled, hc] at hen
  | answer peer cmd =>
    cases hc : (sys.tasks peer).current with
    | running request =>
      cases h
      simp only [enabled, hc] at hen
      exact hset peer _ (by simp [Task.wants, hc, Current.wants, brings_of_answers hen])
    | idle => simp [enabled, hc] at hen
    | stopped => simp [enabled, hc] at hen

/-- **What is in flight after a command**: what is left, and what the store has just asked for. -/
lemma wants_of_offered {env : Environment} {cmd : Command H HeaderId Header Body}
    (ho : sys.offered ev = some (env, cmd)) (h : sys.next OT ev = .ok sys') :
    Handler.handleStore OT env sys.handler.listeners sys.handler.store cmd =
        .ok sys'.handler.store ∧
      ∀ l, sys'.handler.store.sent = sys.handler.store.sent ++ l → ∀ p,
        (sys'.tasks p).wants = ((sys.consume ev).tasks p).wants ++ asked p l := by
  obtain ⟨handler, hs, rfl⟩ := next_command ho h
  exact ⟨hs, fun l hl p => wants_absorb (by rwa [consume_handler]) p⟩

omit [Hash H] [DecidableEq H] [DecidableEq StoreId] [ECGHeader Header HeaderId] in
/-- An event that brings no answer leaves what is in flight. -/
lemma wants_consume_of_not_brings {env : Environment} {cmd : Command H HeaderId Header Body}
    (hI : sys.Orderly) (ho : sys.offered ev = some (env, cmd)) (hbrings : cmd.brings = none)
    (p : DeviceId) : ((sys.consume ev).tasks p).wants = (sys.tasks p).wants := by
  refine wants_consume_ne ev ?_
  rintro env' rfl
  obtain ⟨cmd', hcmd, heq⟩ := Option.map_eq_some_iff.mp ho
  cases heq
  have hfrom := hI.received p cmd (List.mem_of_mem_head? hcmd)
  rw [← Option.not_isSome_iff_eq_none] at hbrings
  exact hbrings (isSome_brings.mpr ⟨p, hfrom⟩)

/-- Nobody that the store syncs with waits to be asked for something. -/
def NobodyIdle (sys : System StoreId H HeaderId Header Body T) : Prop :=
  ∀ p, ¬ sys.handler.store.Running p false

theorem NobodyIdle.step (hs : sys.NobodyIdle) (h : sys.next OT ev = .ok sys') :
    sys'.NobodyIdle := by
  cases ho : sys.offered ev with
  | none =>
    rw [NobodyIdle, handler_of_not_offered ho h]
    exact hs
  | some c =>
    obtain ⟨env, cmd⟩ := c
    obtain ⟨hstore, -⟩ := wants_of_offered ho h
    cases hready : cmd.readies with
    | some peer =>
      obtain ⟨s₂, -, hsend, hself, hother⟩ := handleStore_round hready hstore
      refine (round_of_one (p := peer) (fun q => ⟨fun hq => ?_, fun hq => hq ▸ hself⟩) hsend).2
      by_contra hne
      exact hs q ((hother q false hne).mp hq)
    | none =>
      obtain ⟨-, hrunning⟩ := handleStore_quiet hready hstore
      exact fun p hp => hs p ((hrunning p false).mp hp)

omit [Hash H] [DecidableEq H] [DecidableEq StoreId] [ECGHeader Header HeaderId] in
lemma nobodyIdle_start {handler : Handler StoreId H HeaderId Header T}
    (h : handler.store.peers = ∅) :
    (start handler : System StoreId H HeaderId Header Body T).NobodyIdle := by
  rintro p ⟨info, hp, -⟩
  rw [show (start handler : System StoreId H HeaderId Header Body T).handler.store.peers = ∅ from h]
    at hp
  cases hp

omit [Hash H] [DecidableEq H] [DecidableEq StoreId] [ECGHeader Header HeaderId]
  [CRDT T Op (OperationId HeaderId)] in
lemma Orderly.inFlight_cases (hI : sys.Orderly) (p : DeviceId) :
    (∃ b, sys.handler.store.Running p b ∧ (sys.tasks p).inFlight = b.toNat) ∨
      (∀ b, ¬ sys.handler.store.Running p b) ∧ (sys.tasks p).inFlight = 0 := by
  have hagree := hI.agrees p
  cases hget : sys.handler.store.peers[p]? with
  | none =>
    rw [hget] at hagree
    refine Or.inr ⟨fun b ⟨info, hp, _⟩ => ?_, hagree.2.2⟩
    rw [hget] at hp
    cases hp
  | some info =>
    rw [hget] at hagree
    obtain ⟨-, ho⟩ := hagree
    cases hd : info.outgoingStatus with
    | known =>
      rw [hd] at ho
      refine Or.inr ⟨fun b hb => ?_, ho.2⟩
      cases hd.symm.trans ((running_of_get hget).mp hb)
    | initializing =>
      rw [hd] at ho
      refine Or.inr ⟨fun b hb => ?_, ho.2⟩
      cases hd.symm.trans ((running_of_get hget).mp hb)
    | syncing o =>
      rw [hd] at ho
      exact Or.inl ⟨o.isOutstanding, (running_of_get hget).mpr hd, ho.2⟩

lemma nobodyIdle_run {handler : Handler StoreId H HeaderId Header T}
    (h0 : handler.store.peers = ∅)
    (hrun : Run OT (fun _ ev => ev.isStop = false) (start handler) sys) : sys.NobodyIdle := by
  induction hrun with
  | refl => exact nobodyIdle_start h0
  | step ev _ _ _ hnext ih => exact ih.step hnext

/-- **Nobody is forgotten**: as long as no task stops, in every phase, exactly one request is in
flight with every peer that the store syncs with, and none with any other peer. -/
theorem nobody_forgotten {handler : Handler StoreId H HeaderId Header T}
    (h0 : handler.store.peers = ∅)
    (hrun : Run OT (fun _ ev => ev.isStop = false) (start handler) sys) (p : DeviceId) :
    (sys.tasks p).inFlight ≤ 1 ∧
      ((sys.tasks p).inFlight = 1 ↔ ∃ b, sys.handler.store.Running p b) := by
  have hI := orderly_run h0 hrun
  have hidle := nobodyIdle_run h0 hrun
  rcases hI.inFlight_cases p with ⟨b, hp, heq⟩ | ⟨hno, heq⟩
  · have hb : b = true := by
      cases b with
      | true => rfl
      | false => exact absurd hp (hidle p)
    rw [hb] at heq
    exact ⟨heq.le, fun _ => ⟨b, hp⟩, fun _ => heq⟩
  · rw [heq]
    exact ⟨Nat.zero_le 1, fun h => (by cases h), fun ⟨b, hp⟩ => absurd hp (hno b)⟩

/-! Two peers of the counter: one has answered twice, the other has not answered yet. -/

section Counter

open V0

local instance wantsHash : Hash UInt8 := tableHash counterTable

def oneAnswers : List (Event UInt8 ℕ TestHeader (List ℕ)) :=
  [.external calm (.registerPeers [1, 2]), .registerOutgoing calm 1, .registerOutgoing calm 2,
    .take 1, .answer 1 (.receivedMetadata 1 counterMetadata), .receive calm 1, .take 1,
    .answer 1 (.receivedInitialStateBlocks 1 [⟨0, 1⟩] [some [8]]), .receive calm 1]

lemma oneAnswers_isOk : (exec counterType (start counterDownload) oneAnswers).isOk = true := by
  decide +kernel

theorem nobody_forgotten_counter : ((value _ oneAnswers_isOk).tasks 1).inFlight = 1 ∧
    ((value _ oneAnswers_isOk).tasks 2).inFlight = 1 := by
  have hrun := run_of_exec (C := fun _ ev => ev.isStop = false) (fun _ => by decide)
    (eq_ok_value oneAnswers_isOk)
  have hone : (value _ oneAnswers_isOk).handler.store.peers[(1 : DeviceId)]? =
      some ⟨.known, .syncing ⟨true⟩⟩ := by
    decide +kernel
  have htwo : (value _ oneAnswers_isOk).handler.store.peers[(2 : DeviceId)]? =
      some ⟨.known, .syncing ⟨true⟩⟩ := by
    decide +kernel
  exact ⟨(nobody_forgotten rfl hrun 1).2.mpr ⟨true, _, hone, rfl⟩,
    (nobody_forgotten rfl hrun 2).2.mpr ⟨true, _, htwo, rfl⟩⟩

end Counter

end System

end Ossa.Store
