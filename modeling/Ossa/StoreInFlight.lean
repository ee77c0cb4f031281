import Ossa.StoreRequests

/-!
What is in flight between a store and its tasks.

A request that the store sends is one for the phase that the command ends in, and a task hands
back an answer to a request it was sent. So what holds of the requests that are sent, and of
the answers to such requests, holds of all that is in flight.
-/

namespace Ossa.Store

open Ossa.Loop Ossa.Util Ossa.Collections Ossa.Ecg Ossa.Crdt State

variable {StoreId H HeaderId Header Body T Op : Type} [LinearOrder HeaderId]

/-! ### The requests of a command -/

section Requests

variable {s s' : State StoreId H HeaderId Header T} {peer : DeviceId} {listeners : List Chan}
variable {env : Environment} {cmd : Command H HeaderId Header Body}

/-- The messages `s'` has sent and `s` has not are no requests. -/
def State.Quiet (s s' : State StoreId H HeaderId Header T) : Prop :=
  ∃ l, s'.sent = s.sent ++ l ∧ ∀ p r, Sent.command p r ∉ l

lemma State.Quiet.trans {s'' : State StoreId H HeaderId Header T} (h : s.Quiet s')
    (h' : s'.Quiet s'') : s.Quiet s'' := by
  obtain ⟨l, hl, hno⟩ := h
  obtain ⟨l', hl', hno'⟩ := h'
  refine ⟨l ++ l', by rw [hl', hl, List.append_assoc], fun p r hmem => ?_⟩
  exact (List.mem_append.mp hmem).elim (hno p r) (hno' p r)

lemma State.Quiet.of_eq (h : s'.sent = s.sent) : s.Quiet s' :=
  ⟨[], by rw [h, List.append_nil], fun _ _ => List.not_mem_nil⟩

lemma quiet_afterPeers {peers : BTreeMap DeviceId PeerInfo} : s.Quiet (s.AfterPeers peers []) :=
  .of_eq (List.append_nil _)

lemma quiet_send (s : State StoreId H HeaderId Header T) (m : Sent StoreId H HeaderId Header T)
    (hm : ∀ p r, m ≠ .command p r) : s.Quiet (s.send m) :=
  ⟨[m], rfl, fun p r hmem => hm p r (List.mem_singleton.mp hmem).symm⟩

lemma sent_insertKnownPeers (peers : List DeviceId) (s : State StoreId H HeaderId Header T) :
    (peers.foldl insertKnownPeer s).sent = s.sent := by
  induction peers generalizing s with
  | nil => rfl
  | cons p peers ih =>
    obtain ⟨m, hm⟩ := insertKnownPeer_eq s p
    rw [List.foldl_cons, ih, hm, AfterPeers, List.append_nil]

lemma quiet_updatePeerToInitializing {A : Type} {d : PeerInfo.Direction A}
    (h : s.updatePeerToInitializing peer d = .ok s') : s.Quiet s' := by
  obtain ⟨info, -, -, rfl⟩ := updatePeerToInitializing_ok h
  exact quiet_afterPeers

lemma quiet_managePeers [Hash H] {into : H → StoreId} {connected : DeviceId → Bool}
    (h : s.managePeers into connected = .ok s') : s.Quiet s' := by
  refine foldlM_invariant (I := s.Quiet) h (.of_eq rfl) fun t t' p _ ht hstep => ?_
  obtain ⟨t₁, hp, heq⟩ := bind_eq_ok.mp hstep
  cases heq
  exact ht.trans ((quiet_updatePeerToInitializing hp).trans (quiet_send _ _ (by simp)))

lemma quiet_syncWithPeer {chan : Chan} (h : s.syncWithPeer peer chan = .ok s') : s.Quiet s' := by
  obtain ⟨info, hinfo, h⟩ := bind_eq_ok.mp h
  have hknown : s.Quiet (s.insertKnownPeer peer) := .of_eq (sent_insertKnownPeers [peer] s)
  refine hknown.trans ?_
  split_ifs at h with hk
  · obtain ⟨s₁, hp, heq⟩ := bind_eq_ok.mp h
    cases heq
    exact (quiet_updatePeerToInitializing hp).trans (quiet_send _ _ (by simp))
  · cases h
    exact quiet_send _ _ (by simp)

variable [Hash H] [DecidableEq H] [DecidableEq StoreId]
variable [ECGHeader Header HeaderId] [CRDT T Op (OperationId HeaderId)]
variable {OT : OssaType StoreId H HeaderId Body T Op}

lemma quiet_of_changes (h : Changes OT listeners cmd s s') : s.Quiet s' := by
  induction h with
  | refl => exact .of_eq rfl
  | tail _ hc ih =>
    obtain ⟨-, l, hl, hdata⟩ := hc.frame
    exact ih.trans ⟨l, hl, fun p r hmem => hdata _ hmem trivial⟩

/-- The requests that `s'` has sent and `s` has not are a round of requests for its phase. -/
def State.Requests (rng : Rng) (s s' : State StoreId H HeaderId Header T) : Prop :=
  ∃ l, s'.sent = s.sent ++ l ∧ ∀ p r, Sent.command p r ∈ l →
    ∃ (s₂ : State StoreId H HeaderId Header T) (reqs : _),
      s₂.stateMachine = s'.stateMachine ∧ s₂.syncRequests rng = .ok reqs ∧ (p, r) ∈ reqs

omit [Hash H] [DecidableEq H] [DecidableEq StoreId] [ECGHeader Header HeaderId]
  [CRDT T Op (OperationId HeaderId)] in
lemma State.Quiet.requests (h : s.Quiet s') (rng : Rng) : s.Requests rng s' := by
  obtain ⟨l, hl, hno⟩ := h
  exact ⟨l, hl, fun p r hmem => absurd hmem (hno p r)⟩

omit [Hash H] [DecidableEq H] [DecidableEq StoreId] [ECGHeader Header HeaderId]
  [CRDT T Op (OperationId HeaderId)] in
lemma State.Quiet.sendSyncRequests {rng : Rng} {s'' : State StoreId H HeaderId Header T}
    (h : s.Quiet s') (hs : s'.sendSyncRequests rng = .ok s'') : s.Requests rng s'' := by
  obtain ⟨reqs, peers, hreqs, rfl, -⟩ := sendSyncRequests_ok hs
  obtain ⟨l, hl, hno⟩ := h
  refine ⟨l ++ commands reqs, by rw [AfterPeers, hl, List.append_assoc], fun p r hmem => ?_⟩
  rcases List.mem_append.mp hmem with hmem | hmem
  · exact absurd hmem (hno p r)
  · obtain ⟨req, hreq, heq⟩ := List.mem_map.mp hmem
    cases heq
    exact ⟨s', reqs, rfl, hreqs, hreq⟩

/-- **Every request that a command sends is one for the phase it ends in.** -/
theorem requests_of_handleStore (h : Handler.handleStore OT env listeners s cmd = .ok s') :
    s.Requests env.rng s' := by
  have hreceived : ∀ {peer}, cmd.receivedFrom = some peer → s.Requests env.rng s' := by
    intro peer hfrom
    obtain ⟨s₁, s₂, hr, hc, hs⟩ := handleStore_received hfrom h
    obtain ⟨info, b, -, -, rfl⟩ := updateOutgoingPeerToReady_ok hr
    exact (quiet_afterPeers.trans (quiet_of_changes hc)).sendSyncRequests hs
  cases cmd with
  | registerPeers peers =>
    have hknown : s.Quiet (peers.foldl insertKnownPeer s) := .of_eq (sent_insertKnownPeers peers s)
    exact (hknown.trans (quiet_managePeers h)).requests _
  | syncWithPeer peer chan => exact (quiet_syncWithPeer h).requests _
  | registerOutgoingPeerSyncing peer =>
    obtain ⟨s₁, hp, h⟩ := bind_eq_ok.mp h
    obtain ⟨info, -, -, rfl⟩ := updatePeerToSyncing_ok hp
    exact quiet_afterPeers.sendSyncRequests h
  | registerIncomingPeerSyncing peer =>
    obtain ⟨info, -, -, rfl⟩ := updatePeerToSyncing_ok h
    exact quiet_afterPeers.requests _
  | receivedMetadata peer _ => exact hreceived rfl
  | receivedMerkleHashes peer _ _ => exact hreceived rfl
  | receivedInitialStateBlocks peer _ _ => exact hreceived rfl
  | receivedECGOperations peer _ => exact hreceived rfl
  | apply _ _ => exact (quiet_of_changes (changes_of_data rfl h)).requests _
  | subscribeState _ => exact (quiet_of_changes (changes_of_data rfl h)).requests _
  | handleMetadataPeerRequest _ _ => exact (quiet_of_changes (changes_of_data rfl h)).requests _
  | handleMerklePeerRequest _ _ _ => exact (quiet_of_changes (changes_of_data rfl h)).requests _
  | handleBlockPeerRequest _ _ _ => exact (quiet_of_changes (changes_of_data rfl h)).requests _
  | subscribeECG _ _ _ => exact (quiet_of_changes (changes_of_data rfl h)).requests _

end Requests

/-! ### All that is in flight -/

/-- The requests of a task meet `P`, its answers meet `Q`. -/
structure Task.All (P : StoreSyncCommand HeaderId Header → Prop)
    (Q : Command H HeaderId Header Body → Prop) (task : Task H HeaderId Header Body) : Prop where
  queue : ∀ r ∈ task.queue, P r
  current {r : StoreSyncCommand HeaderId Header} : task.current = .running r → P r
  received : ∀ cmd ∈ task.received, Q cmd

namespace System

variable {sys sys' : System StoreId H HeaderId Header Body T} {peer : DeviceId}
variable {P P' : StoreSyncCommand HeaderId Header → Prop}
variable {Q Q' : Command H HeaderId Header Body → Prop}

/-- All that is in flight meets `P` and `Q`. -/
def InFlight (P : StoreSyncCommand HeaderId Header → Prop)
    (Q : Command H HeaderId Header Body → Prop) (sys : System StoreId H HeaderId Header Body T) :
    Prop := ∀ p, (sys.tasks p).All P Q

/-- All that is in flight with a peer meets what it is to meet for this peer. -/
def InFlightWith (P : DeviceId → StoreSyncCommand HeaderId Header → Prop)
    (Q : DeviceId → Command H HeaderId Header Body → Prop)
    (sys : System StoreId H HeaderId Header Body T) : Prop := ∀ p, (sys.tasks p).All (P p) (Q p)

lemma inFlight_start (handler : Handler StoreId H HeaderId Header T) :
    (start handler : System StoreId H HeaderId Header Body T).InFlight P Q := fun _ =>
  ⟨fun _ hr => absurd hr List.not_mem_nil, fun hr => (by cases hr),
    fun _ hc => absurd hc List.not_mem_nil⟩

lemma InFlight.mono (h : sys.InFlight P Q) (hP : ∀ r, P r → P' r) (hQ : ∀ cmd, Q cmd → Q' cmd) :
    sys.InFlight P' Q' := fun p =>
  ⟨fun r hr => hP r ((h p).queue r hr), fun hr => hP _ ((h p).current hr),
    fun cmd hc => hQ cmd ((h p).received cmd hc)⟩

section With

variable {P P' : DeviceId → StoreSyncCommand HeaderId Header → Prop}
variable {Q Q' : DeviceId → Command H HeaderId Header Body → Prop}

lemma inFlightWith_start (handler : Handler StoreId H HeaderId Header T) :
    (start handler : System StoreId H HeaderId Header Body T).InFlightWith P Q := fun _ =>
  ⟨fun _ hr => absurd hr List.not_mem_nil, fun hr => (by cases hr),
    fun _ hc => absurd hc List.not_mem_nil⟩

lemma InFlightWith.mono (h : sys.InFlightWith P Q) (hP : ∀ p r, P p r → P' p r)
    (hQ : ∀ p cmd, Q p cmd → Q' p cmd) : sys.InFlightWith P' Q' := fun p =>
  ⟨fun r hr => hP p r ((h p).queue r hr), fun hr => hP p _ ((h p).current hr),
    fun cmd hc => hQ p cmd ((h p).received cmd hc)⟩

lemma InFlightWith.setTask (h : sys.InFlightWith P Q) {task : Task H HeaderId Header Body}
    (ht : task.All (P peer) (Q peer)) : (sys.setTask peer task).InFlightWith P Q := by
  intro p
  simp only [System.setTask, Function.update_apply]
  split_ifs with hp
  · rw [hp]
    exact ht
  · exact h p

lemma InFlightWith.post (h : sys.InFlightWith P Q) {m : Sent StoreId H HeaderId Header T}
    (hm : ∀ p r, m = .command p r → P p r) : (sys.post m).InFlightWith P Q := by
  cases m with
  | command peer request =>
    refine h.setTask ⟨fun r hr => ?_, (h peer).current, (h peer).received⟩
    rcases List.mem_append.mp hr with hr | hr
    · exact (h peer).queue r hr
    · rw [List.mem_singleton.mp hr]
      exact hm peer request rfl
  | syncResponse _ peer => cases peer <;> exact h
  | requestStoreSync _ _ => exact h
  | response _ _ => exact h
  | notice _ _ => exact h
  | ecg _ _ => exact h
  | stateUpdate _ _ => exact h

lemma InFlightWith.absorb (h : sys.InFlightWith P Q)
    {handler : Handler StoreId H HeaderId Header T}
    {l : List (Sent StoreId H HeaderId Header T)}
    (hl : handler.store.sent = sys.handler.store.sent ++ l)
    (hm : ∀ p r, .command p r ∈ l → P p r) : (sys.absorb handler).InFlightWith P Q := by
  have hfold : ∀ (l : List (Sent StoreId H HeaderId Header T))
      (t : System StoreId H HeaderId Header Body T), t.InFlightWith P Q →
      (∀ p r, .command p r ∈ l → P p r) → (l.foldl System.post t).InFlightWith P Q := by
    intro l
    induction l with
    | nil => exact fun t ht _ => ht
    | cons m l ih =>
      intro t ht hm
      exact ih _ (ht.post fun p r heq => hm p r (heq ▸ List.mem_cons_self))
        fun p r hmem => hm p r (List.mem_cons_of_mem _ hmem)
  rw [System.absorb, hl, List.drop_left]
  exact hfold l sys h hm

lemma InFlightWith.consume (h : sys.InFlightWith P Q) (ev : Event H HeaderId Header Body) :
    (sys.consume ev).InFlightWith P Q := by
  cases ev with
  | receive env peer =>
    refine h.setTask ⟨(h peer).queue, (h peer).current, fun cmd hc => ?_⟩
    exact (h peer).received cmd (List.mem_of_mem_tail hc)
  | _ => exact h

lemma InFlightWith.offered (h : sys.InFlightWith P Q) {env env' : Environment}
    {cmd : Command H HeaderId Header Body}
    (ho : sys.offered (.receive env' peer) = some (env, cmd)) : Q peer cmd := by
  obtain ⟨cmd', hcmd, heq⟩ := Option.map_eq_some_iff.mp ho
  cases heq
  exact (h peer).received cmd (List.mem_of_mem_head? hcmd)

end With

lemma InFlight.offered (h : sys.InFlight P Q) {env env' : Environment}
    {cmd : Command H HeaderId Header Body}
    (ho : sys.offered (.receive env' peer) = some (env, cmd)) : Q cmd :=
  InFlightWith.offered (P := fun _ => P) (Q := fun _ => Q) h ho

variable [Hash H] [DecidableEq H] [DecidableEq StoreId]
variable [ECGHeader Header HeaderId] [CRDT T Op (OperationId HeaderId)]
variable {OT : OssaType StoreId H HeaderId Body T Op} {ev : Event H HeaderId Header Body}
variable {env : Environment} {cmd : Command H HeaderId Header Body}

/-- **What holds of requests when they are sent, and passes on to their answers, holds of all
that is in flight.** -/
theorem InFlightWith.step {P : DeviceId → StoreSyncCommand HeaderId Header → Prop}
    {Q : DeviceId → Command H HeaderId Header Body → Prop} (h : sys.InFlightWith P Q)
    (hen : sys.enabled ev = true)
    (hPQ : ∀ peer r cmd, P peer r → r.answers peer cmd = true → Q peer cmd)
    (hnew : ∀ rng (s₂ : State StoreId H HeaderId Header T) reqs,
      s₂.stateMachine = sys'.handler.store.stateMachine → s₂.syncRequests rng = .ok reqs →
        ∀ p r, (p, r) ∈ reqs → .command p r ∈ sys'.handler.store.sent → P p r)
    (hnext : sys.next OT ev = .ok sys') : sys'.InFlightWith P Q := by
  cases ho : sys.offered ev with
  | some c =>
    obtain ⟨env, cmd⟩ := c
    obtain ⟨handler, hs, rfl⟩ := next_command ho hnext
    obtain ⟨l, hl, hreqs⟩ := requests_of_handleStore hs
    refine (h.consume ev).absorb (by rw [consume_handler, hl]) fun p r hmem => ?_
    obtain ⟨s₂, reqs, hsm, hsync, hreq⟩ := hreqs p r hmem
    refine hnew _ s₂ reqs hsm hsync p r hreq ?_
    change Sent.command p r ∈ handler.store.sent
    rw [hl]
    exact List.mem_append_right _ hmem
  | none =>
    cases ev with
    | external env cmd => cases ho
    | registerOutgoing env peer => cases ho
    | registerIncoming env peer => cases ho
    | receive env peer =>
      have hr : (sys.tasks peer).received = [] := by simpa [System.offered] using ho
      simp [enabled, hr] at hen
    | take peer =>
      cases hq : (sys.tasks peer).queue with
      | nil =>
        simp only [next, hq] at hnext
        cases hnext
        exact h
      | cons request queue =>
        simp only [next, hq] at hnext
        cases hnext
        have hmem : ∀ r ∈ request :: queue, P peer r := hq ▸ (h peer).queue
        refine h.setTask ⟨fun r hr => hmem r (List.mem_cons_of_mem _ hr), fun hr => ?_,
          (h peer).received⟩
        cases hr
        exact hmem request List.mem_cons_self
    | answer peer cmd =>
      cases hc : (sys.tasks peer).current with
      | running request =>
        cases hnext
        simp only [enabled, hc] at hen
        refine h.setTask ⟨(h peer).queue, fun hr => (by cases hr), fun cmd' hmem => ?_⟩
        rcases List.mem_append.mp hmem with hmem | hmem
        · exact (h peer).received cmd' hmem
        · rw [List.mem_singleton.mp hmem]
          exact hPQ peer request cmd ((h peer).current hc) hen
      | idle => simp [enabled, hc] at hen
      | stopped => simp [enabled, hc] at hen
    | stop peer =>
      cases hnext
      exact h.setTask ⟨(h peer).queue, fun hr => (by cases hr), (h peer).received⟩

/-- The same, if it does not matter which peer it is. -/
theorem InFlight.step (h : sys.InFlight P Q) (hen : sys.enabled ev = true)
    (hPQ : ∀ peer r cmd, P r → r.answers peer cmd = true → Q cmd)
    (hnew : ∀ rng (s₂ : State StoreId H HeaderId Header T) reqs,
      s₂.stateMachine = sys'.handler.store.stateMachine →
        s₂.syncRequests rng = .ok reqs → ∀ r ∈ reqs, P r.2)
    (hnext : sys.next OT ev = .ok sys') : sys'.InFlight P Q :=
  InFlightWith.step (P := fun _ => P) (Q := fun _ => Q) h hen hPQ
    (fun rng s₂ reqs hsm hsync p r hreq _ => hnew rng s₂ reqs hsm hsync (p, r) hreq) hnext

end System

end Ossa.Store
