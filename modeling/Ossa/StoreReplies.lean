import Ossa.StoreNotices

/-!
Every request of a peer is answered once.

The requests of peers come in any order with the commands of the store's own download. In runs
in which the metadata that the store accepts has `n` blocks and the blocks it accepts are full,
a request is answered at once, or its channel is registered until one later answer. Blocks are
not checked for their length, and after short ones a peer that waits for a block past the end
stops the store.
-/

namespace Ossa.Store

open Ossa.Loop Ossa.Util Ossa.Util.MerkleTree Ossa.Collections Ossa.Ecg Ossa.Crdt

variable {StoreId H HeaderId Header Body T Op : Type} [LinearOrder HeaderId]
variable [Hash H] [DecidableEq H] [DecidableEq StoreId]
variable [ECGHeader Header HeaderId] [CRDT T Op (OperationId HeaderId)]
variable {OT : OssaType StoreId H HeaderId Body T Op} {env : Environment} {n : ℕ}

omit [Hash H] [DecidableEq H] [DecidableEq StoreId] [ECGHeader Header HeaderId]
  [CRDT T Op (OperationId HeaderId)] in
lemma waits_newDownloading (storeId : StoreId) :
    (State.newDownloading storeId : State StoreId H HeaderId Header T).Waits where
  tabled := ⟨fun h => absurd rfl h, fun h => absurd rfl h, fun h => absurd rfl h⟩
  accounted := by
    rw [State.Accounted, chans_waiting]
    simp [State.newDownloading, State.ofStateMachine, toList_empty]
  nodup := List.nodup_nil

omit [ECGHeader Header HeaderId] [CRDT T Op (OperationId HeaderId)] in
lemma State.InOrder.exists_immediate {s : State StoreId H HeaderId Header T} (h : s.InOrder n True)
    {peer : DeviceId} {q : PeerRequest} {chan : Chan}
    (hfits : (PeerRequest.command peer chan q :
      Command H HeaderId Header Body).Fits OT n True s) :
    ∃ reply, s.stateMachine.immediate q = .ok reply := by
  cases q with
  | metadata => exact ⟨_, rfl⟩
  | merkle ranges =>
    have hr : ∀ i ∈ flattenRanges ranges, i < 2 * n - 1 := hfits
    cases ht : s.stateMachine.merkleTree with
    | none => exact ⟨none, by simp only [StateMachine.immediate, ht]⟩
    | some tree =>
      have hlen : tree.nodes.length = 2 * n - 1 := by
        have hb := h.blocks
        cases hs : s.stateMachine with
        | downloadingMetadata _ => rw [hs] at ht; cases ht
        | downloadingMerkle _ _ => rw [hs] at ht; cases ht
        | downloadingInitialState _ _ _ => rw [hs] at ht hb; cases ht; exact hb.2.1
        | syncing _ _ _ _ _ => rw [hs] at ht hb; cases ht; exact hb.2.1
      obtain ⟨hashes, hh⟩ := exists_handleMerklePeerRequestHelper hlen hr
      exact ⟨some (.hashes hashes), by simp [StateMachine.immediate, ht, hh]⟩
  | blocks ranges =>
    have hr : True ∧ ∀ i ∈ flattenRanges ranges, i < n := hfits
    obtain ⟨blocks, hb, -⟩ := exists_handleBlockPeerRequestHelper h.blocks trivial hr.2
    exact ⟨blocks.map .blocks, by simp [StateMachine.immediate, hb]⟩

namespace System

variable {sys sys' : System StoreId H HeaderId Header Body T} {ev : Event H HeaderId Header Body}
variable {cmd : Command H HeaderId Header Body}

/-- The command that the store handles, if any, fits it and is polite. -/
def Courteous (OT : OssaType StoreId H HeaderId Body T Op) (n : ℕ)
    (sys : System StoreId H HeaderId Header Body T) (ev : Event H HeaderId Header Body) : Prop :=
  ∀ env cmd, sys.offered ev = some (env, cmd) →
    cmd.Fits OT n True sys.handler.store ∧ cmd.Polite sys.handler.store

/-- But for tasks that have stopped, the system is steady; those that wait are on account. -/
structure Attentive (n : ℕ) (sys : System StoreId H HeaderId Header Body T) : Prop where
  steady : ∃ t, sys.Like t ∧ t.Steady n True
  waits : sys.handler.store.Waits

omit [DecidableEq H] [DecidableEq StoreId] [ECGHeader Header HeaderId]
  [CRDT T Op (OperationId HeaderId)] in
lemma Attentive.inOrder (h : sys.Attentive n) : sys.handler.store.InOrder n True := by
  obtain ⟨t, hlike, ht⟩ := h.steady
  rw [← hlike.handler]
  exact ht.store

omit [DecidableEq H] [DecidableEq StoreId] [ECGHeader Header HeaderId]
  [CRDT T Op (OperationId HeaderId)] in
lemma attentive_start (storeId : StoreId) :
    (start ⟨.newDownloading storeId, []⟩ :
      System StoreId H HeaderId Header Body T).Attentive n where
  steady := ⟨_, .refl _, steady_start storeId []⟩
  waits := waits_newDownloading storeId

theorem Attentive.step (hn : 1 ≤ n) (h : sys.Attentive n) (hen : sys.enabled ev = true)
    (hc : sys.Courteous OT n ev) (hnext : sys.next OT ev = .ok sys') : sys'.Attentive n := by
  obtain ⟨t, hlike, ht⟩ := h.steady
  constructor
  · rcases hlike.next hnext with ⟨-, hlike'⟩ | ⟨hstop, t', ht', hlike'⟩
    · exact ⟨t, hlike', ht⟩
    · refine ⟨t', hlike', ht.step hn (hlike.enabled hen) ⟨hstop, fun env cmd ho => ?_⟩ ht'⟩
      rw [hlike.handler]
      exact (hc env cmd ((hlike.offered ev).symm.trans ho)).1
  · cases ho : sys.offered ev with
    | some c =>
      obtain ⟨env, cmd⟩ := c
      obtain ⟨handler, hs, rfl⟩ := next_command ho hnext
      exact h.waits.handleStore (hc env cmd ho).2 hs
    | none => rw [handler_of_not_offered ho hnext]; exact h.waits

theorem attentive_run {storeId : StoreId} (hn : 1 ≤ n)
    (hrun : Run OT (Courteous OT n) (start ⟨.newDownloading storeId, []⟩) sys) :
    sys.Attentive n := by
  induction hrun with
  | refl => exact attentive_start storeId
  | step ev _ hen hc hnext ih => exact ih.step hn hen hc hnext

lemma Attentive.request (h : sys.Attentive n) (hc : sys.Courteous OT n ev) {peer : DeviceId}
    {q : PeerRequest} {chan : Chan}
    (ho : sys.offered ev = some (env, PeerRequest.command peer chan q))
    (halive : env.alive (.response chan) = true) :
    ∃ sys' reply, sys.next OT ev = .ok sys' ∧
      sys.handler.store.stateMachine.immediate q = .ok reply ∧
      sys'.handler.store = sys.handler.store.respond peer chan q reply := by
  obtain ⟨reply, hi⟩ := h.inOrder.exists_immediate (hc env _ ho).1
  have hs : Handler.handleStore OT env sys.handler.listeners sys.handler.store
      (PeerRequest.command peer chan q) = .ok (sys.handler.store.respond peer chan q reply) := by
    rw [handleStore_request, hi]
    rfl
  have hhandle := Handler.handle_of_handleStore hs fun m hm => by
    rw [State.sent_respond, List.drop_left, List.mem_singleton] at hm
    rwa [hm]
  rw [next_of_offered ho, System.command, consume_handler, hhandle]
  exact ⟨_, reply, rfl, hi, rfl⟩

lemma Attentive.download (hn : 1 ≤ n) (h : sys.Attentive n) (hen : sys.enabled ev = true)
    (hc : sys.Courteous OT n ev) (ho : sys.offered ev = some (env, cmd))
    (hd : cmd.isDownload = true) (hheard : sys.handler.Heard env cmd) :
    (∃ sys', sys.next OT ev = .ok sys') ∨ sys.next OT ev = .error unparsed := by
  obtain ⟨t, hlike, ht⟩ := h.steady
  have hstop : ev.isStop = false := by
    cases ev with
    | stop peer => cases ho
    | _ => rfl
  have ho' : t.offered ev = some (env, cmd) := (hlike.offered ev).trans ho
  have hm : t.Meets OT n True ev := ⟨hstop, fun env' cmd' ho' => by
    rw [hlike.handler]
    exact (hc env' cmd' ((hlike.offered ev).symm.trans ho')).1⟩
  -- whether the command is handled depends on the store only
  have hsame : ∀ u : System StoreId H HeaderId Header Body T, u.handler = sys.handler →
      u.offered ev = some (env, cmd) → u.next OT ev =
        (sys.handler.handle OT env cmd).map (u.consume ev).absorb := by
    intro u hu ho
    rw [next_of_offered ho, System.command, consume_handler, hu]
    cases sys.handler.handle OT env cmd <;> rfl
  have hret := ht.returnsOr hn (hlike.enabled hen) hm ho' hd (hlike.handler.symm ▸ hheard)
  rw [hsame t hlike.handler ho'] at hret
  rw [hsame sys rfl ho]
  cases hh : sys.handler.handle OT env cmd with
  | ok handler => exact Or.inl ⟨_, rfl⟩
  | error e =>
    rw [hh] at hret
    rcases hret with ⟨t', heq⟩ | heq
    · cases heq
    · exact Or.inr heq

/-- **Every waiting request is answered once.** In a run in which the metadata that the store
accepts has `n` blocks, with `1 ≤ n`, accepted blocks are full if they are not the last, and
requests are in range and polite: the tables are empty from the transition on that answers them,
every channel is registered or was written to once, each request whose peer is there gets its
answer or waits, no answer of the download that is heard stops the store (but one that completes an
initial state that does not parse), and later answers carry what the phase they are sent in
answers. -/
theorem requests_answered_once {storeId : StoreId} (hn : 1 ≤ n)
    (hrun : Run OT (Courteous OT n) (start ⟨.newDownloading storeId, []⟩) sys) :
    sys.handler.store.Tabled ∧ sys.handler.store.AnsweredOnce ∧
    ∀ ev env cmd, sys.enabled ev = true → sys.Courteous OT n ev →
      sys.offered ev = some (env, cmd) →
      (∀ peer q chan, cmd = PeerRequest.command peer chan q →
        env.alive (.response chan) = true → ∃ sys' reply,
        sys.next OT ev = .ok sys' ∧ sys.handler.store.stateMachine.immediate q = .ok reply ∧
          sys'.handler.store = sys.handler.store.respond peer chan q reply) ∧
      (cmd.isDownload = true → sys.handler.Heard env cmd →
        (∃ sys', sys.next OT ev = .ok sys') ∨ sys.next OT ev = .error unparsed) ∧
      ∀ sys', sys.next OT ev = .ok sys' → sys.handler.store.Serves sys'.handler.store := by
  have h := attentive_run hn hrun
  refine ⟨h.waits.tabled, h.waits.answeredOnce, fun ev env cmd hen hc ho => ⟨?_, ?_, ?_⟩⟩
  · rintro peer q chan rfl halive
    exact h.request hc ho halive
  · exact h.download hn hen hc ho
  · intro sys' hnext
    obtain ⟨handler, hs, rfl⟩ := next_command ho hnext
    exact h.inOrder.serves (hc env cmd ho).1 hs

/-! A counter, and a store whose two blocks are shorter than blocks are. -/

section Counter

open V0

local instance repliesHash : Hash UInt8 := tableHash counterTable

/-- A request of this peer on this channel is polite. -/
def politeFrom (s : State UInt8 UInt8 ℕ TestHeader Counter) (peer : DeviceId) (chan : Chan) :
    Bool :=
  !(s.sent.filterMap Sent.responseChan).contains chan && s.waiting.all fun w => w.1 != peer

/-- Metadata has `n` blocks, and requests are polite and in range of them. -/
def attendsTo (n : ℕ) (s : State UInt8 UInt8 ℕ TestHeader Counter) :
    Command UInt8 ℕ TestHeader (List ℕ) → Bool
  | .receivedMetadata _ metadata => metadata.blockCount == n
  | .handleMetadataPeerRequest peer chan => politeFrom s peer chan
  | .handleMerklePeerRequest peer ranges chan =>
    (flattenRanges ranges).all (fun i => decide (i < 2 * n - 1)) && politeFrom s peer chan
  | .handleBlockPeerRequest peer ranges chan =>
    (flattenRanges ranges).all (fun i => decide (i < n)) && politeFrom s peer chan
  | _ => true

def attends (n : ℕ) (sys : System UInt8 UInt8 ℕ TestHeader (List ℕ) Counter)
    (ev : Event UInt8 ℕ TestHeader (List ℕ)) : Bool :=
  (sys.offered ev).all fun c => attendsTo n sys.handler.store c.2

lemma polite_of_politeFrom {s : State UInt8 UInt8 ℕ TestHeader Counter} {peer : DeviceId}
    {q : PeerRequest} {chan : Chan} (h : politeFrom s peer chan = true) :
    (PeerRequest.command peer chan q : Command UInt8 ℕ TestHeader (List ℕ)).Polite s := by
  obtain ⟨hchan, hfree⟩ := Bool.and_eq_true_iff.mp h
  intro peer' q' chan' heq
  obtain ⟨rfl, rfl⟩ : peer = peer' ∧ chan = chan' := by
    cases q <;> cases q' <;> cases heq <;> exact ⟨rfl, rfl⟩
  refine ⟨by simpa using hchan, fun w hw => ?_⟩
  simpa using List.all_eq_true.mp hfree w hw

lemma courteous_of_attends (sys : System UInt8 UInt8 ℕ TestHeader (List ℕ) Counter)
    (ev : Event UInt8 ℕ TestHeader (List ℕ)) (h : attends 1 sys ev = true) :
    sys.Courteous counterType 1 ev := by
  intro env cmd ho
  rw [attends, ho] at h
  have hpolite : cmd.isRequest = false → cmd.Polite sys.handler.store := by
    rintro hr peer q chan rfl
    cases q <;> cases hr
  cases cmd with
  | receivedMetadata peer metadata => exact ⟨fun _ => eq_of_beq h, hpolite rfl⟩
  | receivedInitialStateBlocks peer ranges blocks =>
    refine ⟨fun _ => ?_, hpolite rfl⟩
    intro i b hmem hv hlt
    omega
  | handleMetadataPeerRequest peer chan =>
    exact ⟨trivial, polite_of_politeFrom (q := .metadata) h⟩
  | handleMerklePeerRequest peer ranges chan =>
    obtain ⟨hr, hp⟩ := Bool.and_eq_true_iff.mp h
    exact ⟨fun i hi => of_decide_eq_true (List.all_eq_true.mp hr i hi),
      polite_of_politeFrom (q := .merkle ranges) hp⟩
  | handleBlockPeerRequest peer ranges chan =>
    obtain ⟨hr, hp⟩ := Bool.and_eq_true_iff.mp h
    exact ⟨⟨trivial, fun i hi => of_decide_eq_true (List.all_eq_true.mp hr i hi)⟩,
      polite_of_politeFrom (q := .blocks ranges) hp⟩
  | _ => exact ⟨trivial, hpolite rfl⟩

/-- Peer 2 waits for the first block; peer 1 answers with the metadata and the block. -/
def waitedFor : List (Event UInt8 ℕ TestHeader (List ℕ)) :=
  [.external calm (.registerPeers [1]), .registerOutgoing calm 1,
    .external calm (.handleBlockPeerRequest 2 [⟨0, 1⟩] 5), .take 1,
    .answer 1 (.receivedMetadata 1 counterMetadata), .receive calm 1, .take 1,
    .answer 1 (.receivedInitialStateBlocks 1 [⟨0, 1⟩] [some [7]]), .receive calm 1]

lemma waitedFor_isOk :
    (execIf counterType (attends 1) (start counterDownload) waitedFor).isOk = true := by
  decide +kernel

theorem requests_answered_once_counter : ∃ sys,
    execIf counterType (attends 1) (start counterDownload) waitedFor = .ok sys ∧
      sys.handler.store.Tabled ∧ sys.handler.store.AnsweredOnce := by
  have hrun := eq_ok_value waitedFor_isOk
  obtain ⟨htabled, honce, -⟩ :=
    requests_answered_once (by decide) (run_of_execIf (fun sys ev _ => courteous_of_attends sys ev) hrun)
  exact ⟨_, hrun, htabled, honce⟩

end Counter

section Short

open V0

/-- What the creator of a store with the blocks `[7]` and `[8]` hashed. -/
def shortTable : List (List UInt8) := [[7], [8], [0, 1]]

local instance shortHash : Hash UInt8 := tableHash shortTable

/-- Metadata of two blocks, the first of which is one byte long. -/
def shortMetadata : MetadataHeader UInt8 := ⟨zeros, .v0, zeros, 16385, 2⟩

def shortDownload : Handler UInt8 UInt8 ℕ TestHeader Counter :=
  ⟨.newDownloading (shortMetadata.storeId counterType.into), []⟩

/-- Peer 2 waits for the second block; peer 1 answers with the metadata, the nodes and the two
blocks. -/
def shortBlocks : List (Event UInt8 ℕ TestHeader (List ℕ)) :=
  [.external calm (.registerPeers [1]), .registerOutgoing calm 1,
    .external calm (.handleBlockPeerRequest 2 [⟨1, 2⟩] 5), .take 1,
    .answer 1 (.receivedMetadata 1 shortMetadata), .receive calm 1, .take 1,
    .answer 1 (.receivedMerkleHashes 1 [⟨1, 3⟩] [0, 1]), .receive calm 1, .take 1,
    .answer 1 (.receivedInitialStateBlocks 1 [⟨0, 2⟩] [some [7], some [8]])]

lemma shortBlocks_isOk :
    (execIf counterType (attends 2) (start shortDownload) shortBlocks).isOk = true := by
  decide +kernel

/-- **A peer that waits for a block is left without an answer after a short block**, and the
store stops. -/
theorem short_block_unanswered :
    ¬ ∀ (evs : List (Event UInt8 ℕ TestHeader (List ℕ)))
      (sys : System UInt8 UInt8 ℕ TestHeader (List ℕ) Counter)
      (ev : Event UInt8 ℕ TestHeader (List ℕ)) (env : Environment)
      (cmd : Command UInt8 ℕ TestHeader (List ℕ)),
      execIf counterType (attends 2) (start shortDownload) evs = .ok sys →
      sys.enabled ev = true → attends 2 sys ev = true → sys.offered ev = some (env, cmd) →
      cmd.isDownload = true → sys.handler.Heard env cmd →
        (∃ sys', sys.next counterType ev = .ok sys') ∨
          sys.next counterType ev = .error unparsed := by
  intro hall
  have hfault : fault? ((value _ shortBlocks_isOk).next counterType (.receive calm 1)) =
      some .outOfBounds := by
    decide +kernel
  have hdownload : ((value _ shortBlocks_isOk).offered (.receive calm 1)).map
      (fun c => c.2.isDownload) = some true := by
    decide +kernel
  obtain ⟨c, hc, hd⟩ := Option.map_eq_some_iff.mp hdownload
  rcases hall shortBlocks _ (.receive calm 1) c.1 c.2 (eq_ok_value shortBlocks_isOk)
    (by decide +kernel) (by decide +kernel) hc hd (heard_of_receive hc fun _ => rfl) with
      ⟨sys', hok⟩ | herror
  · rw [hok] at hfault
    cases hfault
  · rw [herror] at hfault
    exact absurd hfault (by decide)

end Short

end System

end Ossa.Store
