import Ossa.StoreReceivers
import Ossa.StorePhases

/-!
A download that never gets stuck.

In a run of a store with its tasks, the answers of peers are answers to the store's own
requests, with whatever contents. If the metadata that the store accepts has `n` blocks, with
`1 ≤ n`, then between commands something is missing in every phase, so that the store finds
what to request next, and no answer stops it but one that completes an initial state that does
not parse. Metadata without blocks is accepted as well, and stops the store.
-/

namespace Ossa.Store

open Ossa.Loop Ossa.Util Ossa.Util.MerkleTree Ossa.Collections Ossa.Ecg Ossa.Crdt

variable {StoreId H HeaderId Header Body T Op : Type} [LinearOrder HeaderId]
variable {n : ℕ} {full : Prop} {s s' : State StoreId H HeaderId Header T}
variable {peer : DeviceId} {listeners : List Chan} {cmd : Command H HeaderId Header Body}

/-- The blocks that an answer is for. -/
def Command.blockIds : Command H HeaderId Header Body → List ℕ
  | .receivedInitialStateBlocks _ ranges _ => flattenRanges ranges
  | _ => []

lemma blockIds_of_answers {r : StoreSyncCommand HeaderId Header}
    (h : r.answers peer cmd = true) : cmd.blockIds = r.blockIds := by
  cases r <;> cases cmd <;> simp_all [StoreSyncCommand.answers, Command.blockIds,
    StoreSyncCommand.blockIds]

/-- The answer brings something to download. -/
def Command.isDownload : Command H HeaderId Header Body → Bool
  | .receivedMetadata _ _ => true
  | .receivedMerkleHashes _ _ _ => true
  | .receivedInitialStateBlocks _ _ _ => true
  | _ => false

lemma State.InOrder.touches [Hash H] (h : s.InOrder n full) (ht : s.Touches s') : s'.InOrder n full := by
  obtain ⟨peers, l, -, rfl⟩ := ht
  exact h.afterPeers peers l

variable [Hash H] [DecidableEq H] [DecidableEq StoreId]

/-- The command fits a store with `n` blocks: metadata that it accepts has `n` blocks, blocks
that it accepts are full if they are to be, and peers ask for nodes and blocks that exist. -/
def Command.Fits (OT : OssaType StoreId H HeaderId Body T Op) (n : ℕ) (full : Prop)
    (s : State StoreId H HeaderId Header T) : Command H HeaderId Header Body → Prop
  | .receivedMetadata _ metadata =>
    metadata.validateStoreId OT.into (s.stateMachine.storeId OT.into) = true →
      metadata.blockCount = n
  | .receivedInitialStateBlocks _ ranges blocks =>
    full → s.AcceptsFull n ((flattenRanges ranges).zip blocks)
  | .handleMerklePeerRequest _ ranges _ => ∀ i ∈ flattenRanges ranges, i < 2 * n - 1
  | .handleBlockPeerRequest _ ranges _ => full ∧ ∀ i ∈ flattenRanges ranges, i < n
  | _ => True

variable [ECGHeader Header HeaderId] [CRDT T Op (OperationId HeaderId)]
variable {OT : OssaType StoreId H HeaderId Body T Op} {env : Environment}

/-! ### One command -/

omit [DecidableEq H] [DecidableEq StoreId] [ECGHeader Header HeaderId] in
lemma State.InOrder.tryComplete_ne {metadata : MetadataHeader H} {tree : MerkleTree (Potential H)}
    {merkleTree : MerkleTree H} (h : s.InOrder n full)
    (hs : s.stateMachine = .downloadingMerkle metadata tree) :
    tree.tryComplete ≠ some merkleTree := by
  intro ht
  have hi := h.incomplete
  have hb := h.blocks
  rw [hs] at hi hb
  obtain ⟨k, hk⟩ := List.mem_iff_getElem?.mp hi
  obtain ⟨-, -, root, hsound⟩ := hb
  have hnil := hsound.missingIndices_eq_nil.mpr (by rw [ht]; rfl)
  exact absurd (mem_missingIndices.mpr hk) (hnil ▸ List.not_mem_nil)

lemma State.InOrder.change (h : s.InOrder n full) (hc : Change OT listeners cmd s s')
    (hd : cmd.isDownload = false) (hfits : ∀ t : State StoreId H HeaderId Header T,
      cmd.Fits OT n full t) : s'.InOrder n full := by
  cases hc with
  | metadata peer metadata hv ht => cases hd
  | merkle peer ranges nodes hs ht => cases hd
  | blocks peer ranges theirBlocks hs hb => cases hd
  | complete peer hs ht hn => exact absurd ht (h.tryComplete_ne hs)
  | syncing peer hs hb hn =>
    have hi := h.incomplete
    rw [hs] at hi
    exact absurd hi hb
  | operations peer operations hs hf =>
    have hb := h.blocks
    rw [hs] at hb
    obtain ⟨subs, heq, -⟩ := State.updateListeners_spec (s := s.withPhase _) listeners _ _
      (some peer)
    rw [heq]
    exact ⟨hb, trivial, ⟨h.servable.merkle, h.servable.blocks⟩⟩
  | apply header body hs hi ha =>
    have hb := h.blocks
    rw [hs] at hb
    obtain ⟨subs, heq, -⟩ := State.updateListeners_spec (s := s.withPhase _) listeners _ _ none
    rw [heq]
    exact ⟨hb, trivial, ⟨h.servable.merkle, h.servable.blocks⟩⟩
  | subscribeState chan =>
    exact ⟨h.blocks, h.incomplete, ⟨h.servable.merkle, h.servable.blocks⟩⟩
  | metadataRequest peer chan =>
    rcases s.handleMetadataPeerRequest_cases peer chan with ⟨metadata, -, heq⟩ | ⟨-, heq⟩
    · rw [heq]; exact ⟨h.blocks, h.incomplete, ⟨h.servable.merkle, h.servable.blocks⟩⟩
    · rw [heq]; exact ⟨h.blocks, h.incomplete, ⟨h.servable.merkle, h.servable.blocks⟩⟩
  | merkleRequest peer ranges chan hr =>
    obtain ⟨tree, hashes, -, -, rfl⟩ | ⟨-, rfl⟩ := State.handleMerklePeerRequest_ok hr
    · exact ⟨h.blocks, h.incomplete, ⟨h.servable.merkle, h.servable.blocks⟩⟩
    · refine ⟨h.blocks, h.incomplete, ⟨fun sub hsub => ?_, h.servable.blocks⟩⟩
      rcases mem_toList_insert hsub with rfl | hsub
      · exact hfits s
      · exact h.servable.merkle sub hsub
  | blockRequest peer ranges chan hr =>
    obtain ⟨blocks, -, rfl⟩ | ⟨-, rfl⟩ := State.handleBlockPeerRequest_ok hr
    · exact ⟨h.blocks, h.incomplete, ⟨h.servable.merkle, h.servable.blocks⟩⟩
    · refine ⟨h.blocks, h.incomplete, ⟨h.servable.merkle, fun sub hsub => ?_⟩⟩
      rcases mem_toList_insert hsub with rfl | hsub
      · exact hfits s
      · exact h.servable.blocks sub hsub
  | subscribeECG peer tips chan =>
    rcases s.handleEcgSubscribe_cases peer tips chan with ⟨ecg, heq⟩ | heq
    · rw [heq]; exact ⟨h.blocks, h.incomplete, ⟨h.servable.merkle, h.servable.blocks⟩⟩
    · rw [heq]; exact ⟨h.blocks, h.incomplete, ⟨h.servable.merkle, h.servable.blocks⟩⟩

/-- **An answer is handled**, unless it completes an initial state that does not parse. -/
theorem State.InOrder.returnsOr (hn : 1 ≤ n) (h : s.InOrder n full) (hd : cmd.isDownload = true)
    (hfits : cmd.Fits OT n full s) (hids : ∀ i ∈ cmd.blockIds, i < n)
    {s₁ : State StoreId H HeaderId Header T} (hready : statusCall OT env s cmd = .ok s₁) :
    ReturnsOr unparsed (State.InOrder n full) (Handler.handleStore OT env listeners s cmd) := by
  have hsend : ∀ t : State StoreId H HeaderId Header T, t.InOrder n full →
      ReturnsOr unparsed (State.InOrder n full) (t.sendSyncRequests env.rng) := by
    intro t ht
    obtain ⟨t', heq, ht'⟩ := ht.exists_sendSyncRequests env.rng
    exact Or.inr ⟨t', heq, ht'⟩
  cases cmd with
  | receivedMetadata peer metadata =>
    exact (returnsOr_handleReceivedMetadata hn h hready hfits).bind hsend
  | receivedMerkleHashes peer ranges nodes =>
    exact (returnsOr_handleReceivedMerkleHashes hn h hready ranges nodes).bind hsend
  | receivedInitialStateBlocks peer ranges blocks =>
    exact (returnsOr_handleReceivedInitialStateBlocks h hready hids hfits).bind hsend
  | _ => cases hd

omit [ECGHeader Header HeaderId] [CRDT T Op (OperationId HeaderId)] in
lemma fits_of_not_download (hd : cmd.isDownload = false) (hfits : cmd.Fits OT n full s)
    (t : State StoreId H HeaderId Header T) : cmd.Fits OT n full t := by
  cases cmd <;> first | exact hfits | cases hd

/-- **Every command that fits keeps the order.** -/
theorem State.InOrder.handleStore (hn : 1 ≤ n) (h : s.InOrder n full)
    (hfits : cmd.Fits OT n full s) (hids : ∀ i ∈ cmd.blockIds, i < n)
    (hs : Handler.handleStore OT env listeners s cmd = .ok s') : s'.InOrder n full := by
  cases hd : cmd.isDownload with
  | true =>
    cases hr : statusCall OT env s cmd with
    | ok s₁ => exact (h.returnsOr hn hd hfits hids hr).of_ok hs
    | error e =>
      rw [handleStore_of_fault hr] at hs
      cases hs
  | false =>
    have heffects := handleStore_effects hs
    clear hs
    induction heffects with
    | refl => exact h
    | tail _ hc ih =>
      exact hc.elim (fun hc => ih.change hc hd (fits_of_not_download hd hfits)) ih.touches

/-- What the comments of the phases promise: the tree of a store in its second phase has a node
missing, the initial state in the third phase a block, and the sizes are those of the
metadata. -/
def StateMachine.Promised : StateMachine StoreId H HeaderId Header T → Prop
  | .downloadingMerkle metadata tree =>
    tree.nodes.length = 2 * metadata.blockCount - 1 ∧ .none ∈ tree.nodes
  | .downloadingInitialState metadata tree blocks =>
    blocks.length = metadata.blockCount ∧ none ∈ blocks ∧ tree.leafCount = metadata.blockCount
  | _ => True

omit [DecidableEq H] [DecidableEq StoreId] [ECGHeader Header HeaderId]
  [CRDT T Op (OperationId HeaderId)] in
lemma State.InOrder.promised (hn : 1 ≤ n) (h : s.InOrder n full) : s.stateMachine.Promised := by
  have hb := h.blocks
  have hi := h.incomplete
  cases hs : s.stateMachine with
  | downloadingMerkle metadata tree =>
    rw [hs] at hb hi
    obtain ⟨rfl, hlen, -⟩ := hb
    exact ⟨hlen, hi⟩
  | downloadingInitialState metadata tree blocks =>
    rw [hs] at hb hi
    obtain ⟨rfl, hlen, hblocks, -⟩ := hb
    refine ⟨hblocks, hi, ?_⟩
    rw [MerkleTree.leafCount, hlen]
    omega
  | downloadingMetadata _ => trivial
  | syncing _ _ _ _ _ => trivial

/-! ### Runs -/

namespace System

variable {sys sys' : System StoreId H HeaderId Header Body T} {ev : Event H HeaderId Header Body}

/-- No task stops, and the command that the store handles, if any, fits it. -/
def Meets (OT : OssaType StoreId H HeaderId Body T Op) (n : ℕ) (full : Prop)
    (sys : System StoreId H HeaderId Header Body T) (ev : Event H HeaderId Header Body) : Prop :=
  ev.isStop = false ∧ ∀ env cmd, sys.offered ev = some (env, cmd) →
    cmd.Fits OT n full sys.handler.store

/-- The store is in order, agrees with its tasks, and is asked for blocks that it has. -/
structure Steady (n : ℕ) (full : Prop) (sys : System StoreId H HeaderId Header Body T) : Prop where
  orderly : sys.Orderly
  store : sys.handler.store.InOrder n full
  inFlight : sys.InFlight (fun r => ∀ i ∈ r.blockIds, i < n) fun cmd => ∀ i ∈ cmd.blockIds, i < n

omit [DecidableEq H] [DecidableEq StoreId] [ECGHeader Header HeaderId]
  [CRDT T Op (OperationId HeaderId)] in
lemma steady_start (storeId : StoreId) (listeners : List Chan) :
    (start ⟨.newDownloading storeId, listeners⟩ :
      System StoreId H HeaderId Header Body T).Steady n full where
  orderly := orderly_start rfl
  store := by
    have hnone : ∀ {β : Type} (sub : DeviceId × β), sub ∉ (∅ : BTreeMap DeviceId β).toList := by
      intro β sub hsub
      rw [toList_empty] at hsub
      cases hsub
    exact ⟨trivial, trivial, fun sub hsub => absurd hsub (hnone sub), fun sub hsub =>
      absurd hsub (hnone sub)⟩
  inFlight := inFlight_start _

omit [DecidableEq H] [DecidableEq StoreId] [ECGHeader Header HeaderId]
  [CRDT T Op (OperationId HeaderId)] in
lemma Steady.blockIds (h : sys.Steady n full) (hen : sys.enabled ev = true)
    {cmd : Command H HeaderId Header Body} (ho : sys.offered ev = some (env, cmd)) :
    ∀ i ∈ cmd.blockIds, i < n := by
  cases ev with
  | receive env' peer => exact h.inFlight.offered ho
  | external env' cmd' =>
    cases ho
    cases cmd <;> first | exact fun i hi => absurd hi List.not_mem_nil | cases hen
  | registerOutgoing env' peer => cases ho; exact fun i hi => by cases hi
  | registerIncoming env' peer => cases ho; exact fun i hi => by cases hi
  | _ => cases ho

theorem Steady.step (hn : 1 ≤ n) (h : sys.Steady n full) (hen : sys.enabled ev = true)
    (hm : sys.Meets OT n full ev) (hnext : sys.next OT ev = .ok sys') : sys'.Steady n full := by
  have hstore : sys'.handler.store.InOrder n full := by
    cases ho : sys.offered ev with
    | some c =>
      obtain ⟨env, cmd⟩ := c
      obtain ⟨handler, hs, rfl⟩ := next_command ho hnext
      exact h.store.handleStore hn (hm.2 env cmd ho) (h.blockIds hen ho) hs
    | none => rw [handler_of_not_offered ho hnext]; exact h.store
  refine ⟨h.orderly.step hen hm.1 hnext, hstore, h.inFlight.step hen ?_ ?_ hnext⟩
  · intro peer r cmd hr ha
    rw [blockIds_of_answers ha]
    exact hr
  · intro rng s₂ reqs hsm hreqs r hr
    obtain ⟨reqs', hreqs', hids⟩ := State.exists_syncRequests (hsm ▸ hstore.blocks)
      (hsm ▸ hstore.incomplete) rng
    rw [hreqs] at hreqs'
    cases hreqs'
    exact hids r hr

theorem steady_run {storeId : StoreId} (hn : 1 ≤ n)
    (hrun : Run OT (Meets OT n full) (start ⟨.newDownloading storeId, []⟩) sys) :
    sys.Steady n full := by
  induction hrun with
  | refl => exact steady_start storeId []
  | step ev _ hen hm hnext ih => exact ih.step hn hen hm hnext

/-- An answer that brings something to download is handled if it is heard, or the initial state
does not parse. -/
theorem Steady.returnsOr (hn : 1 ≤ n) (h : sys.Steady n full) (hen : sys.enabled ev = true)
    (hm : sys.Meets OT n full ev) {cmd : Command H HeaderId Header Body}
    (ho : sys.offered ev = some (env, cmd)) (hd : cmd.isDownload = true)
    (hheard : sys.handler.Heard env cmd) :
    (∃ sys', sys.next OT ev = .ok sys') ∨ sys.next OT ev = .error unparsed := by
  have hagrees := h.orderly.agrees
  rw [← h.orderly.inFlight_consume hen ho] at hagrees
  obtain ⟨s₁, hready⟩ : ∃ s₁, statusCall OT env sys.handler.store cmd = .ok s₁ :=
    exists_statusCall hagrees
  rw [next_of_offered ho, System.command, consume_handler]
  have hhandle : ReturnsOr unparsed (State.InOrder n full)
      (Handler.handleStore OT env sys.handler.listeners sys.handler.store cmd) :=
    h.store.returnsOr hn hd (hm.2 env cmd ho) (h.blockIds hen ho) hready
  obtain hc | ⟨s', hs', -⟩ := hhandle
  · rw [Handler.handle_of_error hc]
    exact Or.inr rfl
  · rw [Handler.handle_of_heard hs' hheard]
    exact Or.inl ⟨_, rfl⟩

/-- Metadata without blocks stops the store: the number of nodes of its tree overflows. -/
lemma overflow_of_no_blocks {s : State StoreId H HeaderId Header T} {peer : DeviceId}
    {metadata : MetadataHeader H} {listeners : List Chan}
    (hready : ∃ s₁, s.updateOutgoingPeerToReady peer = .ok s₁)
    (hv : metadata.validateStoreId OT.into (s.stateMachine.storeId OT.into) = true)
    (h0 : metadata.blockCount = 0) :
    Handler.handleStore OT env listeners s (.receivedMetadata peer metadata) =
      .error .overflow := by
  obtain ⟨s₁, hr⟩ := hready
  obtain ⟨info, b, -, -, rfl⟩ := State.updateOutgoingPeerToReady_ok hr
  change s.handleReceivedMetadata OT peer metadata listeners >>= _ = _
  unfold State.handleReceivedMetadata
  simp only [hr, ok_bind]
  rw [show (s.AfterPeers _ []).stateMachine = s.stateMachine from rfl, hv, h0]
  rfl

/-- **A download never gets stuck**: in every run in which the metadata that the store accepts
has `n` blocks, with `1 ≤ n`, something is missing in every phase and can be requested, and no
answer stops the store but one that completes an initial state that does not parse, unless someone
who is told is gone. Metadata without blocks, if it is accepted, does stop the store. -/
theorem download_never_stuck {storeId : StoreId} (hn : 1 ≤ n)
    (hrun : Run OT (Meets OT n False) (start ⟨.newDownloading storeId, []⟩) sys) :
    sys.handler.store.stateMachine.Promised ∧
    (∀ rng, ∃ reqs, sys.handler.store.syncRequests rng = .ok reqs) ∧
    (∀ ev env cmd, sys.enabled ev = true → sys.Meets OT n False ev →
      sys.offered ev = some (env, cmd) → cmd.isDownload = true → sys.handler.Heard env cmd →
        (∃ sys', sys.next OT ev = .ok sys') ∨ sys.next OT ev = .error unparsed) ∧
    ∀ ev env peer metadata, sys.enabled ev = true →
      sys.offered ev = some (env, .receivedMetadata peer metadata) →
      metadata.validateStoreId OT.into (sys.handler.store.stateMachine.storeId OT.into) = true →
        metadata.blockCount = 0 → sys.next OT ev = .error .overflow := by
  have h := steady_run hn hrun
  refine ⟨h.store.promised hn, fun rng => ?_, fun ev env cmd hen hm ho hd hheard => ?_,
    fun ev env peer metadata hen ho hv h0 => ?_⟩
  · obtain ⟨reqs, hreqs, -⟩ := State.exists_syncRequests h.store.blocks h.store.incomplete rng
    exact ⟨reqs, hreqs⟩
  · exact h.returnsOr hn hen hm ho hd hheard
  · have hagrees := h.orderly.agrees
    rw [← h.orderly.inFlight_consume hen ho] at hagrees
    have hready : ∃ s₁, sys.handler.store.updateOutgoingPeerToReady peer = .ok s₁ :=
      (State.ready_of_busy hagrees).imp fun _ => And.left
    rw [next_of_offered ho, System.command, consume_handler,
      Handler.handle_of_error (overflow_of_no_blocks hready hv h0)]
    rfl

/-! A counter, whose metadata has one block, and one without an initial state. -/

section Counter

open V0

local instance answersHash : Hash UInt8 := tableHash counterTable

/-- Metadata that the command brings has one block. -/
def fitsOne : Command UInt8 ℕ TestHeader (List ℕ) → Bool
  | .receivedMetadata _ metadata => decide (metadata.blockCount = 1)
  | .handleMerklePeerRequest _ _ _ => false
  | .handleBlockPeerRequest _ _ _ => false
  | _ => true

def meetsOne (sys : System UInt8 UInt8 ℕ TestHeader (List ℕ) Counter)
    (ev : Event UInt8 ℕ TestHeader (List ℕ)) : Bool :=
  !ev.isStop && (sys.offered ev).all fun c => fitsOne c.2

lemma meets_of_meetsOne (sys : System UInt8 UInt8 ℕ TestHeader (List ℕ) Counter)
    (ev : Event UInt8 ℕ TestHeader (List ℕ)) (h : meetsOne sys ev = true) :
    sys.Meets counterType 1 False ev := by
  obtain ⟨hstop, hall⟩ := Bool.and_eq_true_iff.mp h
  refine ⟨by simpa using hstop, fun env cmd ho => ?_⟩
  rw [ho] at hall
  cases cmd with
  | receivedMetadata peer metadata => exact fun _ => of_decide_eq_true hall
  | receivedInitialStateBlocks peer ranges blocks => exact False.elim
  | handleMerklePeerRequest peer ranges chan => cases hall
  | handleBlockPeerRequest peer ranges chan => cases hall
  | _ => trivial

/-- Peer 1 answers with the metadata, and then with a wrong block. -/
def oneWrongBlock : List (Event UInt8 ℕ TestHeader (List ℕ)) :=
  [.external calm (.registerPeers [1]), .registerOutgoing calm 1, .take 1,
    .answer 1 (.receivedMetadata 1 counterMetadata), .receive calm 1, .take 1,
    .answer 1 (.receivedInitialStateBlocks 1 [⟨0, 1⟩] [some [8]])]

lemma oneWrongBlock_isOk :
    (execIf counterType meetsOne (start counterDownload) oneWrongBlock).isOk = true := by
  decide +kernel

theorem download_never_stuck_counter : ∃ sys,
    execIf counterType meetsOne (start counterDownload) oneWrongBlock = .ok sys ∧
      sys.handler.store.stateMachine.Promised ∧
      ∃ reqs, sys.handler.store.syncRequests calm.rng = .ok reqs := by
  have hrun := eq_ok_value oneWrongBlock_isOk
  obtain ⟨hpromised, hreqs, -⟩ :=
    download_never_stuck (by decide) (run_of_execIf (fun sys ev _ => meets_of_meetsOne sys ev) hrun)
  exact ⟨_, hrun, hpromised, hreqs calm.rng⟩

/-- The metadata of an empty initial state. -/
def emptyMetadata : MetadataHeader UInt8 := ⟨zeros, .v0, zeros, 0, 0⟩

def emptyDownload : Handler UInt8 UInt8 ℕ TestHeader Counter :=
  ⟨.newDownloading (emptyMetadata.storeId counterType.into), []⟩

/-- Peer 1 answers with the metadata of an empty initial state. -/
def emptyAnswered : List (Event UInt8 ℕ TestHeader (List ℕ)) :=
  [.external calm (.registerPeers [1]), .registerOutgoing calm 1, .take 1,
    .answer 1 (.receivedMetadata 1 emptyMetadata)]

lemma emptyAnswered_isOk :
    (exec counterType (start emptyDownload) emptyAnswered).isOk = true := by
  decide +kernel

/-- **Metadata of an empty initial state stops the store.** -/
theorem empty_metadata_overflows :
    ¬ ∀ (evs : List (Event UInt8 ℕ TestHeader (List ℕ)))
      (sys : System UInt8 UInt8 ℕ TestHeader (List ℕ) Counter)
      (ev : Event UInt8 ℕ TestHeader (List ℕ)) (env : Environment)
      (cmd : Command UInt8 ℕ TestHeader (List ℕ)),
      exec counterType (start emptyDownload) evs = .ok sys → sys.enabled ev = true →
      sys.offered ev = some (env, cmd) → cmd.isDownload = true → sys.handler.Heard env cmd →
        (∃ sys', sys.next counterType ev = .ok sys') ∨
          sys.next counterType ev = .error unparsed := by
  intro hall
  have hfault : fault? ((value _ emptyAnswered_isOk).next counterType (.receive calm 1)) =
      some .overflow := by
    decide +kernel
  have hdownload : ((value _ emptyAnswered_isOk).offered (.receive calm 1)).map
      (fun c => c.2.isDownload) = some true := by
    decide +kernel
  obtain ⟨c, hc, hd⟩ := Option.map_eq_some_iff.mp hdownload
  rcases hall emptyAnswered _ (.receive calm 1) c.1 c.2 (eq_ok_value emptyAnswered_isOk)
    (by decide +kernel) hc hd (heard_of_receive hc fun _ => rfl) with ⟨sys', hok⟩ | herror
  · rw [hok] at hfault
    cases hfault
  · rw [herror] at hfault
    exact absurd hfault (by decide)

end Counter

end System

end Ossa.Store
