import Mathlib.Algebra.Group.Action.Defs
import Mathlib.Algebra.Order.BigOperators.Group.Finset
import Ossa.StoreServed

/-!
A download from peers that have all the data is completed.

Each request is paid for in advance. A peer that may still register has paid for the metadata and
one request; an answer that was useful pays, with what it brought, for every other request in
flight that it made useless; and a useless answer has paid for the next request to its peer. So
the number of requests is bounded, and because every peer is asked for something at all times, the
store syncs once the last of them is answered.
-/

namespace Ossa.Store

open Ossa.Loop Ossa.Util Ossa.Util.MerkleTree Ossa.Collections Ossa.Ecg Ossa.Crdt State

variable {StoreId H HeaderId Header Body T Op : Type} [LinearOrder HeaderId]

/-! ### Charges -/

/-- One summand changes by its own account, every other by at most `c`. -/
lemma sum_le_of_others {α : Type} [DecidableEq α] {S : Finset α} {f g : α → ℕ} {q : α}
    {a b c : ℕ} (hq : q ∈ S)
    (hself : g q + a ≤ f q + b) (hother : ∀ p ∈ S, p ≠ q → g p ≤ f p + c) :
    ∑ p ∈ S, g p + a ≤ ∑ p ∈ S, f p + b + c * (S.card - 1) := by
  have hsum : ∑ p ∈ S.erase q, g p ≤ ∑ p ∈ S.erase q, f p + c * (S.card - 1) := by
    calc ∑ p ∈ S.erase q, g p
        ≤ ∑ p ∈ S.erase q, (f p + c) := Finset.sum_le_sum fun p hp =>
          hother p (Finset.mem_of_mem_erase hp) (Finset.ne_of_mem_erase hp)
      _ = ∑ p ∈ S.erase q, f p + c * (S.card - 1) := by
          rw [Finset.sum_add_distrib, Finset.sum_const, Finset.card_erase_of_mem hq, smul_eq_mul,
            Nat.mul_comm]
  rw [← Finset.add_sum_erase S g hq, ← Finset.add_sum_erase S f hq]
  omega

instance (w : Want) (sm : StateMachine StoreId H HeaderId Header T) : Decidable (w.Useful sm) :=
  inferInstanceAs (Decidable (_ ∧ _))

lemma not_useful_operations {sm : StateMachine StoreId H HeaderId Header T} :
    ¬ Want.operations.Useful sm := by
  rintro ⟨-, i, hi, -⟩
  cases hi

/-- What has been set aside for a peer, by what is in flight with it: `B` for the metadata, and
one for a request that is still to be sent. -/
def charge (B : ℕ) (sm : StateMachine StoreId H HeaderId Header T) : List Want → ℕ
  | [] => if sm.rank = 0 then B + 1 else 1
  | .metadata :: _ => B
  | w :: _ => if w.Useful sm then 0 else 1

/-- The message asks for something to download. -/
def Sent.isDownload : Sent StoreId H HeaderId Header T → Bool
  | .command _ r => !r.isEcg
  | _ => false

variable {B : ℕ} {sm sm' : StateMachine StoreId H HeaderId Header T} {ws : List Want}

lemma charge_request {r : StoreSyncCommand HeaderId Header} {p : DeviceId}
    (hrank : r.want.rank = sm.rank)
    (huseful : sm.rank ≠ 0 → sm.rank ≠ 3 → r.want.Useful sm) :
    charge B sm [r.want] +
      [(.command p r : Sent StoreId H HeaderId Header T)].countP Sent.isDownload =
        charge B sm [] := by
  cases r with
  | metadataHeaderRequest =>
    have h0 : sm.rank = 0 := hrank.symm
    simp [charge, StoreSyncCommand.want, Sent.isDownload, StoreSyncCommand.isEcg, h0]
  | merkleRequest ranges =>
    have h1 : sm.rank = 1 := hrank.symm
    have hu : (Want.nodes ranges).Useful sm := huseful (by omega) (by omega)
    simp [charge, StoreSyncCommand.want, Sent.isDownload, StoreSyncCommand.isEcg, h1, hu]
  | initialStateBlockRequest ranges =>
    have h2 : sm.rank = 2 := hrank.symm
    have hu : (Want.blocks ranges).Useful sm := huseful (by omega) (by omega)
    simp [charge, StoreSyncCommand.want, Sent.isDownload, StoreSyncCommand.isEcg, h2, hu]
  | ecgSyncRequest ecg =>
    have h3 : sm.rank = 3 := hrank.symm
    simp [charge, StoreSyncCommand.want, Sent.isDownload, StoreSyncCommand.isEcg, h3,
      not_useful_operations]

lemma charge_le_succ (hrank : sm'.rank ≠ 0) : charge B sm' ws ≤ charge B sm ws + 1 := by
  cases ws with
  | nil =>
    simp only [charge, if_neg hrank]
    omega
  | cons w ws =>
    cases w with
    | metadata => exact Nat.le_succ B
    | _ =>
      simp only [charge]
      split_ifs <;> omega

lemma charge_of_isSyncing (h : sm.isSyncing = true) (h' : sm'.isSyncing = true) :
    charge B sm' ws = charge B sm ws := by
  cases sm with
  | syncing _ _ _ _ _ =>
    cases sm' with
    | syncing _ _ _ _ _ => rfl
    | _ => cases h'
  | _ => cases h

lemma remaining_of_isSyncing (h : sm.isSyncing = true) (n : ℕ) : sm.remaining n = 0 := by
  cases sm with
  | syncing _ _ _ _ _ => rfl
  | _ => cases h

/-! ### One answer -/

/-- What is set aside for the peers in `S`, and for what remains. -/
def funds (S : Finset DeviceId) (n : ℕ) (sm : StateMachine StoreId H HeaderId Header T)
    (wants : DeviceId → List Want) : ℕ :=
  ∑ p ∈ S, charge ((3 * n + 1) * (S.card + 1)) sm (wants p) + sm.remaining n * (S.card + 1)

section Funds

variable {S : Finset DeviceId} {n : ℕ} {wants : DeviceId → List Want} {q : DeviceId}

lemma funds_of_same (hcharge : ∀ ws, charge ((3 * n + 1) * (S.card + 1)) sm' ws =
      charge ((3 * n + 1) * (S.card + 1)) sm ws) (hrem : sm'.remaining n = sm.remaining n)
    (hq : charge ((3 * n + 1) * (S.card + 1)) sm [] =
      charge ((3 * n + 1) * (S.card + 1)) sm (wants q)) :
    funds S n sm' (Function.update wants q []) = funds S n sm wants := by
  unfold funds
  rw [hrem]
  refine congrArg (· + _) (Finset.sum_congr rfl fun p _ => ?_)
  rw [hcharge]
  by_cases hp : p = q
  · subst hp
    rw [Function.update_self, hq]
  · rw [Function.update_of_ne hp]

lemma funds_of_metadata (hq : q ∈ S) (hrank : sm'.rank ≠ 0) (hrem : sm'.remaining n ≤ 3 * n)
    (hw : wants q = [.metadata]) : funds S n sm' (Function.update wants q []) ≤ funds S n sm wants := by
  have hcard : 1 ≤ S.card := Finset.card_pos.mpr ⟨q, hq⟩
  have hsum := sum_le_of_others (f := fun p => charge ((3 * n + 1) * (S.card + 1)) sm (wants p))
    (g := fun p => charge ((3 * n + 1) * (S.card + 1)) sm' (Function.update wants q [] p))
    (a := (3 * n + 1) * (S.card + 1)) (b := 1) (c := 1) hq ?_ ?_
  · have hmul : sm'.remaining n * (S.card + 1) ≤ 3 * n * (S.card + 1) :=
      Nat.mul_le_mul_right _ hrem
    have hsucc : (3 * n + 1) * (S.card + 1) = 3 * n * (S.card + 1) + (S.card + 1) :=
      Nat.succ_mul ..
    unfold funds
    omega
  · simp only [Function.update_self, hw, charge, if_neg hrank]
    omega
  · intro p _ hp
    simp only [Function.update_of_ne hp]
    exact charge_le_succ hrank

lemma funds_of_useful (hq : q ∈ S) (hrank : sm'.rank ≠ 0)
    (hrem : sm'.remaining n < sm.remaining n) :
    funds S n sm' (Function.update wants q []) ≤ funds S n sm wants := by
  have hcard : 1 ≤ S.card := Finset.card_pos.mpr ⟨q, hq⟩
  have hsum := sum_le_of_others (f := fun p => charge ((3 * n + 1) * (S.card + 1)) sm (wants p))
    (g := fun p => charge ((3 * n + 1) * (S.card + 1)) sm' (Function.update wants q [] p))
    (a := 0) (b := 1) (c := 1) hq ?_ ?_
  · have hmul : (sm'.remaining n + 1) * (S.card + 1) ≤ sm.remaining n * (S.card + 1) :=
      Nat.mul_le_mul_right _ hrem
    rw [Nat.succ_mul] at hmul
    unfold funds
    omega
  · simp only [Function.update_self, charge, if_neg hrank]
    omega
  · intro p _ hp
    simp only [Function.update_of_ne hp]
    exact charge_le_succ hrank

lemma funds_of_request (hq : q ∈ S) {r : StoreSyncCommand HeaderId Header} {p : DeviceId}
    (hrank : r.want.rank = sm.rank) (huseful : sm.rank ≠ 0 → sm.rank ≠ 3 → r.want.Useful sm) :
    [(.command p r : Sent StoreId H HeaderId Header T)].countP Sent.isDownload +
      funds S n sm (Function.update wants q [r.want]) =
        funds S n sm (Function.update wants q []) := by
  have hother : ∀ ws, ∑ p ∈ S.erase q, charge ((3 * n + 1) * (S.card + 1)) sm
      (Function.update wants q ws p) =
        ∑ p ∈ S.erase q, charge ((3 * n + 1) * (S.card + 1)) sm (wants p) := fun ws =>
    Finset.sum_congr rfl fun p hp => by rw [Function.update_of_ne (Finset.ne_of_mem_erase hp)]
  have hpaid := charge_request (B := (3 * n + 1) * (S.card + 1)) (p := p) hrank huseful
  unfold funds
  rw [← Finset.add_sum_erase S _ hq, ← Finset.add_sum_erase S _ hq, hother, hother,
    Function.update_self, Function.update_self, ← hpaid]
  omega

end Funds

/-! ### The phase after a command -/

section Handler

variable {s s' : State StoreId H HeaderId Header T}
variable [Hash H] [DecidableEq H] [DecidableEq StoreId]
variable [ECGHeader Header HeaderId] [CRDT T Op (OperationId HeaderId)]
variable {OT : OssaType StoreId H HeaderId Body T Op} {listeners : List Chan} {env : Environment}
variable {cmd : Command H HeaderId Header Body}

lemma phase_of_not_brings (hbrings : cmd.brings = none)
    (h : Handler.handleStore OT env listeners s cmd = .ok s') :
    s'.stateMachine = s.stateMachine ∨
      s.stateMachine.isSyncing = true ∧ s'.stateMachine.isSyncing = true := by
  cases cmd with
  | apply header body =>
    cases hs : s.stateMachine with
    | syncing metadata tree initialState ecg latest =>
      have h : s.apply OT header body listeners = .ok s' := h
      simp only [State.apply, hs] at h
      split_ifs at h
      obtain ⟨latest', -, heq⟩ := bind_eq_ok.mp h
      cases heq
      rw [updateListeners_stateMachine]
      exact Or.inr ⟨rfl, rfl⟩
    | _ =>
      have h : s.apply OT header body listeners = .ok s' := h
      simp only [State.apply, hs] at h
      cases h
      exact Or.inl hs
  | subscribeState chan => cases h; exact Or.inl rfl
  | registerPeers peers =>
    exact Or.inl ((touches_insertKnownPeers peers).trans (touches_managePeers h)).stateMachine_eq
  | syncWithPeer peer chan => exact Or.inl (touches_syncWithPeer h).stateMachine_eq
  | registerOutgoingPeerSyncing peer =>
    obtain ⟨s₁, hp, h⟩ := bind_eq_ok.mp h
    exact Or.inl
      ((touches_updatePeerToSyncing hp).trans (touches_sendSyncRequests h)).stateMachine_eq
  | registerIncomingPeerSyncing peer => exact Or.inl (touches_updatePeerToSyncing h).stateMachine_eq
  | handleMetadataPeerRequest peer chan =>
    cases h
    rcases s.handleMetadataPeerRequest_cases peer chan with ⟨metadata, -, heq⟩ | ⟨-, heq⟩
    · exact Or.inl (heq ▸ rfl)
    · exact Or.inl (heq ▸ rfl)
  | handleMerklePeerRequest peer ranges chan =>
    obtain ⟨tree, hashes, -, -, rfl⟩ | ⟨-, rfl⟩ := handleMerklePeerRequest_ok h
    · exact Or.inl rfl
    · exact Or.inl rfl
  | handleBlockPeerRequest peer ranges chan =>
    obtain ⟨blocks, -, rfl⟩ | ⟨-, rfl⟩ := handleBlockPeerRequest_ok h
    · exact Or.inl rfl
    · exact Or.inl rfl
  | subscribeECG peer tips chan =>
    cases h
    rcases s.handleEcgSubscribe_cases peer tips chan with ⟨ecg, heq⟩ | heq
    · exact Or.inl (heq ▸ rfl)
    · exact Or.inl (heq ▸ rfl)
  | _ => cases hbrings

lemma isSyncing_of_operations {peer : DeviceId} {operations : List (Header × RawECGBody)}
    (h : Handler.handleStore OT env listeners s (.receivedECGOperations peer operations) = .ok s') :
    s.stateMachine.isSyncing = true ∧ s'.stateMachine.isSyncing = true := by
  obtain ⟨s₂, hreceived, hsend⟩ := bind_eq_ok.mp h
  rw [(touches_sendSyncRequests hsend).stateMachine_eq]
  obtain ⟨s₁, hready, hreceived⟩ := bind_eq_ok.mp hreceived
  rw [← (touches_updateOutgoingPeerToReady hready).stateMachine_eq]
  cases hs : s₁.stateMachine with
  | syncing metadata tree initialState ecg latest =>
    simp only [hs] at hreceived
    obtain ⟨⟨ecg', latest'⟩, -, heq⟩ := bind_eq_ok.mp hreceived
    cases heq
    rw [updateListeners_stateMachine]
    exact ⟨rfl, rfl⟩
  | _ =>
    simp only [hs] at hreceived
    cases hreceived

end Handler

/-! ### Runs -/

namespace System

variable [Hash H] [DecidableEq H] [DecidableEq StoreId]
variable [ECGHeader Header HeaderId] [CRDT T Op (OperationId HeaderId)]
variable {OT : OssaType StoreId H HeaderId Body T Op}
variable {sys sys' : System StoreId H HeaderId Header Body T} {ev : Event H HeaderId Header Body}
variable {metadata : MetadataHeader H} {body : MetadataBody H} {S : Finset DeviceId}

/-- The peers are in `S`, answer as stores that have the data do, and request only what exists. -/
structure Supplied (OT : OssaType StoreId H HeaderId Body T Op) (metadata : MetadataHeader H)
    (body : MetadataBody H) (S : Finset DeviceId) (sys : System StoreId H HeaderId Header Body T)
    (ev : Event H HeaderId Header Body) : Prop where
  stop : ev.isStop = false
  served : ∀ peer cmd, ev = .answer peer cmd → cmd.isDownload = true →
    cmd.Served StoreId T metadata body
  peers : ∀ env peer, ev = .registerOutgoing env peer → peer ∈ S
  fits : ∀ env cmd, ev = .external env cmd →
    cmd.Fits OT metadata.blockCount True sys.handler.store

omit [Hash H] [DecidableEq H] [DecidableEq StoreId] [ECGHeader Header HeaderId] in
lemma length_block {bytes b : List UInt8} {i : ℕ} (hi : (chunks BLOCK_SIZE bytes)[i]? = some b)
    (hlt : i + 1 < (chunks BLOCK_SIZE bytes).length) : b.length = BLOCK_SIZE := by
  have hpos : 0 < BLOCK_SIZE := by decide
  rw [length_chunks] at hlt
  have hle : (i + 2) * BLOCK_SIZE ≤ bytes.length + BLOCK_SIZE - 1 :=
    (Nat.le_div_iff_mul_le hpos).mp hlt
  rw [chunks, List.getElem?_map, List.getElem?_range (by omega)] at hi
  cases hi
  rw [piece, List.length_take, List.length_drop]
  have : (i + 2) * BLOCK_SIZE = i * BLOCK_SIZE + 2 * BLOCK_SIZE := Nat.add_mul ..
  omega

omit [ECGHeader Header HeaderId] [CRDT T Op (OperationId HeaderId)] in
lemma fits_of_served (hc : Created body.initialState metadata body)
    {cmd : Command H HeaderId Header Body} {s : State StoreId H HeaderId Header T}
    (hserved : cmd.isDownload = true → cmd.Served StoreId T metadata body)
    (hbrings : cmd.receivedFrom.isSome = true) : cmd.Fits OT metadata.blockCount True s := by
  cases cmd with
  | receivedMetadata peer m =>
    intro _
    rw [(hserved rfl).metadata_eq]
  | receivedMerkleHashes _ _ _ => trivial
  | receivedInitialStateBlocks peer ranges blocks =>
    intro _ m tree old hs i b hmem hi _
    have hlen : i < (chunks BLOCK_SIZE body.initialState).length := by
      rw [← hc.count]
      omega
    exact length_block ((hserved rfl).blocks.2 _ hmem hlen).symm (by rw [← hc.count]; omega)
  | receivedECGOperations _ _ => trivial
  | _ => cases hbrings

lemma mem_received_next (h : sys.next OT ev = .ok sys') {p : DeviceId}
    {cmd : Command H HeaderId Header Body} (hmem : cmd ∈ (sys'.tasks p).received) :
    cmd ∈ (sys.tasks p).received ∨ ev = .answer p cmd := by
  cases ho : sys.offered ev with
  | some c =>
    obtain ⟨env, cmd'⟩ := c
    obtain ⟨handler, -, rfl⟩ := next_command ho h
    refine Or.inl (received_consume sys ev p ?_)
    rwa [← received_foldl _ (sys.consume ev) p]
  | none =>
    have hset : ∀ {peer : DeviceId} {task : Task H HeaderId Header Body},
        cmd ∈ ((sys.setTask peer task).tasks p).received →
        task.received = (sys.tasks peer).received → cmd ∈ (sys.tasks p).received := by
      intro peer task hmem htask
      by_cases hp : p = peer
      · subst hp
        simpa [setTask, htask] using hmem
      · simpa [setTask, Function.update_of_ne hp] using hmem
    cases ev with
    | external env cmd => cases ho
    | registerOutgoing env peer => cases ho
    | registerIncoming env peer => cases ho
    | stop peer =>
      cases h
      exact Or.inl (hset hmem rfl)
    | receive env peer =>
      have hr : (sys.tasks peer).received = [] := by simpa [System.offered] using ho
      simp only [next, hr] at h
      cases h
      exact Or.inl hmem
    | take peer =>
      simp only [next] at h
      split at h
      · cases h
        exact Or.inl hmem
      · cases h
        exact Or.inl (hset hmem rfl)
    | answer peer cmd' =>
      cases h
      by_cases hp : p = peer
      · subst hp
        simp only [setTask, Function.update_self, List.mem_append, List.mem_singleton] at hmem
        rcases hmem with hmem | rfl
        · exact Or.inl hmem
        · exact Or.inr rfl
      · simp only [setTask, Function.update_of_ne hp] at hmem
        exact Or.inl hmem

/-- The invariant of a download that is supplied. -/
structure Paid (OT : OssaType StoreId H HeaderId Body T Op) (metadata : MetadataHeader H)
    (body : MetadataBody H) (S : Finset DeviceId)
    (sys : System StoreId H HeaderId Header Body T) : Prop where
  steady : sys.Steady metadata.blockCount True
  idle : sys.NobodyIdle
  track : OnTrack metadata body OT sys.phase
  served : ∀ p, ∀ cmd ∈ (sys.tasks p).received, cmd.isDownload = true →
    cmd.Served StoreId T metadata body
  /-- Only the metadata is asked for before it is there. -/
  begun : sys.InFlight (fun r => r.want.rank ≠ 0 → sys.phase.rank ≠ 0)
    fun cmd => ∀ w, cmd.brings = some w → w.rank ≠ 0 → sys.phase.rank ≠ 0
  peers : ∀ p b, sys.handler.store.Running p b → p ∈ S
  paid : sys.handler.store.sent.countP Sent.isDownload +
    funds S metadata.blockCount sys.phase (fun p => (sys.tasks p).wants) ≤
      S.card * ((3 * metadata.blockCount + 1) * (S.card + 1) + 1)

variable {env : Environment} {cmd : Command H HeaderId Header Body}

omit [ECGHeader Header HeaderId] [CRDT T Op (OperationId HeaderId)] in
lemma Paid.meets (hc : Created body.initialState metadata body) (h : Paid OT metadata body S sys)
    (hsup : Supplied OT metadata body S sys ev) : sys.Meets OT metadata.blockCount True ev := by
  refine ⟨hsup.stop, fun env cmd ho => ?_⟩
  cases ev with
  | external env' cmd' =>
    cases ho
    exact hsup.fits env cmd rfl
  | registerOutgoing env' peer => cases ho; trivial
  | registerIncoming env' peer => cases ho; trivial
  | receive env' peer =>
    obtain ⟨cmd', hcmd, heq⟩ := Option.map_eq_some_iff.mp ho
    cases heq
    have hmem := List.mem_of_mem_head? hcmd
    refine fits_of_served hc (h.served peer cmd hmem) ?_
    rw [h.steady.orderly.received peer cmd hmem]
    rfl
  | _ => cases ho

omit [DecidableEq H] [DecidableEq StoreId] [ECGHeader Header HeaderId]
  [CRDT T Op (OperationId HeaderId)] in
lemma Paid.offered_served (h : Paid OT metadata body S sys) (hen : sys.enabled ev = true)
    (ho : sys.offered ev = some (env, cmd)) (hd : cmd.isDownload = true) :
    cmd.Served StoreId T metadata body := by
  cases ev with
  | external env' cmd' => cases ho; cases cmd <;> first | (cases hen; done) | cases hd
  | registerOutgoing env' peer => cases ho; cases hd
  | registerIncoming env' peer => cases ho; cases hd
  | receive env' peer =>
    obtain ⟨cmd', hcmd, heq⟩ := Option.map_eq_some_iff.mp ho
    cases heq
    exact h.served peer cmd (List.mem_of_mem_head? hcmd) hd
  | _ => cases ho

lemma rank_ne_zero_of_phaseStep {sm sm' : StateMachine StoreId H HeaderId Header T}
    (h : PhaseStep OT cmd sm sm') : sm'.rank ≠ 0 := by
  cases h <;> simp [StateMachine.rank]

lemma track_of_handleStore (hc : Created body.initialState metadata body)
    {s s' : State StoreId H HeaderId Header T} {listeners : List Chan}
    (hon : OnTrack metadata body OT s.stateMachine)
    (hserved : cmd.isDownload = true → cmd.Served StoreId T metadata body)
    (h : Handler.handleStore OT env listeners s cmd = .ok s') :
    OnTrack metadata body OT s'.stateMachine ∧
      (s.stateMachine.rank ≠ 0 → s'.stateMachine.rank ≠ 0) := by
  have heffects := handleStore_effects h
  clear h
  induction heffects with
  | refl => exact ⟨hon, id⟩
  | tail _ hchange ih =>
    rcases hchange with hchange | htouch
    · rcases hchange.phaseStep with heq | hstep
      · rw [heq]
        exact ih
      · exact ⟨ih.1.step hc hserved hstep, fun _ => rank_ne_zero_of_phaseStep hstep⟩
    · rw [htouch.stateMachine_eq]
      exact ih

omit [Hash H] [DecidableEq H] [DecidableEq StoreId] [ECGHeader Header HeaderId]
  [CRDT T Op (OperationId HeaderId)] in
lemma wants_eq_nil (hI : sys.Orderly) {p : DeviceId}
    (h : ∀ b, ¬ sys.handler.store.Running p b) : (sys.tasks p).wants = [] := by
  have hlen := hI.length_wants p
  rcases hI.inFlight_cases p with ⟨b, hb, -⟩ | ⟨-, hzero⟩
  · exact absurd hb (h b)
  · exact List.length_eq_zero_iff.mp (hlen.trans hzero)

lemma Paid.mem_of_readies (h : Paid OT metadata body S sys)
    (hsup : Supplied OT metadata body S sys ev) (hen : sys.enabled ev = true)
    (ho : sys.offered ev = some (env, cmd)) (hs : Handler.handleStore OT env
      sys.handler.listeners sys.handler.store cmd = .ok sys'.handler.store)
    {q : DeviceId} (hq : cmd.readies = some q) :
    q ∈ S ∧ (sys.tasks q).wants = cmd.brings.toList ∧
      (fun p => ((sys.consume ev).tasks p).wants) =
        Function.update (fun p => (sys.tasks p).wants) q [] := by
  have hI := h.steady.orderly
  cases ev with
  | external env' cmd' => cases ho; cases cmd <;> first | (cases hen; done) | cases hq
  | registerIncoming env' peer => cases ho; cases hq
  | registerOutgoing env' peer =>
    cases ho
    cases hq
    have hnil : (sys.tasks q).wants = [] := by
      refine wants_eq_nil hI fun b hb => ?_
      obtain ⟨s₁, hp, -⟩ := bind_eq_ok.mp hs
      obtain ⟨info, hget, hd, -⟩ := updatePeerToSyncing_ok hp
      cases hd.symm.trans ((running_of_get hget).mp hb)
    refine ⟨hsup.peers _ _ rfl, hnil, ?_⟩
    funext p
    by_cases hp : p = q
    · subst hp
      rw [Function.update_self]
      exact hnil
    · rw [Function.update_of_ne hp]
      rfl
  | receive env' peer =>
    obtain ⟨cmd', hcmd, heq⟩ := Option.map_eq_some_iff.mp ho
    cases heq
    obtain ⟨received, hr⟩ := List.head?_eq_some_iff.mp hcmd
    have hfrom := hI.received peer cmd (List.mem_of_mem_head? hcmd)
    have hpeer : peer = q := by
      cases cmd <;> first | (cases hfrom; done) | exact Option.some.inj (hfrom.symm.trans hq)
    subst hpeer
    obtain ⟨w, hw⟩ := Option.isSome_iff_exists.mp (isSome_brings.mpr ⟨peer, hfrom⟩)
    have hcons : (sys.tasks peer).wants =
        w :: ((sys.consume (.receive env peer)).tasks peer).wants := wants_consume_receive hr hw
    have hlen := hI.length_wants peer
    rw [hcons, List.length_cons] at hlen
    obtain ⟨b, hb, hone⟩ | ⟨-, hzero⟩ := hI.inFlight_cases peer
    · have hnil : ((sys.consume (.receive env peer)).tasks peer).wants = [] := by
        refine List.length_eq_zero_iff.mp ?_
        have hle : b.toNat ≤ 1 := Bool.toNat_le b
        omega
      refine ⟨h.peers peer b hb, by rw [hcons, hnil, hw]; rfl, ?_⟩
      funext p
      by_cases hp : p = peer
      · subst hp
        rw [Function.update_self, hnil]
      · rw [Function.update_of_ne hp]
        refine wants_consume_ne _ ?_
        rintro env'' heq
        cases heq
        exact hp rfl
    · omega
  | _ => cases ho

/-- What the store keeps of a command that readies a peer is worth what was set aside for it. -/
lemma Paid.funds_of_command (hc : Created body.initialState metadata body)
    (h : Paid OT metadata body S sys)
    (hserved : cmd.isDownload = true → cmd.Served StoreId T metadata body)
    (hids : ∀ i ∈ cmd.blockIds, i < metadata.blockCount)
    {s' : State StoreId H HeaderId Header T}
    (hs : Handler.handleStore OT env sys.handler.listeners sys.handler.store cmd = .ok s')
    {q : DeviceId} (hq : cmd.readies = some q) (hmem : q ∈ S)
    (hwants : (sys.tasks q).wants = cmd.brings.toList)
    (hbegun : ∀ w, cmd.brings = some w → w.rank ≠ 0 → sys.phase.rank ≠ 0) :
    funds S metadata.blockCount s'.stateMachine
        (Function.update (fun p => (sys.tasks p).wants) q []) ≤
      funds S metadata.blockCount sys.phase fun p => (sys.tasks p).wants := by
  -- a useless answer leaves the phase, and is charged like a request that is still to be sent
  have hsame : ∀ w : Want, cmd.brings = some w → w.rank ≠ 0 → w ≠ .metadata →
      ¬ w.Useful sys.phase → s'.stateMachine = sys.phase →
      funds S metadata.blockCount s'.stateMachine
          (Function.update (fun p => (sys.tasks p).wants) q []) ≤
        funds S metadata.blockCount sys.phase fun p => (sys.tasks p).wants := by
    intro w hw hrank hne hno hphase
    rw [hphase]
    refine (funds_of_same (fun _ => rfl) rfl ?_).le
    rw [hwants, hw]
    have h0 := hbegun w hw hrank
    cases w with
    | metadata => exact absurd rfl hne
    | _ => simp only [charge, Option.toList_some, if_neg h0, if_neg hno]
  cases cmd with
  | registerOutgoingPeerSyncing peer =>
    cases hq
    obtain ⟨s₁, hp, hsend⟩ := bind_eq_ok.mp hs
    have hphase : s'.stateMachine = sys.phase :=
      ((touches_updatePeerToSyncing hp).trans (touches_sendSyncRequests hsend)).stateMachine_eq
    rw [hphase]
    exact (funds_of_same (fun _ => rfl) rfl (by rw [hwants]; rfl)).le
  | receivedMetadata peer m =>
    cases hq
    obtain rfl := (hserved rfl).metadata_eq
    obtain ⟨s₂, hreceived, hsend⟩ := bind_eq_ok.mp hs
    obtain ⟨hrank, hrem⟩ := metadata_served hc h.track hreceived
    rw [← (touches_sendSyncRequests hsend).stateMachine_eq] at hrank hrem
    exact funds_of_metadata hmem hrank hrem hwants
  | receivedMerkleHashes peer ranges nodes =>
    cases hq
    obtain ⟨s₂, hreceived, hsend⟩ := bind_eq_ok.mp hs
    obtain ⟨huse, hno⟩ := nodes_served hc h.track h.steady.store (hserved rfl) hreceived
    rw [← (touches_sendSyncRequests hsend).stateMachine_eq] at huse hno
    by_cases hu : (Want.nodes ranges).Useful sys.phase
    · exact funds_of_useful hmem (huse hu).1 (huse hu).2
    · exact hsame _ rfl (by simp [Want.rank]) (by simp) hu (hno hu)
  | receivedInitialStateBlocks peer ranges blocks =>
    cases hq
    obtain ⟨s₂, hreceived, hsend⟩ := bind_eq_ok.mp hs
    obtain ⟨huse, hno⟩ := blocks_served hc h.track h.steady.store (hserved rfl) hids hreceived
    rw [← (touches_sendSyncRequests hsend).stateMachine_eq] at huse hno
    by_cases hu : (Want.blocks ranges).Useful sys.phase
    · exact funds_of_useful hmem (huse hu).1 (huse hu).2
    · exact hsame _ rfl (by simp [Want.rank]) (by simp) hu (hno hu)
  | receivedECGOperations peer operations =>
    cases hq
    obtain ⟨hbefore, hafter⟩ := isSyncing_of_operations hs
    refine (funds_of_same (fun ws => charge_of_isSyncing hbefore hafter) ?_ ?_).le
    · rw [remaining_of_isSyncing hbefore, remaining_of_isSyncing hafter]
    · have h0 := hbegun _ rfl (by decide)
      rw [hwants]
      simp only [charge, Command.brings, Option.toList_some, if_neg h0,
        if_neg not_useful_operations]
  | _ => cases hq

omit [Hash H] [DecidableEq H] [DecidableEq StoreId] [ECGHeader Header HeaderId]
  [CRDT T Op (OperationId HeaderId)] in
lemma countP_isDownload_of_quiet {l : List (Sent StoreId H HeaderId Header T)}
    (h : ∀ p r, Sent.command p r ∉ l) : l.countP Sent.isDownload = 0 := by
  refine List.countP_eq_zero.mpr fun m hm => ?_
  cases m with
  | command p r => exact absurd hm (h p r)
  | _ => exact Bool.false_ne_true

/-- Requests are paid for when they are sent. -/
lemma Paid.paid_step (hc : Created body.initialState metadata body)
    (h : Paid OT metadata body S sys) (hsup : Supplied OT metadata body S sys ev)
    (hen : sys.enabled ev = true) (hnext : sys.next OT ev = .ok sys') :
    sys'.handler.store.sent.countP Sent.isDownload +
      funds S metadata.blockCount sys'.phase (fun p => (sys'.tasks p).wants) ≤
        sys.handler.store.sent.countP Sent.isDownload +
          funds S metadata.blockCount sys.phase fun p => (sys.tasks p).wants := by
  cases ho : sys.offered ev with
  | none =>
    have hwants : (fun p => (sys'.tasks p).wants) = fun p => (sys.tasks p).wants :=
      funext fun p => wants_of_not_offered hen hsup.stop ho hnext p
    rw [hwants, phase, handler_of_not_offered ho hnext]
  | some c =>
    obtain ⟨env, cmd⟩ := c
    obtain ⟨hs, hwants⟩ := wants_of_offered ho hnext
    have hserved := h.offered_served hen ho
    cases hq : cmd.readies with
    | none =>
      have hbrings : cmd.brings = none := by cases cmd <;> first | rfl | cases hq
      obtain ⟨⟨l, hl, hno⟩, -⟩ := handleStore_quiet hq hs
      have hsame : (fun p => (sys'.tasks p).wants) = fun p => (sys.tasks p).wants := by
        funext p
        rw [hwants l hl, asked_of_quiet hno, List.append_nil,
          wants_consume_of_not_brings h.steady.orderly ho hbrings]
      rw [hsame, hl, List.countP_append, countP_isDownload_of_quiet hno, Nat.add_zero]
      refine Nat.add_le_add_left (le_of_eq ?_) _
      rcases phase_of_not_brings hbrings hs with hphase | ⟨hbefore, hafter⟩
      · rw [show sys'.phase = sys.phase from hphase]
      · unfold funds
        rw [remaining_of_isSyncing hbefore, remaining_of_isSyncing hafter]
        exact congrArg (· + _) (Finset.sum_congr rfl fun p _ => charge_of_isSyncing hbefore hafter)
    | some q =>
      obtain ⟨hmem, hbrings, hconsume⟩ := h.mem_of_readies hsup hen ho hs hq
      obtain ⟨s₂, ⟨l, hl, hno⟩, hsend, hself, hother⟩ := handleStore_round hq hs
      obtain ⟨⟨r, hreqs, hsent⟩, -⟩ := round_of_one (p := q) (fun p => ⟨fun hp => by
        by_contra hne
        exact h.idle p ((hother p false hne).mp hp), fun hp => hp ▸ hself⟩) hsend
      obtain ⟨hrank, huseful⟩ := useful_of_request hreqs List.mem_cons_self
      rw [← (touches_sendSyncRequests hsend).stateMachine_eq] at hrank huseful
      rw [hl, List.append_assoc] at hsent
      have hnew : (fun p => (sys'.tasks p).wants) =
          Function.update (fun p => (sys.tasks p).wants) q [r.want] := by
        funext p
        rw [hwants _ hsent, asked_append, asked_of_quiet hno, List.nil_append,
          congrFun hconsume p]
        by_cases hp : p = q
        · subst hp
          simp [asked]
        · simp [Function.update_of_ne hp, asked, Ne.symm hp]
      have hpaid : [(.command q r : Sent StoreId H HeaderId Header T)].countP Sent.isDownload +
          funds S metadata.blockCount sys'.phase
            (Function.update (fun p => (sys.tasks p).wants) q [r.want]) =
          funds S metadata.blockCount sys'.phase
            (Function.update (fun p => (sys.tasks p).wants) q []) :=
        funds_of_request hmem hrank huseful
      have hfunds : funds S metadata.blockCount sys'.phase
            (Function.update (fun p => (sys.tasks p).wants) q []) ≤
          funds S metadata.blockCount sys.phase fun p => (sys.tasks p).wants :=
        h.funds_of_command hc hserved (h.steady.blockIds hen ho) hs hq hmem hbrings ?_
      · rw [hnew, hsent, List.countP_append, List.countP_append, countP_isDownload_of_quiet hno]
        omega
      · cases ev with
        | receive env' peer => exact h.begun.offered ho
        | external env' cmd' => cases ho; cases cmd <;> first | (cases hen; done) | (intro w hw; cases hw)
        | registerOutgoing env' peer => cases ho; intro w hw; cases hw
        | registerIncoming env' peer => cases ho; intro w hw; cases hw
        | _ => cases ho

omit [Hash H] [DecidableEq H] [DecidableEq StoreId] [ECGHeader Header HeaderId]
  [CRDT T Op (OperationId HeaderId)] in
lemma running_of_round {s s' : State StoreId H HeaderId Header T} {rng : Rng} {p : DeviceId}
    {b : Bool} (h : s.sendSyncRequests rng = .ok s') (hp : s'.Running p b) :
    ∃ b, s.Running p b := by
  obtain ⟨reqs, peers, hreqs, rfl, hpeers⟩ := sendSyncRequests_ok h
  obtain ⟨-, hready⟩ := ready_of_syncRequests hreqs
  obtain ⟨info, hget, hd⟩ := hp
  rw [show (s.AfterPeers peers (commands reqs)).peers = peers from rfl, hpeers] at hget
  split_ifs at hget with hmem
  · exact ⟨false, hready p hmem⟩
  · exact ⟨b, info, hget, hd⟩

theorem Paid.step (hc : Created body.initialState metadata body)
    (h : Paid OT metadata body S sys) (hsup : Supplied OT metadata body S sys ev)
    (hen : sys.enabled ev = true) (hnext : sys.next OT ev = .ok sys') :
    Paid OT metadata body S sys' := by
  have hphase : OnTrack metadata body OT sys'.phase ∧ (sys.phase.rank ≠ 0 → sys'.phase.rank ≠ 0) ∧
      ∀ p b, sys'.handler.store.Running p b → p ∈ S := by
    cases ho : sys.offered ev with
    | none =>
      rw [phase, handler_of_not_offered ho hnext]
      exact ⟨h.track, id, h.peers⟩
    | some c =>
      obtain ⟨env, cmd⟩ := c
      obtain ⟨hs, -⟩ := wants_of_offered ho hnext
      obtain ⟨htrack, hrank⟩ := track_of_handleStore hc h.track (h.offered_served hen ho) hs
      refine ⟨htrack, hrank, fun p b hp => ?_⟩
      cases hq : cmd.readies with
      | none => exact h.peers p b (((handleStore_quiet hq hs).2 p b).mp hp)
      | some q =>
        obtain ⟨s₂, -, hsend, -, hother⟩ := handleStore_round hq hs
        obtain ⟨b', hb'⟩ := running_of_round hsend hp
        by_cases hpq : p = q
        · rw [hpq]
          exact (h.mem_of_readies hsup hen ho hs hq).1
        · exact h.peers p b' ((hother p b' hpq).mp hb')
  obtain ⟨htrack, hrank, hpeers⟩ := hphase
  refine ⟨h.steady.step hc.pos hen (h.meets hc hsup) hnext, h.idle.step hnext, htrack,
    fun p cmd hmem hd => ?_, ?_, hpeers, (h.paid_step hc hsup hen hnext).trans h.paid⟩
  · rcases mem_received_next hnext hmem with hmem | rfl
    · exact h.served p cmd hmem hd
    · exact hsup.served p cmd rfl hd
  · refine InFlight.step (h.begun.mono (fun r hr hne => hrank (hr hne)) fun cmd hb w hw hne =>
      hrank (hb w hw hne)) hen ?_ ?_ hnext
    · intro peer r cmd hr ha w hw
      rw [brings_of_answers ha] at hw
      exact Option.some.inj hw ▸ hr
    · intro rng s₂ reqs hsm hreqs r hr hne
      rw [(useful_of_request hreqs hr).1, hsm] at hne
      exact hne

omit [DecidableEq H] [DecidableEq StoreId] [ECGHeader Header HeaderId]
  [CRDT T Op (OperationId HeaderId)] in
lemma paid_start : Paid OT metadata body S
    (start ⟨.newDownloading (metadata.storeId OT.into), []⟩ :
      System StoreId H HeaderId Header Body T) where
  steady := steady_start _ []
  idle := nobodyIdle_start rfl
  track := rfl
  served _ _ hmem := absurd hmem List.not_mem_nil
  begun := inFlight_start _
  peers := by
    rintro p b ⟨info, hp, -⟩
    cases hp
  paid := by
    have hsum : ∀ p ∈ S, charge ((3 * metadata.blockCount + 1) * (S.card + 1))
        (start ⟨.newDownloading (metadata.storeId OT.into), []⟩ :
          System StoreId H HeaderId Header Body T).phase [] =
            (3 * metadata.blockCount + 1) * (S.card + 1) + 1 := fun _ _ => rfl
    change 0 + (∑ p ∈ S, charge _ _ [] + 0 * (S.card + 1)) ≤ _
    rw [Finset.sum_congr rfl hsum, Finset.sum_const, smul_eq_mul]
    omega

lemma paid_run (hc : Created body.initialState metadata body)
    (hrun : Run OT (Supplied OT metadata body S)
      (start ⟨.newDownloading (metadata.storeId OT.into), []⟩) sys) :
    Paid OT metadata body S sys := by
  induction hrun with
  | refl => exact paid_start
  | step ev _ hen hsup hnext ih => exact ih.step hc hsup hen hnext

omit [Hash H] [DecidableEq H] [DecidableEq StoreId] [ECGHeader Header HeaderId]
  [CRDT T Op (OperationId HeaderId)] in
lemma want_ne_operations (hask : sys.EcgAsked) (hs : sys.phase.isSyncing = false) {p : DeviceId}
    {w : Want} (hw : w ∈ (sys.tasks p).wants) : w ≠ .operations := by
  rintro rfl
  have hno : sys.phase.isSyncing ≠ true := Bool.eq_false_iff.mp hs
  have hrequest : ∀ r : StoreSyncCommand HeaderId Header, r.want = .operations →
      r.isEcg = true := by
    rintro (_ | _ | _ | _) hr <;> first | rfl | cases hr
  rw [Task.wants, List.mem_append, List.mem_append, List.mem_filterMap, List.mem_map] at hw
  obtain (⟨cmd, hmem, hbrings⟩ | hcurrent) | ⟨r, hmem, hr⟩ := hw
  · cases cmd with
    | receivedECGOperations peer ops => exact hno ((hask p).received _ hmem peer ops rfl)
    | _ => cases hbrings
  · cases hc : (sys.tasks p).current with
    | running r =>
      rw [hc] at hcurrent
      exact hno ((hask p).current hc (hrequest r (List.mem_singleton.mp hcurrent).symm))
    | idle => rw [hc] at hcurrent; cases hcurrent
    | stopped => rw [hc] at hcurrent; cases hcurrent
  · exact hno ((hask p).queue r hmem (hrequest r hr))

/-- **A download completes**, in every run of a store with peers that have all the data. The store
sends no more than so many requests, every answer that is heard is handled if the initial state
parses, and while the store does not sync, every peer it syncs with has something to send it, as
long as no metadata is accepted after the first. So it syncs once they have sent it, and then it has
the creator's data. -/
theorem download_completes {bytes : List UInt8} {nonce : Nonce} {storeType : TypeId}
    (hne : bytes ≠ []) (hlen : bytes.length < 2 ^ 64) (hbody : MetadataBody.new bytes = .ok body)
    (hmeta : MetadataHeader.generate nonce storeType body = .ok metadata)
    (hrun : Run OT (Supplied OT metadata body S)
      (start ⟨.newDownloading (metadata.storeId OT.into), []⟩) sys) :
    sys.handler.store.sent.countP Sent.isDownload ≤
      S.card * ((3 * metadata.blockCount + 1) * (S.card + 1) + 1) ∧
    (∀ latest, OT.fromSlice bytes = some latest → ∀ ev env cmd, sys.enabled ev = true →
      Supplied OT metadata body S sys ev → sys.offered ev = some (env, cmd) →
      cmd.isDownload = true → sys.handler.Heard env cmd → ∃ sys', sys.next OT ev = .ok sys') ∧
    (Run OT (fun sys ev => Supplied OT metadata body S sys ev ∧ InTime OT sys ev)
        (start ⟨.newDownloading (metadata.storeId OT.into), []⟩) sys →
      sys.phase.isSyncing = false → ∀ p b, sys.handler.store.Running p b →
        ∃ w, (sys.tasks p).wants = [w] ∧ w ≠ .operations) ∧
    ∀ m tree initialState ecg latest,
      sys.phase = .syncing m tree initialState ecg latest →
        m = metadata ∧ tree = body.merkleTree ∧ initialState = bytes := by
  have hc := created_of_generate hne hlen hbody hmeta
  obtain rfl := hc.initialState
  have hpaid := paid_run hc hrun
  refine ⟨(Nat.le_add_right _ _).trans hpaid.paid,
    fun latest hparse ev env cmd hen hsup ho hd hheard => ?_, fun htime hs p b hp => ?_,
    fun m tree initialState ecg latest hs => ?_⟩
  · have hagrees := hpaid.steady.orderly.agrees
    rw [← hpaid.steady.orderly.inFlight_consume hen ho] at hagrees
    obtain ⟨s₁, hready⟩ : ∃ s₁, statusCall OT env sys.handler.store cmd = .ok s₁ :=
      exists_statusCall hagrees
    obtain ⟨s', hs'⟩ : ∃ s', Handler.handleStore OT env sys.handler.listeners
        sys.handler.store cmd = .ok s' :=
      exists_handleStore_of_served hc hpaid.track hpaid.steady.store hparse hd
        (hpaid.offered_served hen ho hd) ((hpaid.meets hc hsup).2 env cmd ho)
        (hpaid.steady.blockIds hen ho) hready
    rw [next_of_offered ho, System.command, consume_handler, Handler.handle_of_heard hs' hheard]
    exact ⟨_, rfl⟩
  · have hstarted : Started OT (.newDownloading (metadata.storeId OT.into) :
        State StoreId H HeaderId Header T) := .downloading _
    obtain ⟨-, honward⟩ := (onward_start hstarted).run (htime.mono fun _ _ h => h.2)
    have hone : (sys.tasks p).wants.length = 1 := by
      rw [hpaid.steady.orderly.length_wants p]
      obtain ⟨b', hb', heq⟩ | ⟨hno, -⟩ := hpaid.steady.orderly.inFlight_cases p
      · cases b' with
        | true => exact heq
        | false => exact absurd hb' (hpaid.idle p)
      · exact absurd hp (hno b)
    obtain ⟨w, hw⟩ := List.length_eq_one_iff.mp hone
    exact ⟨w, hw, want_ne_operations honward.asked hs (hw ▸ List.mem_singleton_self w)⟩
  · have htrack := hpaid.track
    rw [hs] at htrack
    exact htrack

/-! Two peers of the counter with three blocks: the first one sends everything, the second one
nothing. -/

section Three

open V0

local instance instHashThreeSent : Hash UInt8 := tableHash threeTable

/-- Peer 1 sends the metadata and the merkle tree, and then the blocks. -/
def threeSent : List (Event UInt8 ℕ TestHeader (List ℕ)) :=
  [.external calm (.registerPeers [1, 2]), .registerOutgoing calm 1, .registerOutgoing calm 2,
    .take 1, .answer 1 (.receivedMetadata 1 threeMetadata), .receive calm 1,
    .take 1, .answer 1 (.receivedMerkleHashes 1 [⟨1, 5⟩] [3, 0, 2, 1]), .receive calm 1,
    .take 1, .answer 1 (.receivedInitialStateBlocks 1 [⟨0, 3⟩]
      [some firstBlock, some secondBlock, some [9]])]

def threeReceived : List (Event UInt8 ℕ TestHeader (List ℕ)) := threeSent ++ [.receive calm 1]

lemma threeBlocks_served : (.receivedInitialStateBlocks 1 [⟨0, 3⟩]
      [some firstBlock, some secondBlock, some [9]] : Command UInt8 ℕ TestHeader (List ℕ)).Served
    UInt8 Counter threeMetadata ⟨threeBytes, threeTree⟩ := by
  have hslice : ∀ {i b}, (chunks BLOCK_SIZE threeBytes)[i]? = some b →
      sliceBlock threeBytes i = .ok (some b) := fun h =>
    h ▸ sliceBlock_of_lt (List.getElem?_eq_some_iff.mp h).1
  rw [chunks_threeBytes] at hslice
  have hmap : [0, 1, 2].mapM (sliceBlock threeBytes) =
      .ok [some firstBlock, some secondBlock, some [9]] :=
    mapM_eq_ok.mpr (.cons (hslice rfl) (.cons (hslice rfl) (.cons (hslice rfl) .nil)))
  refine ⟨.new, ⟨7⟩, bind_eq_ok.mpr ⟨_, bind_eq_ok.mpr ⟨_, hmap, rfl⟩, rfl⟩⟩

lemma threeReceived_supplied (sys : System UInt8 UInt8 ℕ TestHeader (List ℕ) Counter)
    {ev : Event UInt8 ℕ TestHeader (List ℕ)} (hev : ev ∈ threeReceived) :
    Supplied counterType threeMetadata ⟨threeBytes, threeTree⟩ {1, 2} sys ev where
  stop := by
    revert ev
    decide
  served peer cmd heq hd := by
    subst heq
    obtain ⟨rfl, rfl⟩ | ⟨rfl, rfl⟩ | ⟨rfl, rfl⟩ := by simpa [threeReceived, threeSent] using hev
    · exact ⟨.new, ⟨7⟩, rfl⟩
    · exact ⟨.new, ⟨7⟩, rfl⟩
    · exact threeBlocks_served
  peers env peer heq := by
    subst heq
    obtain ⟨-, rfl⟩ | ⟨-, rfl⟩ := by simpa [threeReceived, threeSent] using hev
    · decide
    · decide
  fits env cmd heq := by
    subst heq
    obtain ⟨rfl, rfl⟩ := by simpa [threeReceived, threeSent] using hev
    trivial

lemma threeSent_runs : (execIf counterType inTime (start threeDownload) threeSent).toOption.any
    (fun sys => sys.phase.isSyncing = false ∧
      sys.handler.store.peers[(1 : DeviceId)]? = some ⟨.known, .syncing ⟨true⟩⟩ ∧
      (sys.tasks 1).received.map Command.isDownload = [true]) = true := by
  decide +kernel

lemma threeReceived_runs :
    (execIf counterType inTime (start threeDownload) threeReceived).toOption.any
      (fun sys => sys.phase.synced.isSome) = true := by
  decide +kernel

/-- The blocks are all that is on its way, they can be received, and then the store has the
creator's data. -/
theorem download_completes_three :
    (∃ sys w sys', execIf counterType inTime (start threeDownload) threeSent = .ok sys ∧
      (sys.tasks 1).wants = [w] ∧ w ≠ .operations ∧
      sys.next counterType (.receive calm 1) = .ok sys') ∧
    ∃ sys m tree initialState ecg latest,
      execIf counterType inTime (start threeDownload) threeReceived = .ok sys ∧
        sys.handler.store.sent.countP Sent.isDownload ≤ 62 ∧
        sys.phase = .syncing m tree initialState ecg latest ∧ m = threeMetadata ∧
        tree = threeTree ∧ initialState = threeBytes := by
  constructor
  · obtain ⟨sys, hrun, h⟩ := exists_of_any threeSent_runs
    obtain ⟨hsyncing, hpeer, hreceived⟩ := of_decide_eq_true h
    have hsupplied : Run counterType (fun sys ev => Supplied counterType threeMetadata
        ⟨threeBytes, threeTree⟩ {1, 2} sys ev ∧ InTime counterType sys ev) _ sys :=
      run_of_execIf (fun sys ev hev hin => ⟨threeReceived_supplied sys
        (List.mem_append_left _ hev), inTime_sound sys ev hin⟩) hrun
    obtain ⟨cmd, hcmd, hdownload⟩ :
        ∃ cmd, (sys.tasks 1).received = [cmd] ∧ cmd.isDownload = true := by
      simpa using List.map_eq_singleton_iff.mp hreceived
    obtain ⟨-, hnext, hwants, -⟩ := download_completes threeBytes_ne_nil length_threeBytes_lt
      three_body three_metadata (hsupplied.mono fun _ _ h => h.1)
    obtain ⟨w, hw, hdownloads⟩ := hwants hsupplied hsyncing 1 true ⟨_, hpeer, rfl⟩
    obtain ⟨sys', hok⟩ := hnext ⟨7⟩ rfl (.receive calm 1) calm cmd (by simp [enabled, hcmd])
      (threeReceived_supplied sys (List.mem_append_right _ (List.mem_singleton_self _)))
      (by simp [offered, hcmd]) hdownload fun _ _ => rfl
    exact ⟨sys, w, sys', hrun, hw, hdownloads, hok⟩
  · obtain ⟨sys, hrun, hsome⟩ := exists_of_any threeReceived_runs
    obtain ⟨⟨m, tree, initialState⟩, hsynced⟩ := Option.isSome_iff_exists.mp hsome
    obtain ⟨ecg, latest, hs⟩ := exists_of_synced hsynced
    obtain ⟨hcount, -, -, hdata⟩ := download_completes threeBytes_ne_nil length_threeBytes_lt
      three_body three_metadata
      (run_of_execIf (fun sys ev hev _ => threeReceived_supplied sys hev) hrun)
    exact ⟨sys, m, tree, initialState, ecg, latest, hrun, hcount, hs, hdata _ _ _ _ _ hs⟩

end Three

end System

end Ossa.Store
