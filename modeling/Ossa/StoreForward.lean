import Ossa.StoreDownload
import Ossa.StoreInFlight
import Ossa.StoreSyncing
import Ossa.StoreWaiting

/-!
A store goes forward: its phase, the nodes and blocks it has verified, and its headers.

Every handler but the one for metadata looks at the phase first. So a store goes forward as long
as metadata is only accepted by a store that waits for it; and a peer is asked for operations,
and answers, only when the store syncs for good.
-/

namespace Ossa.Store

open Ossa.Loop Ossa.Util Ossa.Util.MerkleTree Ossa.Collections Ossa.Ecg Ossa.Crdt State

variable {StoreId H HeaderId Header Body T Op : Type} [LinearOrder HeaderId]

/-! ### What a phase has -/

namespace StateMachine

def rank : StateMachine StoreId H HeaderId Header T → ℕ
  | downloadingMetadata _ => 0
  | downloadingMerkle _ _ => 1
  | downloadingInitialState _ _ _ => 2
  | syncing _ _ _ _ _ => 3

def hasHeader (id : HeaderId) : StateMachine StoreId H HeaderId Header T → Bool
  | syncing _ _ _ ecg _ => ecg.contains id
  | _ => false

/-- The hash of a node of the merkle tree, once it is verified. -/
def verifiedNode (i : ℕ) : StateMachine StoreId H HeaderId Header T → Option H
  | downloadingMetadata _ => none
  | downloadingMerkle _ tree => tree.nodes[i]? >>= Potential.verified?
  | downloadingInitialState _ tree _ => tree.nodes[i]?
  | syncing _ tree _ _ _ => tree.nodes[i]?

/-- The blocks, which make up the initial state in the end. -/
def HasBlocks (blocks : List (Option (List UInt8))) :
    StateMachine StoreId H HeaderId Header T → Prop
  | downloadingInitialState _ _ blocks' => blocks' = blocks
  | syncing _ _ initialState _ _ => none ∉ blocks ∧ initialState = (blocks.filterMap id).flatten
  | _ => False

/-- Nothing that `sm` has is lost in `sm'`. -/
structure Retains (sm sm' : StateMachine StoreId H HeaderId Header T) : Prop where
  rank : sm.rank ≤ sm'.rank
  headers (id : HeaderId) : sm.hasHeader id = true → sm'.hasHeader id = true
  nodes (i : ℕ) (h : H) : sm.verifiedNode i = some h → sm'.verifiedNode i = some h
  blocks (bs : List (Option (List UInt8))) : sm.HasBlocks bs → ∃ bs', sm'.HasBlocks bs' ∧
    ∀ (i : ℕ) b, bs[i]? = some (some b) → bs'[i]? = some (some b)

variable {sm sm' sm'' : StateMachine StoreId H HeaderId Header T}

lemma Retains.refl (sm : StateMachine StoreId H HeaderId Header T) : sm.Retains sm :=
  ⟨le_rfl, fun _ h => h, fun _ _ h => h, fun bs h => ⟨bs, h, fun _ _ hb => hb⟩⟩

lemma Retains.trans (h : sm.Retains sm') (h' : sm'.Retains sm'') : sm.Retains sm'' where
  rank := h.rank.trans h'.rank
  headers id hid := h'.headers id (h.headers id hid)
  nodes i v hv := h'.nodes i v (h.nodes i v hv)
  blocks bs hbs := by
    obtain ⟨bs', hbs', hkeep⟩ := h.blocks bs hbs
    obtain ⟨bs'', hbs'', hkeep'⟩ := h'.blocks bs' hbs'
    exact ⟨bs'', hbs'', fun i b hb => hkeep' i b (hkeep i b hb)⟩

lemma retains_downloadingMetadata (storeId : StoreId) :
    (downloadingMetadata storeId : StateMachine StoreId H HeaderId Header T).Retains sm where
  rank := Nat.zero_le _
  headers _ h := by cases h
  nodes _ _ h := by cases h
  blocks _ h := h.elim

/-- What the parts of a store keep about themselves. -/
def Sane [Hash H] [ECGHeader Header HeaderId] : StateMachine StoreId H HeaderId Header T → Prop
  | downloadingMerkle _ tree => ∃ root, Sound root (fun _ => False) tree
  | syncing _ _ _ ecg _ => ecg.WellFormed
  | _ => True

end StateMachine

/-! ### One command -/

variable [Hash H] [DecidableEq H] [DecidableEq StoreId]
variable [ECGHeader Header HeaderId] [CRDT T Op (OperationId HeaderId)]
variable {OT : OssaType StoreId H HeaderId Body T Op} {env : Environment}
variable {s s' : State StoreId H HeaderId Header T} {sm sm' : StateMachine StoreId H HeaderId Header T}
variable {peer : DeviceId} {listeners : List Chan} {cmd : Command H HeaderId Header Body}

omit [DecidableEq H] in
lemma exists_sound_newWithCapacity {root : H} {n : ℕ} {tree : MerkleTree (Potential H)}
    (h : MerkleTree.newWithCapacity root n = .ok tree) : Sound root (fun _ => False) tree := by
  have hn : 1 ≤ n := by
    rcases Nat.eq_zero_or_pos n with rfl | hpos
    · cases h
    · exact hpos
  obtain ⟨tree', ht', -, hsound⟩ := newWithCapacity_spec root hn
  rw [h] at ht'
  cases ht'
  exact hsound

omit [Hash H] [DecidableEq H] [DecidableEq StoreId] in
lemma retains_insertAll {metadata : MetadataHeader H} {tree : MerkleTree H}
    {initialState : List UInt8} {ecg : UntypedState HeaderId Header} {latest latest' : T}
    (hs : ecg.WellFormed) (calls : List (Header × RawECGBody)) :
    (StateMachine.syncing metadata tree initialState ecg latest :
      StateMachine StoreId H HeaderId Header T).Retains
      (.syncing metadata tree initialState (insertAll ecg calls) latest') where
  rank := le_rfl
  headers _ hid := (hs.grows_insertAll calls).contains hid
  nodes _ _ hv := hv
  blocks bs hbs := ⟨bs, hbs, fun _ _ hb => hb⟩

/-- **Every change but that of the metadata retains what there is.** -/
theorem PhaseStep.retains (h : PhaseStep OT cmd sm sm') (hs : sm.Sane)
    (hcmd : cmd.isMetadata = false) : sm.Retains sm' ∧ sm'.Sane := by
  cases h with
  | metadata peer metadata hv ht => cases hcmd
  | @merkle metadata tree tree' peer ranges nodes ht =>
    obtain ⟨root, hsound⟩ := hs
    obtain ⟨t, heq, hsound', hkeeps⟩ := setAll_spec hsound ((flattenRanges ranges).zip nodes)
    rw [ht] at heq
    cases heq
    refine ⟨⟨le_rfl, fun _ h => h, fun i v hv => ?_, fun _ h => h.elim⟩, root, hsound'⟩
    obtain ⟨p, hp, hpv⟩ := Option.bind_eq_some_iff.mp hv
    rw [verified?_eq_some.mp hpv] at hp
    exact Option.bind_eq_some_iff.mpr ⟨_, hkeeps.verified i v hp, rfl⟩
  | @complete _ metadata tree merkleTree ht =>
    refine ⟨⟨Nat.le_succ 1, fun _ h => (by cases h), fun i v hv => ?_, fun _ h => h.elim⟩, trivial⟩
    exact (tryComplete_eq_some ht i).trans hv
  | @blocks metadata tree blocks blocks' peer ranges theirBlocks hb =>
    have hafter := afterBlocks_foldlM hb
    refine ⟨⟨le_rfl, fun _ h => h, fun _ _ h => h, fun bs hbs => ⟨blocks', rfl, ?_⟩⟩, trivial⟩
    cases hbs
    exact hafter.keeps
  | @syncing _ metadata tree blocks latest hb hl =>
    refine ⟨⟨Nat.le_succ 2, fun _ h => (by cases h), fun _ _ h => h, fun bs hbs => ⟨blocks, ?_, ?_⟩⟩,
      UntypedState.wellFormed_new⟩
    · exact ⟨hb, rfl⟩
    · cases hbs
      exact fun _ _ h => h
  | @operations metadata tree initialState ecg latest ecg' latest' peer operations hf =>
    have hecg : ecg' = insertAll ecg operations := foldlM_receiveOperation_fst hf
    rw [hecg]
    exact ⟨retains_insertAll hs operations, UntypedState.WellFormed.insertAll hs operations⟩
  | @apply metadata tree initialState ecg latest ecg' latest' header body hi ha =>
    have hecg : ecg' = insertAll ecg [(header, OT.bodyToVec body)] := (congrArg Prod.fst hi).symm
    rw [hecg]
    exact ⟨retains_insertAll hs _, UntypedState.WellFormed.insertAll hs _⟩

/-- Metadata that would be accepted is only given to a store that waits for it. -/
def Command.InTime (OT : OssaType StoreId H HeaderId Body T Op)
    (sm : StateMachine StoreId H HeaderId Header T) (cmd : Command H HeaderId Header Body) : Prop :=
  ∀ peer metadata, cmd = .receivedMetadata peer metadata →
    metadata.validateStoreId OT.into (sm.storeId OT.into) = true → sm.rank = 0

/-- Nothing is lost, and the parts stay sane. -/
def State.Forward (s s' : State StoreId H HeaderId Header T) : Prop :=
  s.stateMachine.Sane → s.stateMachine.Retains s'.stateMachine ∧ s'.stateMachine.Sane

section Forward

variable {s'' : State StoreId H HeaderId Header T}

omit [Hash H] [DecidableEq H] [DecidableEq StoreId] [ECGHeader Header HeaderId] in
lemma State.Touches.stateMachine_eq (h : s.Touches s') : s'.stateMachine = s.stateMachine := by
  obtain ⟨peers, l, -, rfl⟩ := h
  rfl

omit [DecidableEq H] [DecidableEq StoreId]

lemma State.Forward.trans (h : s.Forward s') (h' : s'.Forward s'') : s.Forward s'' := by
  intro hs
  obtain ⟨hretains, hsane⟩ := h hs
  obtain ⟨hretains', hsane'⟩ := h' hsane
  exact ⟨hretains.trans hretains', hsane'⟩

lemma forward_of_eq (h : s'.stateMachine = s.stateMachine) : s.Forward s' := fun hs => by
  rw [h]
  exact ⟨.refl _, hs⟩

end Forward

lemma Change.forward (h : Change OT listeners cmd s s') (hcmd : cmd.isMetadata = false) :
    s.Forward s' := by
  rcases h.phaseStep with heq | hphase
  · exact forward_of_eq heq
  · exact fun hs => hphase.retains hs hcmd

lemma Changes.forward (h : Changes OT listeners cmd s s') (hcmd : cmd.isMetadata = false) :
    s.Forward s' := by
  induction h with
  | refl => exact forward_of_eq rfl
  | tail _ hc ih => exact ih.trans (hc.forward hcmd)

lemma handleReceivedMetadata_forward {metadata : MetadataHeader H}
    (hin : metadata.validateStoreId OT.into (s.stateMachine.storeId OT.into) = true →
      s.stateMachine.rank = 0)
    (h : s.handleReceivedMetadata OT peer metadata listeners = .ok s') : s.Forward s' := by
  obtain ⟨s₁, hready, hcases⟩ := handleReceivedMetadata_ok h
  have hsm := (touches_updateOutgoingPeerToReady hready).stateMachine_eq
  rw [hsm] at hcases
  rcases hcases with rfl | ⟨tree, hv, ht, hc⟩
  · exact forward_of_eq hsm
  intro _
  have hsane : (s₁.withPhase (.downloadingMerkle metadata tree)).stateMachine.Sane :=
    ⟨_, exists_sound_newWithCapacity ht⟩
  obtain ⟨-, hsane'⟩ := Changes.forward (hc (.subscribeState 0)) rfl hsane
  cases hphase : s.stateMachine with
  | downloadingMetadata storeId => exact ⟨StateMachine.retains_downloadingMetadata storeId, hsane'⟩
  | downloadingMerkle _ _ => rw [hphase] at hin hv; cases hin hv
  | downloadingInitialState _ _ _ => rw [hphase] at hin hv; cases hin hv
  | syncing _ _ _ _ _ => rw [hphase] at hin hv; cases hin hv

/-- **One command.** -/
theorem handleStore_forward (hin : cmd.InTime OT s.stateMachine)
    (h : Handler.handleStore OT env listeners s cmd = .ok s') : s.Forward s' := by
  by_cases hcmd : cmd.isMetadata = true
  · cases cmd with
    | receivedMetadata peer metadata =>
      obtain ⟨s₂, hreceived, hsend⟩ := bind_eq_ok.mp h
      refine (handleReceivedMetadata_forward (hin peer metadata rfl) hreceived).trans ?_
      exact forward_of_eq (touches_sendSyncRequests hsend).stateMachine_eq
    | _ => cases hcmd
  · have heffects := handleStore_effects h
    clear h
    induction heffects with
    | refl => exact forward_of_eq rfl
    | tail _ hc ih =>
      refine ih.trans ?_
      rcases hc with hc | htouch
      · exact hc.forward (Bool.eq_false_iff.mpr hcmd)
      · exact forward_of_eq htouch.stateMachine_eq

/-! ### Runs -/

omit [Hash H] [DecidableEq H] [DecidableEq StoreId] [ECGHeader Header HeaderId] in
lemma isEcg_syncRequests {rng : Rng} {reqs : List (DeviceId × StoreSyncCommand HeaderId Header)}
    (h : s.syncRequests rng = .ok reqs) (r : DeviceId × StoreSyncCommand HeaderId Header)
    (hr : r ∈ reqs) (hecg : r.2.isEcg = true) : s.stateMachine.isSyncing = true := by
  have hmap : ∀ {α : Type} {l : List α} {f : α → StoreSyncCommand HeaderId Header},
      r.2 ∈ l.map f → ∃ a, (f a).isEcg = true := fun hmem => by
    obtain ⟨a, -, heq⟩ := List.mem_map.mp hmem
    exact ⟨a, heq ▸ hecg⟩
  unfold State.syncRequests at h
  cases hs : s.stateMachine with
  | downloadingMetadata _ =>
    simp only [hs] at h
    cases h
    obtain ⟨p, -, rfl⟩ := List.mem_map.mp hr
    cases hecg
  | downloadingMerkle metadata tree =>
    simp only [hs] at h
    split_ifs at h
    cases h
    obtain ⟨_, hf⟩ := hmap (List.of_mem_zip (show (r.1, r.2) ∈ _ from hr)).2
    cases hf
  | downloadingInitialState metadata tree blocks =>
    simp only [hs] at h
    split_ifs at h
    cases h
    obtain ⟨_, hf⟩ := hmap (List.of_mem_zip (show (r.1, r.2) ∈ _ from hr)).2
    cases hf
  | syncing _ _ _ _ _ => rfl

/-- The store a run starts with: one that downloads, or a new one. -/
inductive State.Started (OT : OssaType StoreId H HeaderId Body T Op) :
    State StoreId H HeaderId Header T → Prop
  | downloading (storeId : StoreId) : Started OT (.newDownloading storeId)
  | created {nonce : Nonce} {storeType : TypeId} {initialState : T}
    {s : State StoreId H HeaderId Header T} :
    State.newSyncing OT nonce storeType initialState = .ok s → Started OT s

omit [DecidableEq H] [DecidableEq StoreId] [CRDT T Op (OperationId HeaderId)] in
lemma State.Started.sane (h : s.Started OT) : s.stateMachine.Sane := by
  cases h with
  | downloading storeId => exact trivial
  | created h =>
    obtain ⟨body, -, h⟩ := bind_eq_ok.mp h
    obtain ⟨metadata, -, heq⟩ := bind_eq_ok.mp h
    cases heq
    exact UntypedState.wellFormed_new

namespace System

variable {sys sys' : System StoreId H HeaderId Header Body T} {ev : Event H HeaderId Header Body}

/-- The phase of the store. -/
abbrev phase (sys : System StoreId H HeaderId Header Body T) :
    StateMachine StoreId H HeaderId Header T := sys.handler.store.stateMachine

/-- The command an event brings is in time. -/
def InTime (OT : OssaType StoreId H HeaderId Body T Op)
    (sys : System StoreId H HeaderId Header Body T) (ev : Event H HeaderId Header Body) : Prop :=
  ∀ env cmd, sys.offered ev = some (env, cmd) → cmd.InTime OT sys.phase

/-- A request for operations, or the answer to one, belongs to a store that syncs. -/
def EcgAsked (sys : System StoreId H HeaderId Header Body T) : Prop :=
  sys.InFlight (fun r => r.isEcg = true → sys.phase.isSyncing = true)
    fun cmd => ∀ peer ops, cmd = .receivedECGOperations peer ops → sys.phase.isSyncing = true

lemma next_forward (hin : InTime OT sys ev) (h : sys.next OT ev = .ok sys') :
    sys.handler.store.Forward sys'.handler.store := by
  cases ho : sys.offered ev with
  | some c =>
    obtain ⟨env, cmd⟩ := c
    obtain ⟨handler, hs, rfl⟩ := next_command ho h
    exact handleStore_forward (hin env cmd ho) hs
  | none => exact forward_of_eq (by rw [handler_of_not_offered ho h])

omit [Hash H] [DecidableEq H] [DecidableEq StoreId] [ECGHeader Header HeaderId] in
lemma isSyncing_of_retains {sm sm' : StateMachine StoreId H HeaderId Header T}
    (h : sm.Retains sm') (hs : sm.isSyncing = true) : sm'.isSyncing = true := by
  have hrank := h.rank
  cases sm with
  | syncing _ _ _ _ _ =>
    cases sm' with
    | syncing _ _ _ _ _ => rfl
    | _ => simp [StateMachine.rank] at hrank
  | _ => cases hs

lemma EcgAsked.step (h : sys.EcgAsked) (hretains : sys.phase.Retains sys'.phase)
    (hen : sys.enabled ev = true) (hnext : sys.next OT ev = .ok sys') : sys'.EcgAsked := by
  refine InFlight.step (h.mono (fun r hr hecg => ?_) fun cmd hc peer ops heq => ?_) hen ?_ ?_ hnext
  · exact isSyncing_of_retains hretains (hr hecg)
  · exact isSyncing_of_retains hretains (hc peer ops heq)
  · rintro peer r cmd hr hans peer' ops rfl
    cases r with
    | ecgSyncRequest _ => exact hr rfl
    | metadataHeaderRequest => cases hans
    | merkleRequest _ => cases hans
    | initialStateBlockRequest _ => cases hans
  · intro rng s₂ reqs hsm hreqs r hr hecg
    have hsync := isEcg_syncRequests hreqs r hr hecg
    rwa [hsm] at hsync

/-- The invariant of a run whose metadata is in time. -/
structure Onward (sys : System StoreId H HeaderId Header Body T) : Prop where
  sane : sys.phase.Sane
  asked : sys.EcgAsked

lemma Onward.step (h : sys.Onward) (hen : sys.enabled ev = true) (hin : InTime OT sys ev)
    (hnext : sys.next OT ev = .ok sys') : sys.phase.Retains sys'.phase ∧ sys'.Onward := by
  obtain ⟨hretains, hsane⟩ := next_forward hin hnext h.sane
  exact ⟨hretains, hsane, h.asked.step hretains hen hnext⟩

lemma Onward.run (h : sys.Onward) (hrun : Run OT (InTime OT) sys sys') :
    sys.phase.Retains sys'.phase ∧ sys'.Onward := by
  induction hrun with
  | refl => exact ⟨.refl _, h⟩
  | step ev _ hen hin hnext ih =>
    obtain ⟨hretains, honward⟩ := ih.2.step hen hin hnext
    exact ⟨ih.1.trans hretains, honward⟩

omit [DecidableEq H] [DecidableEq StoreId] [CRDT T Op (OperationId HeaderId)] in
lemma onward_start {handler : Handler StoreId H HeaderId Header T}
    (h : handler.store.Started OT) :
    (start handler : System StoreId H HeaderId Header Body T).Onward :=
  ⟨h.sane, inFlight_start handler⟩

/-- **A store never goes back** as long as no metadata is accepted after the first. In every run
of a store and its peers, from any state to any later one, the phase does not decrease, and no
header, verified node or verified block is lost; and whenever operations of a peer are received,
the store syncs. -/
theorem never_goes_back {handler : Handler StoreId H HeaderId Header T}
    (hstart : handler.store.Started OT) (hrun : Run OT (InTime OT) (start handler) sys) :
    (∀ sys', Run OT (InTime OT) sys sys' → sys.phase.Retains sys'.phase) ∧
    ∀ ev env peer operations, sys.enabled ev = true →
      sys.offered ev = some (env, .receivedECGOperations peer operations) →
        sys.phase.isSyncing = true := by
  obtain ⟨-, honward⟩ := (onward_start hstart).run hrun
  refine ⟨fun sys' hrun' => (honward.run hrun').1, fun ev env peer operations hen ho => ?_⟩
  cases ev with
  | receive env' peer' => exact honward.asked.offered ho peer operations rfl
  | external env' cmd =>
    cases ho
    cases hen
  | registerOutgoing _ _ => cases ho
  | registerIncoming _ _ => cases ho
  | take _ => cases ho
  | answer _ _ => cases ho
  | stop _ => cases ho

/-! Two peers are asked for the metadata of the counter, and one of them takes its time. -/

section Counter

open V0

def inTime (sys : System UInt8 UInt8 ℕ TestHeader (List ℕ) Counter)
    (ev : Event UInt8 ℕ TestHeader (List ℕ)) : Bool :=
  match sys.offered ev with
  | some (_, .receivedMetadata _ _) => sys.phase.rank == 0
  | _ => true

lemma inTime_sound [Hash UInt8] (sys : System UInt8 UInt8 ℕ TestHeader (List ℕ) Counter)
    (ev : Event UInt8 ℕ TestHeader (List ℕ)) (h : inTime sys ev = true) :
    InTime counterType sys ev := by
  rintro env cmd ho peer metadata rfl -
  unfold inTime at h
  rw [ho] at h
  exact beq_iff_eq.mp h

local instance instHashCounterForward : Hash UInt8 := tableHash counterTable

/-- Peer 1 serves the store, which syncs then and applies an operation of its own. -/
def promptPeer : List (Event UInt8 ℕ TestHeader (List ℕ)) :=
  [.external calm (.registerPeers [1, 2]), .registerOutgoing calm 1, .registerOutgoing calm 2,
    .take 1, .take 2, .answer 1 (.receivedMetadata 1 counterMetadata), .receive calm 1, .take 1,
    .answer 1 (.receivedInitialStateBlocks 1 [⟨0, 1⟩] [some [7]]), .receive calm 1,
    .external calm (.apply ⟨3, []⟩ [1])]

/-- Peer 2 answers the first request, and peer 1 the last one. -/
def latePeer : List (Event UInt8 ℕ TestHeader (List ℕ)) :=
  [.answer 2 (.receivedMetadata 2 counterMetadata), .receive calm 2, .take 1,
    .answer 1 (.receivedECGOperations 1 [])]

lemma promptPeer_isOk :
    (execIf counterType inTime (start counterDownload) promptPeer).isOk = true := by
  decide +kernel

theorem never_goes_back_counter : ∃ sys, Run counterType (InTime counterType)
    (start counterDownload) sys ∧ sys.phase.hasHeader 3 = true ∧
      ∀ sys', Run counterType (InTime counterType) sys sys' → sys'.phase.hasHeader 3 = true := by
  have hrun := run_of_execIf (fun sys ev _ => inTime_sound sys ev) (eq_ok_value promptPeer_isOk)
  have hthree : (value _ promptPeer_isOk).phase.hasHeader 3 = true := by decide +kernel
  refine ⟨_, hrun, hthree, fun sys' hrun' => ?_⟩
  exact ((never_goes_back (.downloading _) hrun).1 sys' hrun').headers 3 hthree

lemma promptPeer_exec : (exec counterType (start counterDownload) promptPeer).isOk = true := by
  decide +kernel

lemma latePeer_exec :
    (exec counterType (value _ promptPeer_exec) latePeer).isOk = true := by
  decide +kernel

lemma bothPeers_exec :
    (exec counterType (start counterDownload) (promptPeer ++ latePeer)).isOk = true := by
  decide +kernel

/-- **Late metadata starts the download again**: the header is lost, and the operations of peer 1
find a store that does not sync. -/
theorem late_metadata_goes_back :
    (¬ ∀ sys sys' : System UInt8 UInt8 ℕ TestHeader (List ℕ) Counter,
      Run counterType (fun _ _ => True) (start counterDownload) sys →
        Run counterType (fun _ _ => True) sys sys' → sys.phase.Retains sys'.phase) ∧
    ¬ ∀ (sys : System UInt8 UInt8 ℕ TestHeader (List ℕ) Counter) ev env peer operations,
      Run counterType (fun _ _ => True) (start counterDownload) sys → sys.enabled ev = true →
        sys.offered ev = some (env, .receivedECGOperations peer operations) →
          sys.phase.isSyncing = true := by
  constructor
  · intro hall
    have hprompt := run_of_exec (fun _ _ _ => trivial) (eq_ok_value promptPeer_exec)
    have hlate := run_of_exec (fun _ _ _ => trivial) (eq_ok_value latePeer_exec)
    have hthree : (value _ promptPeer_exec).phase.hasHeader 3 = true := by decide +kernel
    have hlost : (value _ latePeer_exec).phase.hasHeader 3 = false := by decide +kernel
    have hkept := (hall _ _ hprompt hlate).headers 3 hthree
    rw [hlost] at hkept
    cases hkept
  · intro hall
    have hrun := run_of_exec (fun _ _ _ => trivial) (eq_ok_value bothPeers_exec)
    have hsync : (value _ bothPeers_exec).phase.isSyncing = false := by decide +kernel
    have hreached := hall _ (.receive calm 1) calm 1 [] hrun (by decide +kernel) (by rfl)
    rw [hsync] at hreached
    cases hreached

end Counter

end System

end Ossa.Store
