import Ossa.EcgBeliefs
import Ossa.StoreDownload
import Ossa.StoreHandle
import Ossa.StoreReplay

/-!
Local operations on their way into the graph.

An application takes the tips of a snapshot that the store published, builds a header with them
and hands it to the store, which handles it later. The graph only grows in between, so the
parents are still there. What can be there too is the header itself: it depends on nothing but
a nonce of one byte, the parents and the batch.
-/

namespace Ossa.Store

open Ossa.Loop Ossa.Util Ossa.Collections Ossa.Ecg Ossa.Ecg.V0 Ossa.Crdt Ossa.EcgSync Relation

/-! ### What a store has published -/

section Published

variable {StoreId H HeaderId Header Body T Op : Type} [LinearOrder HeaderId]

/-- The store has published a snapshot with the graph. -/
def State.Published (s : State StoreId H HeaderId Header T)
    (ecg : UntypedState HeaderId Header) : Prop :=
  ∃ listener latest, .stateUpdate listener (.snapshot latest ecg) ∈ s.sent

/-- The headers that the command brings are from `U`. -/
def Command.HeadersIn (U : Set Header) : Command H HeaderId Header Body → Prop
  | .apply header _ => header ∈ U
  | .receivedECGOperations _ operations => ∀ op ∈ operations, op.1 ∈ U
  | _ => True

variable [ECGHeader Header HeaderId]

/-- A store that syncs, with its graph. All graphs it has published are parts of it. -/
structure Publishes (U : Set Header) (s : State StoreId H HeaderId Header T)
    (ecg : UntypedState HeaderId Header) (latest : T) : Prop where
  replica : s.stateMachine.replica = some (ecg, latest)
  consistent : Consistent U ecg
  published : ∀ g, s.Published g → g.WellFormed ∧ g.Grows ecg

variable {U : Set Header} {s s' : State StoreId H HeaderId Header T} {listeners : List Chan}
  {ecg ecg' : UntypedState HeaderId Header} {latest latest' : T}

lemma Publishes.update {l : List (Sent StoreId H HeaderId Header T)} (h : Publishes U s ecg latest)
    (hr : s'.stateMachine.replica = some (ecg', latest')) (hc : Consistent U ecg')
    (hg : ecg.Grows ecg') (hsent : s'.sent = s.sent ++ l)
    (hl : ∀ listener state g, .stateUpdate listener (.snapshot state g) ∈ l → g = ecg') :
    Publishes U s' ecg' latest' := by
  refine ⟨hr, hc, fun g ⟨listener, state, hmem⟩ => ?_⟩
  rw [hsent, List.mem_append] at hmem
  rcases hmem with hmem | hmem
  · obtain ⟨hwf, hgg⟩ := h.published g ⟨listener, state, hmem⟩
    exact ⟨hwf, hgg.trans hg⟩
  · obtain rfl := hl listener state g hmem
    exact ⟨hc.wf, .refl g⟩

lemma Publishes.frame {l : List (Sent StoreId H HeaderId Header T)} (h : Publishes U s ecg latest)
    (hr : s'.stateMachine = s.stateMachine) (hsent : s'.sent = s.sent ++ l)
    (hl : ∀ listener update, .stateUpdate listener update ∉ l) : Publishes U s' ecg latest :=
  h.update (hr ▸ h.replica) h.consistent (.refl ecg) hsent fun listener _ _ hmem =>
    absurd hmem (hl listener _)

lemma Publishes.touches (h : Publishes U s ecg latest) (ht : s.Touches s') :
    Publishes U s' ecg latest := by
  obtain ⟨peers, l, hl, rfl⟩ := ht
  exact h.frame rfl rfl fun listener update hmem => hl _ hmem

lemma Publishes.updateListeners {sm : StateMachine StoreId H HeaderId Header T}
    {fromPeer : Option DeviceId} (h : Publishes U s ecg latest) (hr : sm.replica = some (ecg', latest'))
    (hc : Consistent U ecg') (hg : ecg.Grows ecg') :
    Publishes U ((s.withPhase sm).updateListeners listeners latest' ecg' fromPeer) ecg' latest' := by
  obtain ⟨subs, heq, -⟩ := State.updateListeners_spec (s := s.withPhase sm) listeners latest' ecg'
    fromPeer
  rw [heq]
  refine h.update hr hc hg rfl fun listener state g hmem => ?_
  rcases List.mem_append.mp hmem with hmem | hmem
  · obtain ⟨l, -, hl⟩ := List.mem_map.mp hmem
    cases hl
    rfl
  · obtain ⟨sub, -, hsub⟩ := List.mem_map.mp hmem
    cases hsub

lemma Publishes.contains_tip {g : UntypedState HeaderId Header} {p : HeaderId}
    (h : Publishes U s ecg latest) (hg : s.Published g) (hp : p ∈ g.tips.toList) :
    ecg.contains p := by
  obtain ⟨hwf, hgrows⟩ := h.published g hg
  exact hgrows.contains (hwf.tips.mp (Std.ExtTreeSet.mem_toList.mp hp)).1

lemma consistent_insertAll {operations : List (Header × RawECGBody)} (hc : Consistent U ecg)
    (hU : ∀ op ∈ operations, op.1 ∈ U) : Consistent U (insertAll ecg operations) := by
  induction operations generalizing ecg with
  | nil => exact hc
  | cons op operations ih =>
    exact ih (hc.insertHeader (hU op List.mem_cons_self)) fun o ho => hU o (List.mem_cons_of_mem _ ho)

variable [Hash H] [DecidableEq H] [DecidableEq StoreId] [CRDT T Op (OperationId HeaderId)]
variable {OT : OssaType StoreId H HeaderId Body T Op} {env : Environment}
variable {cmd : Command H HeaderId Header Body}

/-- **A change of a store that syncs** makes its graph grow, and publishes it. -/
lemma Publishes.change (h : Publishes U s ecg latest) (hU : cmd.HeadersIn U)
    (hm : cmd.isMetadata = false) (hc : Change OT listeners cmd s s') :
    ∃ ecg' latest', Publishes U s' ecg' latest' ∧ ecg.Grows ecg' := by
  obtain ⟨metadata, tree, initialState, hsm⟩ := exists_of_replica h.replica
  cases hc with
  | metadata peer metadata hv ht => cases hm
  | merkle peer ranges nodes hs' ht => rw [hsm] at hs'; cases hs'
  | complete peer hs' ht hn => rw [hsm] at hs'; cases hs'
  | blocks peer ranges theirBlocks hs' hb => rw [hsm] at hs'; cases hs'
  | syncing peer hs' hb hn => rw [hsm] at hs'; cases hs'
  | @operations _ _ _ _ _ _ ecg' latest' peer operations hs' hf =>
    rw [hsm] at hs'
    cases hs'
    have hecg : ecg' = insertAll ecg operations := foldlM_receiveOperation_fst hf
    have hg : ecg.Grows ecg' := hecg ▸ h.consistent.wf.grows_insertAll operations
    exact ⟨ecg', latest', h.updateListeners rfl (hecg ▸ consistent_insertAll h.consistent hU) hg, hg⟩
  | @apply _ _ _ _ _ _ ecg' latest' header body hs' hi ha =>
    rw [hsm] at hs'
    cases hs'
    have hecg : ecg' = (ecg.insertHeader header (OT.bodyToVec body)).1 := by rw [hi]
    have hg : ecg.Grows ecg' := hecg ▸ (h.consistent.wf.getNode_insertHeader header _).1
    exact ⟨ecg', latest', h.updateListeners rfl (hecg ▸ h.consistent.insertHeader hU) hg, hg⟩
  | subscribeState chan =>
    refine ⟨ecg, latest, h.update h.replica h.consistent (.refl ecg) rfl ?_, .refl ecg⟩
    intro listener state g hmem
    rw [hsm, State.snapshot, List.mem_singleton] at hmem
    cases hmem
    rfl
  | metadataRequest peer chan =>
    rcases s.handleMetadataPeerRequest_cases peer chan with ⟨metadata, -, heq⟩ | ⟨-, heq⟩
    · rw [heq]; exact ⟨ecg, latest, h.frame rfl rfl (by simp), .refl ecg⟩
    · rw [heq]; exact ⟨ecg, latest, h.frame rfl rfl (by simp), .refl ecg⟩
  | merkleRequest peer ranges chan hr =>
    obtain ⟨tree, hashes, -, -, rfl⟩ | ⟨-, rfl⟩ := State.handleMerklePeerRequest_ok hr
    · exact ⟨ecg, latest, h.frame rfl rfl (by simp), .refl ecg⟩
    · exact ⟨ecg, latest, h.frame rfl rfl (by simp), .refl ecg⟩
  | blockRequest peer ranges chan hr =>
    obtain ⟨blocks, -, rfl⟩ | ⟨-, rfl⟩ := State.handleBlockPeerRequest_ok hr
    · exact ⟨ecg, latest, h.frame rfl rfl (by simp), .refl ecg⟩
    · exact ⟨ecg, latest, h.frame rfl rfl (by simp), .refl ecg⟩
  | subscribeECG peer tips chan =>
    rw [handleEcgSubscribe_eq h.replica]
    split_ifs
    · exact ⟨ecg, latest, h.frame rfl rfl (by simp), .refl ecg⟩
    · exact ⟨ecg, latest, h.frame rfl (List.append_nil _).symm (by simp), .refl ecg⟩

/-- **A command at a store that syncs** makes its graph grow, and publishes what it becomes. -/
theorem Publishes.handleStore (h : Publishes U s ecg latest) (hU : cmd.HeadersIn U)
    (hm : cmd.isMetadata = false) (h' : Handler.handleStore OT env listeners s cmd = .ok s') :
    ∃ ecg' latest', Publishes U s' ecg' latest' ∧ ecg.Grows ecg' := by
  have heffects := handleStore_effects h'
  clear h'
  induction heffects with
  | refl => exact ⟨ecg, latest, h, .refl ecg⟩
  | tail _ hc ih =>
    obtain ⟨ecg', latest', hcur, hg⟩ := ih
    rcases hc with hc | hc
    · obtain ⟨ecg'', latest'', hcur', hg'⟩ := hcur.change hU hm hc
      exact ⟨ecg'', latest'', hcur', hg.trans hg'⟩
    · exact ⟨ecg', latest', hcur.touches hc, hg⟩

end Published

/-! ### Applications and the store -/

section Local

variable {StoreId H SerializedOp T Op : Type} [Hash H] [LinearOrder H] [Serialize (Header H)]
  [Serialize (Body SerializedOp)] [DecidableEq StoreId] [CRDT T Op (OperationId (HeaderId H))]

/-- A store, and the commands that wait in its channel. -/
structure Local (StoreId H SerializedOp T : Type) [LinearOrder H] where
  handler : Handler StoreId H (HeaderId H) (Header H) T
  channel : List (Command H (HeaderId H) (Header H) (Body SerializedOp))

namespace Local

/-- One step of a store and those who send it commands. All headers are from `U`. -/
inductive Step (OT : OssaType StoreId H (HeaderId H) (Body SerializedOp) T Op) (U : Set (Header H)) :
    Local StoreId H SerializedOp T → Local StoreId H SerializedOp T → Prop
  /-- An application applies a batch on the tips of a snapshot that was published. -/
  | applyBatch {x g nonce op headerId header body} : x.handler.store.Published g →
    StoreHandle.applyBatch nonce g.tips op = .ok (headerId, .apply header body) → header ∈ U →
      Step OT U x { x with channel := x.channel ++ [.apply header body] }
  | send {x cmd} : (∀ header body, cmd ≠ .apply header body) → cmd.isMetadata = false →
    cmd.HeadersIn U → Step OT U x { x with channel := x.channel ++ [cmd] }
  | handle {x env cmd rest handler} : x.channel = cmd :: rest →
    x.handler.handle OT env cmd = .ok handler → Step OT U x ⟨handler, rest⟩

variable {OT : OssaType StoreId H (HeaderId H) (Body SerializedOp) T Op} {U : Set (Header H)}
  {x x₀ y : Local StoreId H SerializedOp T}

/-- The command can wait: its headers are from `U`, and the parents of a local one are there. -/
structure Waits (U : Set (Header H)) (ecg : UntypedState (HeaderId H) (Header H))
    (cmd : Command H (HeaderId H) (Header H) (Body SerializedOp)) : Prop where
  noMetadata : cmd.isMetadata = false
  headersIn : cmd.HeadersIn U
  parents : ∀ header body, cmd = .apply header body → ∀ p ∈ header.parentIds, ecg.contains p

/-- The store syncs, nothing waits in its channel, and all it has published is in its graph. -/
def Start (U : Set (Header H)) (x : Local StoreId H SerializedOp T) : Prop :=
  x.channel = [] ∧ ∃ ecg latest, Publishes U x.handler.store ecg latest

/-- What holds in every state of a run. -/
def Sound (U : Set (Header H)) (x : Local StoreId H SerializedOp T) : Prop :=
  ∃ ecg latest, Publishes U x.handler.store ecg latest ∧ ∀ cmd ∈ x.channel, Waits U ecg cmd

omit [Hash H] [Serialize (Header H)] [Serialize (Body SerializedOp)] in
lemma Waits.mono {ecg ecg' : UntypedState (HeaderId H) (Header H)}
    {cmd : Command H (HeaderId H) (Header H) (Body SerializedOp)} (hg : ecg.Grows ecg')
    (h : Waits U ecg cmd) : Waits U ecg' cmd :=
  { h with parents := fun header body heq p hp => hg.contains (h.parents header body heq p hp) }

/-- **Every step keeps the parents of waiting headers in the graph.** -/
theorem Sound.step (h : x.Sound U) (hstep : Step OT U x y) : y.Sound U := by
  obtain ⟨ecg, latest, hcur, hwaits⟩ := h
  cases hstep with
  | @applyBatch g nonce op headerId header body hpub hbatch hmem =>
    refine ⟨ecg, latest, hcur, fun cmd hcmd => ?_⟩
    rcases List.mem_append.mp hcmd with hcmd | hcmd
    · exact hwaits cmd hcmd
    · obtain rfl := List.mem_singleton.mp hcmd
      refine ⟨rfl, hmem, fun header' body' heq p hp => ?_⟩
      cases heq
      obtain ⟨-, header', rfl, heq⟩ := StoreHandle.applyBatch_eq_ok.mp hbatch
      cases heq
      exact hcur.contains_tip hpub hp
  | @send cmd happly hm hU =>
    refine ⟨ecg, latest, hcur, fun cmd' hcmd => ?_⟩
    rcases List.mem_append.mp hcmd with hcmd | hcmd
    · exact hwaits cmd' hcmd
    · obtain rfl := List.mem_singleton.mp hcmd
      exact ⟨hm, hU, fun header body heq => absurd heq (happly header body)⟩
  | @handle env cmd rest handler hc hhandle =>
    rw [hc] at hwaits
    have hw := hwaits cmd List.mem_cons_self
    obtain ⟨ecg', latest', hcur', hg⟩ := hcur.handleStore hw.headersIn hw.noMetadata
      (Handler.handleStore_of_handle hhandle).1
    exact ⟨ecg', latest', hcur', fun cmd' hcmd =>
      (hwaits cmd' (List.mem_cons_of_mem _ hcmd)).mono hg⟩

lemma Start.sound_of_run (h : x₀.Start U) (hrun : ReflTransGen (Step OT U) x₀ x) : x.Sound U := by
  induction hrun with
  | refl =>
    obtain ⟨hnil, ecg, latest, hcur⟩ := h
    exact ⟨ecg, latest, hcur, by simp [hnil]⟩
  | tail _ hstep ih => exact ih.step hstep

/-- The store accepts the header: it is new, it is all that is new, and the operations of its
body are applied once, to the state and on the graph that has it. -/
def Accepts (OT : OssaType StoreId H (HeaderId H) (Body SerializedOp) T Op)
    (x : Local StoreId H SerializedOp T) (env : Environment) (header : Header H)
    (body : Body SerializedOp) : Prop :=
  ∃ ecg latest ecg' latest', x.handler.store.stateMachine.replica = some (ecg, latest) ∧
    ecg.insertHeader header (OT.bodyToVec body) = (ecg', true) ∧
    ¬ ecg.contains (getHeaderId header) ∧
    (∀ k, ecg'.contains k ↔ k = getHeaderId header ∨ ecg.contains k) ∧
    (timed OT (header, body)).foldlM (applyTimed (toCausalState ecg')) latest = .ok latest' ∧
    (x.handler.handle OT env (.apply header body)).map
      (fun handler => handler.store.stateMachine.replica) = .ok (some (ecg', latest'))

/-- The graph of the store has this very header. -/
def Holds (x : Local StoreId H SerializedOp T) (header : Header H) : Prop :=
  ∃ ecg latest k info, x.handler.store.stateMachine.replica = some (ecg, latest) ∧
    ecg.getNode k = some info ∧ info.header = header

/-- No listener and no subscriber to the graph is gone. -/
structure Attended (x : Local StoreId H SerializedOp T) (env : Environment) : Prop where
  listeners : ∀ l ∈ x.handler.listeners, env.alive (.listener l) = true
  subscribers : ∀ sub ∈ x.handler.store.ecgSubscribers.toList, env.alive (.ecg sub.2) = true

/-- `CRDT::apply` does not fault on the operations of the body. -/
def Applicable (OT : OssaType StoreId H (HeaderId H) (Body SerializedOp) T Op)
    (x : Local StoreId H SerializedOp T) (header : Header H) (body : Body SerializedOp) : Prop :=
  ∃ ecg latest latest', x.handler.store.stateMachine.replica = some (ecg, latest) ∧
    (timed OT (header, body)).foldlM (applyTimed (toCausalState
      (ecg.insertHeader header (OT.bodyToVec body)).1)) latest = .ok latest'

section Handle

variable {ecg ecg' : UntypedState (HeaderId H) (Header H)} {latest latest' : T}
  {header : Header H} {body : Body SerializedOp} {env : Environment}

omit [Hash H] [Serialize (Header H)] [Serialize (Body SerializedOp)] [DecidableEq StoreId]
  [CRDT T Op (OperationId (HeaderId H))] in
lemma attended_iff : (∀ m ∈ x.handler.store.updates x.handler.listeners latest ecg none,
    env.alive m.receiver = true) ↔ x.Attended env := by
  constructor
  · intro h
    refine ⟨fun l hl => h _ (List.mem_append_left _ (List.mem_map_of_mem hl)), fun sub hsub => ?_⟩
    have hmem : sub ∈ x.handler.store.ecgSubscribers.toList.filter fun sub => some sub.1 ≠ none :=
      List.mem_filter.mpr ⟨hsub, by simp⟩
    exact h _ (List.mem_append_right _ (List.mem_map_of_mem hmem))
  · intro h m hm
    rcases List.mem_append.mp hm with hm | hm
    · obtain ⟨l, hl, rfl⟩ := List.mem_map.mp hm
      exact h.listeners l hl
    · obtain ⟨sub, hsub, rfl⟩ := List.mem_map.mp hm
      exact h.subscribers sub (List.mem_filter.mp hsub).1

variable (env) in
omit [Serialize (Body SerializedOp)] in
/-- What `Apply` does with a header that the graph takes. -/
lemma handleStore_accepted (hr : x.handler.store.stateMachine.replica = some (ecg, latest))
    (hi : ecg.insertHeader header (OT.bodyToVec body) = (ecg', true))
    (ha : (timed OT (header, body)).foldlM (applyTimed (toCausalState ecg')) latest =
      .ok latest') : ∃ s, Handler.handleStore OT env x.handler.listeners x.handler.store
        (.apply header body) = .ok s ∧ s.stateMachine.replica = some (ecg', latest') ∧
      s.sent = x.handler.store.sent ++
        x.handler.store.updates x.handler.listeners latest' ecg' none := by
  obtain ⟨metadata, tree, initialState, hsm⟩ := exists_of_replica hr
  obtain ⟨subs, heq, -⟩ := State.updateListeners_spec (s := x.handler.store.withPhase
    (.syncing metadata tree initialState ecg' latest')) x.handler.listeners latest' ecg' none
  have happly : State.applyOperations OT latest ecg' header body = .ok latest' :=
    (foldlM_timed OT _ (header, body) latest).symm.trans ha
  refine ⟨_, ?_, congrArg (fun s => s.stateMachine.replica) heq, congrArg State.sent heq⟩
  simp only [Handler.handleStore, State.apply, hsm, hi, if_true, happly]
  rfl

omit [Serialize (Body SerializedOp)] in
/-- What `Apply` does with a header that the graph does not take. -/
lemma handle_refused (hr : x.handler.store.stateMachine.replica = some (ecg, latest))
    (hi : ecg.insertHeader header (OT.bodyToVec body) = (ecg', false)) :
    x.handler.handle OT env (.apply header body) = .error (.todo "Invalid header") := by
  obtain ⟨metadata, tree, initialState, hsm⟩ := exists_of_replica hr
  refine Handler.handle_of_error ?_
  simp only [Handler.handleStore, State.apply, hsm, hi]
  rfl

omit [Serialize (Body SerializedOp)] in
/-- **`Apply` with a header that the graph takes** succeeds if and only if the operations can be
applied and everyone is there to be told. -/
lemma handle_ok_iff (hr : x.handler.store.stateMachine.replica = some (ecg, latest))
    (hi : ecg.insertHeader header (OT.bodyToVec body) = (ecg', true)) :
    (∃ latest', (timed OT (header, body)).foldlM (applyTimed (toCausalState ecg')) latest =
        .ok latest' ∧ (x.handler.handle OT env (.apply header body)).map
          (fun handler => handler.store.stateMachine.replica) = .ok (some (ecg', latest'))) ↔
      x.Attended env ∧ x.Applicable OT header body := by
  constructor
  · rintro ⟨latest', ha, hhandle⟩
    refine ⟨?_, ecg, latest, latest', hr, by rw [hi]; exact ha⟩
    by_contra hnot
    obtain ⟨s, hs, -, hsent⟩ := handleStore_accepted env hr hi ha
    obtain ⟨m, hm, hgone⟩ : ∃ m ∈ x.handler.store.updates x.handler.listeners latest' ecg' none,
        ¬ env.alive m.receiver = true := by
      by_contra hall
      exact hnot (attended_iff.mp fun m hm => not_not.mp fun hgone => hall ⟨m, hm, hgone⟩)
    rw [Handler.handle_of_gone hs ⟨m, by rwa [hsent, List.drop_left], by simpa using hgone⟩]
      at hhandle
    cases hhandle
  · rintro ⟨hatt, ecg₁, latest₁, latest', hr₁, ha⟩
    cases hr.symm.trans hr₁
    rw [hi] at ha
    obtain ⟨s, hs, hreplica, hsent⟩ := handleStore_accepted env hr hi ha
    refine ⟨latest', ha, ?_⟩
    rw [Handler.handle_of_handleStore hs fun m hm => attended_iff.mpr hatt m (by
      rwa [hsent, List.drop_left] at hm)]
    exact congrArg Except.ok hreplica

end Handle

/-- **A local header is accepted if and only if it is not in the graph yet**, its operations can be
applied, and everyone who is told is still there; if it is in the graph, the store stops in a
`todo!`. -/
theorem apply_accepted_iff (hU : Set.InjOn (getHeaderId : Header H → HeaderId H) U)
    (hstart : x₀.Start U) (hrun : ReflTransGen (Step OT U) x₀ x) {header : Header H}
    {body : Body SerializedOp} {rest : List (Command H (HeaderId H) (Header H) (Body SerializedOp))}
    (hc : x.channel = .apply header body :: rest) (env : Environment) :
    (x.Accepts OT env header body ↔
      ¬ x.Holds header ∧ x.Attended env ∧ x.Applicable OT header body) ∧
      (x.Holds header →
        x.handler.handle OT env (.apply header body) = .error (.todo "Invalid header")) := by
  obtain ⟨ecg, latest, hcur, hwaits⟩ := hstart.sound_of_run hrun
  have hr := hcur.replica
  have hwf := hcur.consistent.wf
  have hw := hwaits _ (hc ▸ List.mem_cons_self)
  -- Without collisions the id is in the graph only with this header.
  have hholds : x.Holds header ↔ ecg.contains (getHeaderId header) := by
    constructor
    · rintro ⟨ecg', latest', k, info, hr', hinfo, rfl⟩
      cases hr.symm.trans hr'
      rw [hwf.ids hinfo]
      exact UntypedState.contains_iff_getNode.mpr ⟨info, hinfo⟩
    · intro hcont
      obtain ⟨info, hinfo⟩ := UntypedState.contains_iff_getNode.mp hcont
      exact ⟨ecg, latest, _, info, hr, hinfo,
        hU (hcur.consistent.mem _ info hinfo) hw.headersIn (hwf.ids hinfo)⟩
  have hacc : ecg.Acceptable header ↔ ¬ ecg.contains (getHeaderId header) :=
    ⟨fun h => h.2.1, fun h => ⟨rfl, h, hw.parents header body rfl⟩⟩
  rw [hholds]
  rcases UntypedState.insertHeader_cases hwf header (OT.bodyToVec body) with
    ⟨hnot, hi⟩ | ⟨ha, infos, -, hi⟩
  · have hcont : ecg.contains (getHeaderId header) = true := by
      by_contra hcont
      exact hnot (hacc.mpr hcont)
    refine ⟨iff_of_false ?_ fun h => h.1 hcont, fun _ => handle_refused hr hi⟩
    rintro ⟨ecg₁, latest₁, ecg₂, _, hr₁, hi₁, -⟩
    cases hr.symm.trans hr₁
    cases hi.symm.trans hi₁
  · have hnew := hacc.mp ha
    refine ⟨⟨?_, ?_⟩, fun hcont => absurd hcont hnew⟩
    · rintro ⟨ecg₁, latest₁, ecg₂, latest', hr₁, hi₁, -, -, hfold, hhandle⟩
      cases hr.symm.trans hr₁
      exact ⟨hnew, (handle_ok_iff hr hi₁).mp ⟨latest', hfold, hhandle⟩⟩
    · rintro ⟨-, hready⟩
      obtain ⟨latest', hfold, hhandle⟩ := (handle_ok_iff hr hi).mpr hready
      exact ⟨ecg, latest, _, latest', hr, hi, hnew, fun k => UntypedState.contains_accept, hfold,
        hhandle⟩

end Local

end Local

/-! ### Twice the same batch -/

section Tally

/-- A sum. -/
structure Tally where
  value : ℕ
  deriving DecidableEq

instance : CRDT Tally ℕ (OperationId (HeaderId ℕ)) where
  apply _ t n := .ok ⟨t.value + n⟩

local instance tallyHash : Hash ℕ := countHash

/-- Headers are told apart by their nonces. -/
local instance tallyHeader : Serialize (Header ℕ) := ⟨fun header => List.replicate header.nonce.toNat 0⟩

local instance tallyBody : Serialize (Body ℕ) := ⟨fun _ => []⟩

def tallyType : OssaType ℕ ℕ (HeaderId ℕ) (Body ℕ) Tally ℕ where
  into h := h
  toVec _ := []
  fromSlice _ := none
  bodyToVec body := body.operations.map UInt8.ofNat
  bodyFromSlice _ := none
  operations body _ := body.operations

/-- The header of the batch `[5]` on the tips of an empty graph. -/
def tallyHeaderOf (nonce : UInt8) : Header ℕ :=
  ⟨nonce, (UntypedState.new : UntypedState (HeaderId ℕ) (Header ℕ)).tips.toList, 1,
    tmpHash (Body.mk [5])⟩

/-- A store with one listener, which was told of its graph. -/
def tallyHandler (ecg : UntypedState (HeaderId ℕ) (Header ℕ)) (value : ℕ)
    (earlier : List (Sent ℕ ℕ (HeaderId ℕ) (Header ℕ) Tally)) :
    Handler ℕ ℕ (HeaderId ℕ) (Header ℕ) Tally :=
  ⟨{ State.ofStateMachine (.syncing ⟨zeros, .v0, zeros, 0, 0⟩ ⟨[0]⟩ [] ecg ⟨value⟩) with
    sent := earlier ++ [.stateUpdate 0 (.snapshot ⟨value⟩ ecg)] }, [0]⟩

/-- A store that has published its empty graph, and the batches that were applied since. -/
def tally (nonces : List UInt8) : Local ℕ ℕ ℕ Tally :=
  ⟨tallyHandler .new 0 [], nonces.map fun nonce => .apply (tallyHeaderOf nonce) ⟨[5]⟩⟩

/-- The store when it has handled the first of them. -/
def tallyNext (first : UInt8) (nonces : List UInt8) : Local ℕ ℕ ℕ Tally :=
  ⟨tallyHandler (UntypedState.new.insertHeader (tallyHeaderOf first) [5]).1 5
      [.stateUpdate 0 (.snapshot ⟨0⟩ .new)],
    nonces.map fun nonce => .apply (tallyHeaderOf nonce) ⟨[5]⟩⟩

def tallySet : Set (Header ℕ) := {tallyHeaderOf 0, tallyHeaderOf 1}

lemma injOn_tallySet : Set.InjOn (getHeaderId : Header ℕ → HeaderId ℕ) tallySet := by
  rintro a (rfl | rfl) b (rfl | rfl) h
  · rfl
  · exact absurd h (by decide)
  · exact absurd h (by decide)
  · rfl

lemma tally_start : (tally []).Start tallySet := by
  refine ⟨rfl, .new, ⟨0⟩, rfl, .new, ?_⟩
  rintro g ⟨listener, latest, hmem⟩
  cases List.mem_singleton.mp hmem
  exact ⟨UntypedState.wellFormed_new, .refl _⟩

lemma tally_run {first second : UInt8} (h₁ : tallyHeaderOf first ∈ tallySet)
    (h₂ : tallyHeaderOf second ∈ tallySet) :
    ReflTransGen (Local.Step tallyType tallySet) (tally []) (tallyNext first [second]) := by
  have hpub : (tally []).handler.store.Published .new := ⟨0, ⟨0⟩, List.mem_cons_self⟩
  have hbatch : ∀ nonce, StoreHandle.applyBatch nonce
      (UntypedState.new : UntypedState (HeaderId ℕ) (Header ℕ)).tips [5] =
        .ok (getHeaderId (tallyHeaderOf nonce), .apply (tallyHeaderOf nonce) ⟨[5]⟩) := fun nonce =>
    StoreHandle.applyBatch_eq_ok.mpr ⟨by decide, _, rfl, rfl⟩
  have hhandle : (tally []).handler.handle tallyType calm (.apply (tallyHeaderOf first) ⟨[5]⟩) =
      .ok (tallyNext first [second]).handler := rfl
  refine ((ReflTransGen.single (.applyBatch hpub (hbatch first) h₁)).tail
    (.applyBatch hpub (hbatch second) h₂)).tail ?_
  exact .handle rfl hhandle

/-- The same batch is accepted under another nonce. -/
theorem apply_accepted_iff_tally :
    (tallyNext 0 [1]).Accepts tallyType calm (tallyHeaderOf 1) ⟨[5]⟩ := by
  refine (Local.apply_accepted_iff injOn_tallySet tally_start
    (tally_run (Or.inl rfl) (Or.inr rfl)) rfl calm).1.mpr
      ⟨?_, ⟨fun _ _ => rfl, fun _ _ => rfl⟩, _, _, ⟨10⟩, rfl, rfl⟩
  rintro ⟨ecg, latest, k, info, hr, hinfo, hheader⟩
  cases hr
  rcases (UntypedState.wellFormed_new.getNode_insertHeader (tallyHeaderOf 0) [5]).2 k info hinfo with
    hinfo | ⟨-, heq⟩
  · cases hinfo
  · exact absurd (hheader.symm.trans heq) (by decide)

/-- **The same batch under the same nonce** is fatal: the second header is the first. -/
theorem apply_refused : ∃ x : Local ℕ ℕ ℕ Tally, (tally []).Start tallySet ∧
    ReflTransGen (Local.Step tallyType tallySet) (tally []) x ∧
    x.channel = [.apply (tallyHeaderOf 0) ⟨[5]⟩] ∧
    ¬ x.Accepts tallyType calm (tallyHeaderOf 0) ⟨[5]⟩ ∧
    x.handler.handle tallyType calm (.apply (tallyHeaderOf 0) ⟨[5]⟩) =
      .error (.todo "Invalid header") := by
  have hi : ((UntypedState.new.insertHeader (tallyHeaderOf 0) [5]).1.insertHeader
      (tallyHeaderOf 0) [5]).2 = false := by decide
  refine ⟨tallyNext 0 [0], tally_start, tally_run (Or.inl rfl) (Or.inl rfl), rfl, ?_, rfl⟩
  rintro ⟨ecg, latest, ecg', latest', hr, hins, -⟩
  cases hr
  exact absurd (hi.symm.trans (congrArg Prod.snd hins)) Bool.false_ne_true

end Tally

end Ossa.Store
