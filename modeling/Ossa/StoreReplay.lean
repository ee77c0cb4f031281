import Ossa.CausalOrder
import Ossa.StoreSyncing

/-!
What the state of a store is made of.

A header gets into the graph of a store by `Apply` or in a batch of a peer, and its operations
are applied in the same step, at the graph that it has just been inserted into. A header that is
not accepted leaves nothing behind. So the state of a store is a fold of `CRDT::apply` over the
operations of the headers of its graph, each once, and after those of its ancestors.
-/

namespace Ossa.Store

open Ossa.Loop Ossa.Util Ossa.Collections Ossa.Ecg Ossa.Crdt Relation

variable {StoreId H HeaderId Header Body T Op : Type} [LinearOrder HeaderId]

/-- The body of an accepted header as it is stored: our own bodies are serialized, those of peers
come so. -/
def OssaType.Stored (OT : OssaType StoreId H HeaderId Body T Op) (raw : RawECGBody) (body : Body) :
    Prop := OT.bodyToVec body = raw ∨ OT.bodyFromSlice raw = some body

/-- An operation under its time: a header, and a position in the body. -/
structure Timed (HeaderId Op : Type) where
  headerId : HeaderId
  position : ℕ
  op : Op

variable [ECGHeader Header HeaderId]

/-- The operations of a header, in the order of its body. -/
def timed (OT : OssaType StoreId H HeaderId Body T Op) (e : Header × Body) :
    List (Timed HeaderId Op) :=
  (OT.operations e.2 (getHeaderId e.1)).zipIdx.map fun o => ⟨getHeaderId e.1, o.2, o.1⟩

variable [CRDT T Op (OperationId HeaderId)]

def applyTimed (st : CausalState (OperationId HeaderId)) (t : T) (x : Timed HeaderId Op) : Exec T :=
  CRDT.apply st t x.op

/-- `CRDT::apply` for one operation of a header after the other, at a graph. -/
def applyEntry (OT : OssaType StoreId H HeaderId Body T Op) (t : T)
    (e : (Header × Body) × UntypedState HeaderId Header) : Exec T :=
  (timed OT e.1).foldlM (applyTimed (toCausalState e.2)) t

omit [LinearOrder HeaderId] in
lemma foldlM_timed (OT : OssaType StoreId H HeaderId Body T Op)
    (st : CausalState (OperationId HeaderId)) (e : Header × Body) (t : T) :
    (timed OT e).foldlM (applyTimed st) t =
      (OT.operations e.2 (getHeaderId e.1)).foldlM (CRDT.apply st) t := by
  have hops : (OT.operations e.2 (getHeaderId e.1)).zipIdx.map Prod.fst =
      OT.operations e.2 (getHeaderId e.1) := List.zipIdx_map_fst 0 _
  rw [timed, List.foldlM_map, ← hops, List.foldlM_map, hops]
  rfl

/-- A state is what the operations of the headers of the graph lead to: the headers of the log
are those of the graph, the bodies are those that are stored, and each is applied at the graph
of the headers up to it. -/
structure Replays (OT : OssaType StoreId H HeaderId Body T Op) (initial : T)
    (ecg : UntypedState HeaderId Header) (latest : T) (log : List (Header × Body))
    (graphs : List (UntypedState HeaderId Header)) : Prop where
  records : Records ecg (log.map Prod.fst)
  bodies : ∀ e ∈ log, ∃ info, ecg.getNode (getHeaderId e.1) = some info ∧ info.header = e.1 ∧
    OT.Stored info.operations e.2
  length : graphs.length = log.length
  prefixes : ∀ i g, graphs[i]? = some g → Records g ((log.take (i + 1)).map Prod.fst)
  fold : (log.zip graphs).foldlM (applyEntry OT) initial = .ok latest

variable {OT : OssaType StoreId H HeaderId Body T Op} {initial latest latest' : T}
  {ecg ecg' : UntypedState HeaderId Header} {log : List (Header × Body)}
  {graphs : List (UntypedState HeaderId Header)} {header : Header} {body : Body} {raw : RawECGBody}

namespace Replays

lemma new : Replays OT initial (.new : UntypedState HeaderId Header) initial [] [] where
  records := records_new
  bodies := nofun
  length := rfl
  prefixes _ _ h := by simp at h
  fold := rfl

/-- **A header is accepted** and its operations are applied. -/
theorem accept (h : Replays OT initial ecg latest log graphs)
    (hi : ecg.insertHeader header raw = (ecg', true)) (hb : OT.Stored raw body)
    (ha : State.applyOperations OT latest ecg' header body = .ok latest') :
    Replays OT initial ecg' latest' (log ++ [(header, body)]) (graphs ++ [ecg']) := by
  obtain ⟨-, hno⟩ | ⟨hacc, infos, hinfos, heq⟩ :=
    UntypedState.insertHeader_cases h.records.wf header raw
  · cases hno.symm.trans hi
  obtain rfl : ecg.accept header raw infos = ecg' := congrArg Prod.fst (heq.symm.trans hi)
  have hrecords : Records (ecg.accept header raw infos)
      ((log ++ [(header, body)]).map Prod.fst) := by
    rw [List.map_append]
    exact h.records.accept hacc hinfos
  refine ⟨hrecords, fun e he => ?_, by simp [h.length], fun i g hg => ?_, ?_⟩
  · rcases List.mem_append.mp he with he | he
    · obtain ⟨info, hinfo, hbody⟩ := h.bodies e he
      exact ⟨info, UntypedState.getNode_accept_of_contains hacc.2.1 hinfo, hbody⟩
    · obtain rfl := List.mem_singleton.mp he
      exact ⟨_, by rw [UntypedState.getNode_accept, if_pos rfl], rfl, hb⟩
  · rcases lt_or_ge i log.length with hlt | hge
    · rw [List.getElem?_append_left (h.length ▸ hlt)] at hg
      rw [List.take_append_of_le_length hlt]
      exact h.prefixes i g hg
    · rw [List.getElem?_append_right (h.length ▸ hge), List.getElem?_singleton] at hg
      split_ifs at hg
      cases hg
      rwa [List.take_of_length_le (by simp; omega)]
  · rw [List.zip_append h.length.symm, List.foldlM_append, h.fold, ok_bind]
    exact bind_eq_ok.mpr ⟨latest', (foldlM_timed OT _ (header, body) latest).trans ha, rfl⟩

lemma nodup (h : Replays OT initial ecg latest log graphs) :
    (log.map fun e => getHeaderId e.1).Nodup := by
  have hdistinct := h.records.distinct
  rwa [List.map_map] at hdistinct

lemma contains_iff (h : Replays OT initial ecg latest log graphs) {x : HeaderId} :
    ecg.contains x ↔ x ∈ log.map fun e => getHeaderId e.1 := by
  rw [h.records.contains_iff, List.map_map]
  rfl

lemma mem_of_properAncestor (h : Replays OT initial ecg latest log graphs) {x : HeaderId}
    {p q : List (Header × Body)} {e : Header × Body} (hlog : log = p ++ e :: q)
    (hx : ecg.ProperAncestor x (getHeaderId e.1)) : x ∈ p.map fun e => getHeaderId e.1 := by
  have hrecords := h.records
  rw [hlog, List.map_append, List.map_cons] at hrecords
  have hmem := hrecords.mem_of_properAncestor hx
  rwa [List.map_map] at hmem

end Replays

/-- The state is what the operations of the headers of the graph lead to. -/
def Replayed (OT : OssaType StoreId H HeaderId Body T Op) (initial : T)
    (w : UntypedState HeaderId Header × T) : Prop :=
  ∃ log graphs, Replays OT initial w.1 w.2 log graphs

/-! ### Commands -/

lemma Replayed.wellFormed {w : UntypedState HeaderId Header × T} (h : Replayed OT initial w) :
    w.1.WellFormed := by
  obtain ⟨log, graphs, h⟩ := h
  exact h.records.wf

/-- One operation of a batch: it is applied if its header is accepted, and nothing happens
otherwise. -/
lemma Replayed.receiveOperation {w w' : UntypedState HeaderId Header × T}
    {o : Header × RawECGBody} (h : Replayed OT initial w)
    (hr : State.receiveOperation OT w o = .ok w') : Replayed OT initial w' := by
  obtain ⟨body, hbody, hr⟩ := bind_eq_ok.mp hr
  rw [orFault_eq_ok] at hbody
  dsimp only at hr
  split_ifs at hr with hi
  · obtain ⟨latest', ha, heq⟩ := bind_eq_ok.mp hr
    cases heq
    obtain ⟨log, graphs, h⟩ := h
    exact ⟨_, _, h.accept (Prod.ext rfl hi) (Or.inr hbody) ha⟩
  · cases hr
    obtain ⟨-, hno⟩ | ⟨-, infos, -, heq⟩ := UntypedState.insertHeader_cases h.wellFormed o.1 o.2
    · rwa [hno]
    · rw [heq] at hi
      exact absurd rfl hi

variable [Hash H] [DecidableEq H] [DecidableEq StoreId] {env : Environment} {listeners : List Chan}
  {s s' : State StoreId H HeaderId Header T} {cmd : Command H HeaderId Header Body}

/-- **Every command** but new metadata keeps this. -/
theorem Replayed.handleStore (h : Replayed OT initial (ecg, latest))
    (hs : s.stateMachine.replica = some (ecg, latest)) (hm : cmd.isMetadata = false)
    (hc : Handler.handleStore OT env listeners s cmd = .ok s') :
    ∃ w, s'.stateMachine.replica = some w ∧ Replayed OT initial w := by
  cases hg : cmd.isGraph with
  | false => exact ⟨_, (handleStore_untouched hs hg hm hc).replica.trans hs, h⟩
  | true =>
    cases cmd with
    | apply header body =>
      obtain ⟨ecg', latest', hi, ha, hu⟩ := handleStore_apply hs hc
      obtain ⟨log, graphs, h⟩ := h
      exact ⟨_, hu.replica, _, _, h.accept hi (Or.inl rfl) ha⟩
    | receivedECGOperations peer operations =>
      obtain ⟨ecg', latest', hf, hu⟩ := handleStore_receivedECGOperations hs hc
      exact ⟨_, hu.replica, foldlM_invariant hf h fun _ _ o _ => .receiveOperation (o := o)⟩
    | subscribeECG peer tips chan =>
      cases hc
      refine ⟨_, ?_, h⟩
      rw [handleEcgSubscribe_eq hs]
      split_ifs <;> exact hs
    | _ => cases hg

/-- A run of a store that has just begun to sync, without new metadata. -/
structure SyncRun (OT : OssaType StoreId H HeaderId Body T Op) (initial : T)
    (h h' : Handler StoreId H HeaderId Header T)
    (cmds : List (Environment × Command H HeaderId Header Body)) : Prop where
  start : h.store.stateMachine.replica = some (.new, initial)
  metadata : ∀ c ∈ cmds, c.2.isMetadata = false
  run : h.run OT cmds = .ok h'

variable {h h' : Handler StoreId H HeaderId Header T}
  {cmds : List (Environment × Command H HeaderId Header Body)}

/-- **Every run.** -/
theorem SyncRun.replayed (hrun : SyncRun OT initial h h' cmds) :
    ∃ w, h'.store.stateMachine.replica = some w ∧ Replayed OT initial w := by
  refine foldlM_invariant (I := fun h => ∃ w, h.store.stateMachine.replica = some w ∧
    Replayed OT initial w) hrun.run ⟨_, hrun.start, [], [], .new⟩ ?_
  rintro h₁ h₂ c hc ⟨w, hw, hreplayed⟩ hhandle
  exact hreplayed.handleStore hw (hrun.metadata c hc) (Handler.handleStore_of_handle hhandle).1

end Ossa.Store
