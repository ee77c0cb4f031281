import Ossa.Linearize
import Ossa.StoreDownload
import Ossa.StoreReplay

/-!
Stores that have the same headers have the same state.

The operations of a graph can be applied in many orders, and each is applied at the part of the
graph that the store had at the time. If a type asks for the order of applied operations only,
then this part might as well have been the whole graph. And if concurrent operations commute,
then all causal orders of the operations lead to one state.
-/

namespace Ossa.Store

open Ossa.Loop Ossa.Util Ossa.Collections Ossa.Ecg Ossa.Crdt Ossa.Linearize

/-! ### Operations and their order -/

variable {StoreId H HeaderId Header Body T Op : Type} [LinearOrder HeaderId]
  [ECGHeader Header HeaderId]

/-- The operations of a log. -/
def history (OT : OssaType StoreId H HeaderId Body T Op) (log : List (Header × Body)) :
    List (Timed HeaderId Op) := log.flatMap (timed OT)

/-- One operation happens before another. -/
def Timed.Before (ecg : UntypedState HeaderId Header) (x y : Timed HeaderId Op) : Prop :=
  x.headerId = y.headerId ∧ x.position < y.position ∨ ecg.ProperAncestor x.headerId y.headerId

/-- The operations of the headers of a graph, each after all that happen before it. -/
def CausalOrder (OT : OssaType StoreId H HeaderId Body T Op) (ecg : UntypedState HeaderId Header)
    (l : List (Timed HeaderId Op)) : Prop :=
  ∃ log : List (Header × Body), Records ecg (log.map Prod.fst) ∧ l.Perm (history OT log) ∧
    Respects (Timed.Before ecg) l

/-- A time of the initial state, or of the header of one of the operations. -/
def TimeOf (l : List (Timed HeaderId Op)) (a : OperationId HeaderId) : Prop :=
  ∀ h, a.headerId = some h → ∃ x ∈ l, x.headerId = h

variable {OT : OssaType StoreId H HeaderId Body T Op} {ecg ecg' : UntypedState HeaderId Header}
  {log log' : List (Header × Body)}

section Order

omit [LinearOrder HeaderId]

lemma headerId_of_mem_timed {e : Header × Body} {x : Timed HeaderId Op} (h : x ∈ timed OT e) :
    x.headerId = getHeaderId e.1 := by
  obtain ⟨o, -, rfl⟩ := List.mem_map.mp h
  rfl

lemma headerId_of_mem_history {x : Timed HeaderId Op} (h : x ∈ history OT log) :
    x.headerId ∈ log.map fun e => getHeaderId e.1 := by
  obtain ⟨e, he, hx⟩ := List.mem_flatMap.mp h
  exact List.mem_map.mpr ⟨e, he, (headerId_of_mem_timed hx).symm⟩

lemma foldlM_history_map {α : Type} (p : List ((Header × Body) × α))
    (f : T → Timed HeaderId Op → Exec T) (t : T) : (history OT (p.map Prod.fst)).foldlM f t =
      p.foldlM (fun t e => (timed OT e.1).foldlM f t) t := by
  rw [history, foldlM_flatMap, List.foldlM_map]

end Order

lemma respects_history (h : Records ecg (log.map Prod.fst)) :
    Respects (Timed.Before ecg) (history OT log) := by
  refine List.pairwise_flatMap.mpr ⟨fun e _ => ?_, ?_⟩
  · -- the positions in a body ascend
    have hpositions : (OT.operations e.2 (getHeaderId e.1)).zipIdx.Pairwise
        fun a b => a.2 < b.2 := by
      rw [← List.pairwise_map, List.zipIdx_map_snd]
      exact List.pairwise_lt_range'
    refine List.pairwise_map.mpr (hpositions.imp fun hlt => ?_)
    rintro (⟨-, hlt'⟩ | hanc)
    · exact absurd hlt' hlt.not_gt
    · exact absurd rfl ((properAncestor_iff h.wf).mp hanc).1
  · refine (List.pairwise_map.mp h.pairwise).imp fun hne x hx y hy => ?_
    rw [Timed.Before, headerId_of_mem_timed hx, headerId_of_mem_timed hy]
    rintro (⟨heq, -⟩ | hanc)
    · exact hne.1 heq.symm
    · exact hne.2 hanc

lemma CausalOrder.history (h : Records ecg (log.map Prod.fst)) :
    CausalOrder OT ecg (history OT log) := ⟨log, h, .refl _, respects_history h⟩

lemma respects_of_perm (h : Records ecg (log.map Prod.fst)) (h' : Records ecg' (log'.map Prod.fst))
    (hsub : ∀ header ∈ log'.map Prod.fst, header ∈ log.map Prod.fst) :
    Respects (Timed.Before ecg) (history OT log') := by
  refine (respects_history h').imp_of_mem fun {x y} hx _ hnot => ?_
  rintro (hbefore | hanc)
  · exact hnot (Or.inl hbefore)
  · have hcontains : ecg'.contains x.headerId := h'.contains_iff.mpr (by
      rw [List.map_map]
      exact headerId_of_mem_history hx)
    obtain ⟨hne, hanc⟩ := (properAncestor_iff h.wf).mp hanc
    exact hnot (Or.inr ((properAncestor_iff h'.wf).mpr
      ⟨hne, (ancestor_iff_of_records h' h hsub hcontains).mpr hanc⟩))

/-- Both graphs have the same headers, with the same bodies. -/
def SameHeaders (s t : UntypedState HeaderId Header) : Prop :=
  ∀ h, (s.getNode h).map (fun info => (info.header, info.operations)) =
    (t.getNode h).map fun info => (info.header, info.operations)

section Headers

omit [ECGHeader Header HeaderId]

lemma SameHeaders.symm (h : SameHeaders ecg ecg') : SameHeaders ecg' ecg := fun x => (h x).symm

/-- The headers and bodies of a graph, by id. -/
def entries (s : UntypedState HeaderId Header) : List (HeaderId × Header × RawECGBody) :=
  s.nodeInfoMap.toList.map fun n => (n.1, n.2.header, n.2.operations)

lemma mem_entries {s : UntypedState HeaderId Header} {h : HeaderId} {v : Header × RawECGBody} :
    (h, v) ∈ entries s ↔ (s.getNode h).map (fun info => (info.header, info.operations)) = some v := by
  rw [entries, List.mem_map, Option.map_eq_some_iff]
  constructor
  · rintro ⟨⟨x, info⟩, hmem, heq⟩
    cases heq
    exact ⟨info, mem_toList.mp hmem, rfl⟩
  · rintro ⟨info, hinfo, rfl⟩
    exact ⟨(h, info), mem_toList.mpr hinfo, rfl⟩

lemma sameHeaders_of_entries (h : entries ecg = entries ecg') : SameHeaders ecg ecg' :=
  fun x => Option.ext fun v => by rw [← mem_entries, ← mem_entries, h]

end Headers

/-! ### What is asked of a type -/

variable [CRDT T Op (OperationId HeaderId)]

/-- **Concurrent operations commute**, where they meet in a causal order of operations. -/
def Commutes (Header : Type) [ECGHeader Header HeaderId]
    (OT : OssaType StoreId H HeaderId Body T Op) (initial : T) : Prop :=
  ∀ (ecg : UntypedState HeaderId Header) p x y q, CausalOrder OT ecg (p ++ x :: y :: q) →
    ¬ x.Before ecg y → ¬ y.Before ecg x →
    ∀ t, p.foldlM (applyTimed (toCausalState ecg)) initial = .ok t →
      (applyTimed (toCausalState ecg) t x >>= fun t => applyTimed (toCausalState ecg) t y) =
        applyTimed (toCausalState ecg) t y >>= fun t => applyTimed (toCausalState ecg) t x

/-- **The causal state counts only for what happens before what** among the operations that have
been applied, the one that is applied included. -/
def CausallyLocal (Header : Type) [ECGHeader Header HeaderId]
    (OT : OssaType StoreId H HeaderId Body T Op) (initial : T) : Prop :=
  ∀ (ecg : UntypedState HeaderId Header) p x q, CausalOrder OT ecg (p ++ x :: q) →
    ∀ st : CausalState (OperationId HeaderId),
      (∀ a b, TimeOf (p ++ [x]) a → TimeOf (p ++ [x]) b →
        st.happensBefore a b = happensBefore ecg a b) →
      ∀ t, p.foldlM (applyTimed (toCausalState ecg)) initial = .ok t →
        applyTimed st t x = applyTimed (toCausalState ecg) t x

section Sufficient

variable {Header : Type} [ECGHeader Header HeaderId] {initial : T}

lemma commutes_of_forall (h : ∀ (st : CausalState (OperationId HeaderId)) (t : T) (o o' : Op),
    (CRDT.apply st t o >>= fun t => CRDT.apply st t o') =
      CRDT.apply st t o' >>= fun t => CRDT.apply st t o) : Commutes Header OT initial :=
  fun _ _ _ _ _ _ _ _ _ _ => h _ _ _ _

lemma causallyLocal_of_forall (h : ∀ (st st' : CausalState (OperationId HeaderId)) (t : T) (o : Op),
    CRDT.apply st t o = CRDT.apply st' t o) : CausallyLocal Header OT initial :=
  fun _ _ _ _ _ _ _ _ _ => h _ _ _ _

end Sufficient

lemma concurrent_iff (hs : ecg.WellFormed) {x y : Timed HeaderId Op} (hx : ecg.contains x.headerId)
    (hy : ecg.contains y.headerId) (hne : x.headerId ≠ y.headerId) (i j : Fin 256) :
    concurrent (toCausalState ecg) ⟨some x.headerId, i⟩ ⟨some y.headerId, j⟩ = .ok true ↔
      ¬ x.Before ecg y ∧ ¬ y.Before ecg x := by
  have hkx : Known ecg ⟨some x.headerId, i⟩ := fun h heq => Option.some.inj heq ▸ hx
  have hky : Known ecg ⟨some y.headerId, j⟩ := fun h heq => Option.some.inj heq ▸ hy
  rw [concurrent_eq_true (answers hs hkx hky) (answers hs hky hkx), precedes_iff hs hkx hky,
    precedes_iff hs hky hkx, before_iff hs, before_iff hs]
  simp [HappensBefore, Timed.Before, hne, hne.symm]

/-! ### One fold over operations -/

variable {initial latest latest' : T} {graphs : List (UntypedState HeaderId Header)}
  {l : List (Timed HeaderId Op)}

lemma CausallyLocal.foldlM_eq (hlocal : CausallyLocal Header OT initial) (hl : CausalOrder OT ecg l)
    {st : CausalState (OperationId HeaderId)}
    (hst : ∀ a b, TimeOf l a → TimeOf l b → st.happensBefore a b = happensBefore ecg a b) :
    l.foldlM (applyTimed st) initial = l.foldlM (applyTimed (toCausalState ecg)) initial := by
  refine foldlM_congr fun p x q t hpq ht => ?_
  have hsub : ∀ a, TimeOf (p ++ [x]) a → TimeOf l a := fun a ha h hid => by
    obtain ⟨y, hy, heq⟩ := ha h hid
    refine ⟨y, ?_, heq⟩
    rw [hpq]
    simp only [List.mem_append, List.mem_cons, List.not_mem_nil] at hy ⊢
    tauto
  exact hlocal ecg p x q (hpq ▸ hl) st (fun a b ha hb => hst a b (hsub a ha) (hsub b hb)) t ht

lemma Replays.upTo (h : Replays OT initial ecg latest log graphs)
    {p q : List ((Header × Body) × UntypedState HeaderId Header)} {e : Header × Body}
    {g : UntypedState HeaderId Header} (hpq : log.zip graphs = p ++ (e, g) :: q) :
    log = p.map Prod.fst ++ e :: q.map Prod.fst ∧
      Records g ((p.map Prod.fst ++ [e]).map Prod.fst) := by
  have hlog : log = p.map Prod.fst ++ e :: q.map Prod.fst := by
    have hfst := congrArg (List.map Prod.fst) hpq
    rwa [List.map_fst_zip h.length.ge, List.map_append, List.map_cons] at hfst
  have hg : (log.zip graphs)[p.length]? = some (e, g) := by
    rw [hpq]
    simp
  have hrecords := h.prefixes p.length g (List.getElem?_zip_eq_some.mp hg).2
  have htake : log.take (p.length + 1) = p.map Prod.fst ++ [e] := by
    rw [hlog]
    simp [List.take_append]
  exact ⟨hlog, htake ▸ hrecords⟩

/-- **The state is one fold** over the operations of the log, all at the graph of the store. -/
theorem Replays.foldlM_history (h : Replays OT initial ecg latest log graphs)
    (hlocal : CausallyLocal Header OT initial) :
    (history OT log).foldlM (applyTimed (toCausalState ecg)) initial = .ok latest := by
  have hzip : (log.zip graphs).map Prod.fst = log := List.map_fst_zip h.length.ge
  rw [← hzip, foldlM_history_map]
  refine (foldlM_congr ?_).symm.trans h.fold
  rintro p ⟨e, g⟩ q t hpq ht
  obtain ⟨hlog, hrecords⟩ := h.upTo hpq
  rw [applyEntry]
  -- along the body, what has been applied is the log up to it and a part of the body
  refine foldlM_congr fun p₁ x q₁ t₁ hx ht₁ => ?_
  have hhistory : history OT log =
      (history OT (p.map Prod.fst) ++ p₁) ++ x :: (q₁ ++ history OT (q.map Prod.fst)) := by
    rw [hlog, history, List.flatMap_append, List.flatMap_cons, hx]
    simp [history]
  have hcausal : CausalOrder OT ecg (history OT log) := .history h.records
  rw [hhistory] at hcausal
  have hknown : ∀ a, TimeOf ((history OT (p.map Prod.fst) ++ p₁) ++ [x]) a → Known g a := by
    intro a ha y hy
    obtain ⟨z, hz, rfl⟩ := ha y hy
    have hmem : z ∈ history OT (p.map Prod.fst ++ [e]) := by
      rw [history, List.flatMap_append, List.flatMap_singleton, hx]
      simp only [history, List.mem_append, List.mem_cons, List.not_mem_nil] at hz ⊢
      tauto
    rw [hrecords.contains_iff, List.map_map]
    exact headerId_of_mem_history hmem
  refine hlocal ecg _ x _ hcausal _ (fun a b ha hb => ?_) t₁ ?_
  · refine (happensBefore_eq_of_records hrecords h.records ?_ (hknown a ha) (hknown b hb)).symm
    intro header hmem
    rw [hlog]
    simp only [List.map_append, List.map_cons, List.map_nil, List.mem_append, List.mem_cons] at hmem ⊢
    tauto
  · rw [List.foldlM_append, foldlM_history_map, ht]
    exact ht₁

/-! ### Two stores -/

variable {graphs' : List (UntypedState HeaderId Header)}

lemma Replays.mem_of_sameHeaders (h : Replays OT initial ecg latest log graphs)
    (h' : Replays OT initial ecg' latest' log' graphs') (hsame : SameHeaders ecg ecg')
    (hserde : ∀ body, OT.bodyFromSlice (OT.bodyToVec body) = some body) {e : Header × Body}
    (he : e ∈ log) : e ∈ log' := by
  have hread : ∀ {raw body}, OT.Stored raw body → OT.bodyFromSlice raw = some body := by
    rintro raw body (rfl | hraw)
    · exact hserde body
    · exact hraw
  obtain ⟨info, hinfo, hheader, hstored⟩ := h.bodies e he
  have hnode := hsame (getHeaderId e.1)
  rw [hinfo, Option.map_some, eq_comm, Option.map_eq_some_iff] at hnode
  obtain ⟨info', hinfo', heq⟩ := hnode
  obtain ⟨hheaders, hoperations⟩ := Prod.mk.inj heq
  obtain ⟨e', he', hfst⟩ := List.mem_map.mp (h'.records.mem_of_getNode hinfo').1
  rw [hheaders, hheader] at hfst
  obtain ⟨info'', hinfo'', -, hstored'⟩ := h'.bodies e' he'
  rw [hfst, hinfo'] at hinfo''
  cases hinfo''
  have hbody : some e'.2 = some e.2 :=
    (hread hstored').symm.trans ((congrArg OT.bodyFromSlice hoperations).trans (hread hstored))
  rwa [Prod.ext hfst (Option.some.inj hbody)] at he'

lemma Replays.perm (h : Replays OT initial ecg latest log graphs)
    (h' : Replays OT initial ecg' latest' log' graphs') (hsame : SameHeaders ecg ecg')
    (hserde : ∀ body, OT.bodyFromSlice (OT.bodyToVec body) = some body) : log.Perm log' :=
  (List.perm_ext_iff_of_nodup (.of_map _ h.nodup) (.of_map _ h'.nodup)).mpr fun _ =>
    ⟨h.mem_of_sameHeaders h' hsame hserde, h'.mem_of_sameHeaders h hsame.symm hserde⟩

/-- **Two stores with the same headers** have the same state. -/
theorem Replays.latest_eq (h : Replays OT initial ecg latest log graphs)
    (h' : Replays OT initial ecg' latest' log' graphs') (hsame : SameHeaders ecg ecg')
    (hserde : ∀ body, OT.bodyFromSlice (OT.bodyToVec body) = some body)
    (hcomm : Commutes Header OT initial) (hlocal : CausallyLocal Header OT initial) :
    latest = latest' := by
  have hperm := h.perm h' hsame hserde
  have hsub : ∀ header ∈ log'.map Prod.fst, header ∈ log.map Prod.fst := fun header =>
    (hperm.map Prod.fst).mem_iff.mpr
  have hknown : ∀ a, TimeOf (history OT log') a → Known ecg' a := fun a ha x hx => by
    obtain ⟨y, hy, rfl⟩ := ha x hx
    exact h'.contains_iff.mpr (headerId_of_mem_history hy)
  have hfold' : (history OT log').foldlM (applyTimed (toCausalState ecg)) initial = .ok latest' :=
    (hlocal.foldlM_eq (.history h'.records) fun a b ha hb => happensBefore_eq_of_records h'.records
      h.records hsub (hknown a ha) (hknown b hb)).trans (h'.foldlM_history hlocal)
  have heq := foldlM_eq_of_perm (f := applyTimed (toCausalState ecg)) (s := initial)
    (hperm.flatMap_right (timed OT)) (respects_history h.records)
    (respects_of_perm h.records h'.records hsub) fun p x y q hp hr hxy hyx => by
      rw [List.foldlM_append, List.foldlM_append]
      cases hrun : p.foldlM (applyTimed (toCausalState ecg)) initial with
      | error e => rfl
      | ok t =>
        have hswap := hcomm ecg p x y q ⟨log, h.records, hp, hr⟩ hxy hyx t hrun
        simpa only [ok_bind, List.foldlM_cons, List.foldlM_nil, bind_pure] using hswap
  exact Except.ok.inj ((h.foldlM_history hlocal).symm.trans (heq.trans hfold'))

/-- What the state of a store is: the operations of the headers of its graph are applied, those of
a header once and in the order of its body, and after those of its ancestors. -/
structure AppliedOnce (OT : OssaType StoreId H HeaderId Body T Op) (initial : T)
    (ecg : UntypedState HeaderId Header) (latest : T) (log : List (Header × Body))
    (graphs : List (UntypedState HeaderId Header)) : Prop
    extends Replays OT initial ecg latest log graphs where
  headers : ∀ x, ecg.contains x ↔ x ∈ log.map fun e => getHeaderId e.1
  once : (log.map fun e => getHeaderId e.1).Nodup
  causal : ∀ p e q, log = p ++ e :: q → ∀ x, ecg.ProperAncestor x (getHeaderId e.1) →
    x ∈ p.map fun e => getHeaderId e.1

lemma Replays.appliedOnce (h : Replays OT initial ecg latest log graphs) :
    AppliedOnce OT initial ecg latest log graphs where
  toReplays := h
  headers _ := h.contains_iff
  once := h.nodup
  causal _ _ _ hlog _ hx := h.mem_of_properAncestor hlog hx

variable [Hash H] [DecidableEq H] [DecidableEq StoreId]

/-- **The state of a store is a causal fold over its headers**, each applied once, in every run.
And stores that began with the same state and have the same headers have the same state, if
concurrent operations commute and ask for nothing but the order of applied operations. -/
theorem latestState_of_headers (OT : OssaType StoreId H HeaderId Body T Op) (initial : T) :
    (∀ (h h' : Handler StoreId H HeaderId Header T) cmds, SyncRun OT initial h h' cmds →
      ∃ ecg latest log graphs, h'.store.stateMachine.replica = some (ecg, latest) ∧
        AppliedOnce OT initial ecg latest log graphs) ∧
    ((∀ body, OT.bodyFromSlice (OT.bodyToVec body) = some body) → Commutes Header OT initial →
      CausallyLocal Header OT initial →
      ∀ (h₁ h₁' h₂ h₂' : Handler StoreId H HeaderId Header T) cmds₁ cmds₂,
        SyncRun OT initial h₁ h₁' cmds₁ → SyncRun OT initial h₂ h₂' cmds₂ →
        ∀ ecg₁ ecg₂ latest₁ latest₂, h₁'.store.stateMachine.replica = some (ecg₁, latest₁) →
          h₂'.store.stateMachine.replica = some (ecg₂, latest₂) → SameHeaders ecg₁ ecg₂ →
          latest₁ = latest₂) := by
  constructor
  · intro h h' cmds hrun
    obtain ⟨⟨ecg, latest⟩, hw, log, graphs, hreplays⟩ := hrun.replayed
    exact ⟨ecg, latest, log, graphs, hw, hreplays.appliedOnce⟩
  · intro hserde hcomm hlocal h₁ h₁' h₂ h₂' cmds₁ cmds₂ hrun₁ hrun₂ ecg₁ ecg₂ latest₁ latest₂ hs₁ hs₂
      hsame
    obtain ⟨w₁, hw₁, log₁, graphs₁, hreplays₁⟩ := hrun₁.replayed
    obtain ⟨w₂, hw₂, log₂, graphs₂, hreplays₂⟩ := hrun₂.replayed
    cases hs₁.symm.trans hw₁
    cases hs₂.symm.trans hw₂
    exact hreplays₁.latest_eq hreplays₂ hsame hserde hcomm hlocal

/-! ### Two stores with a sum -/

section Sum

open V0

local instance sumHash : Hash UInt8 := tableHash counterTable

def sumType : OssaType UInt8 UInt8 ℕ (List UInt8) Counter ℕ where
  into h := h
  toVec _ := []
  fromSlice _ := none
  bodyToVec body := body
  bodyFromSlice raw := some raw
  operations body _ := body.map UInt8.toNat

/-- A store that begins to sync at 7. -/
def sumStore : Handler UInt8 UInt8 ℕ TestHeader Counter :=
  ⟨.ofStateMachine (.syncing counterMetadata ⟨[0]⟩ [7] .new ⟨7⟩), []⟩

/-- All headers are its own. -/
def sumCommands : List (Environment × Command UInt8 ℕ TestHeader (List UInt8)) :=
  [.apply ⟨1, []⟩ [5], .apply ⟨2, [1]⟩ [3, 4], .apply ⟨3, []⟩ [1]].map fun cmd => (calm, cmd)

/-- Two of them are from a peer, one of these too early, and one twice. -/
def sumPeerCommands : List (Environment × Command UInt8 ℕ TestHeader (List UInt8)) :=
  [.apply ⟨3, []⟩ [1], .registerPeers [1], .registerOutgoingPeerSyncing 1,
    .receivedECGOperations 1 [(⟨2, [1]⟩, [3, 4]), (⟨1, []⟩, [5]), (⟨1, []⟩, [5]),
      (⟨2, [1]⟩, [3, 4])]].map fun cmd => (calm, cmd)

lemma sum_isOk : (sumStore.run sumType sumCommands).isOk = true := by
  decide +kernel

lemma sumPeer_isOk : (sumStore.run sumType sumPeerCommands).isOk = true := by
  decide +kernel

/-- The headers of a store that syncs, and its state. -/
def replicaOf {T : Type} (h : Handler UInt8 UInt8 ℕ TestHeader T) :
    Option (List (ℕ × TestHeader × RawECGBody) × T) :=
  h.store.stateMachine.replica.map fun w => (entries w.1, w.2)

lemma exists_of_replicaOf {T : Type} {h : Handler UInt8 UInt8 ℕ TestHeader T}
    {l : List (ℕ × TestHeader × RawECGBody)} {latest : T} (hr : replicaOf h = some (l, latest)) :
    ∃ ecg, h.store.stateMachine.replica = some (ecg, latest) ∧ entries ecg = l := by
  obtain ⟨⟨ecg, latest'⟩, hs, heq⟩ := Option.map_eq_some_iff.mp hr
  cases heq
  exact ⟨ecg, hs, rfl⟩

/-- The headers of both stores in the end. -/
def sumEntries : List (ℕ × TestHeader × RawECGBody) :=
  [(1, ⟨1, []⟩, [5]), (2, ⟨2, [1]⟩, [3, 4]), (3, ⟨3, []⟩, [1])]

lemma sum_replica : replicaOf (value _ sum_isOk) = some (sumEntries, ⟨20⟩) := by
  decide +kernel

lemma sumPeer_headers : (replicaOf (value _ sumPeer_isOk)).map Prod.fst = some sumEntries := by
  decide +kernel

/-- The first store has applied all its operations to 7, and the second one has got as far. -/
theorem latestState_of_headers_sum : ∃ h₁ h₂ ecg₁ ecg₂ log graphs,
    sumStore.run sumType sumCommands = .ok h₁ ∧ sumStore.run sumType sumPeerCommands = .ok h₂ ∧
    h₁.store.stateMachine.replica = some (ecg₁, ⟨20⟩) ∧
    AppliedOnce sumType ⟨7⟩ ecg₁ ⟨20⟩ log graphs ∧
    h₂.store.stateMachine.replica = some (ecg₂, ⟨20⟩) := by
  obtain ⟨ecg₁, hs₁, he₁⟩ := exists_of_replicaOf sum_replica
  obtain ⟨⟨l₂, latest₂⟩, hr₂, rfl⟩ := Option.map_eq_some_iff.mp sumPeer_headers
  obtain ⟨ecg₂, hs₂, he₂⟩ := exists_of_replicaOf hr₂
  have hrun₁ := eq_ok_value sum_isOk
  have hrun₂ := eq_ok_value sumPeer_isOk
  have hcomm : Commutes TestHeader sumType ⟨7⟩ := commutes_of_forall fun st t o o' => by
    simp [CRDT.apply, Nat.add_right_comm]
  have hlocal : CausallyLocal TestHeader sumType ⟨7⟩ := causallyLocal_of_forall fun _ _ _ _ => rfl
  have hsync₁ : SyncRun sumType ⟨7⟩ sumStore _ sumCommands := ⟨rfl, by decide, hrun₁⟩
  have hsync₂ : SyncRun sumType ⟨7⟩ sumStore _ sumPeerCommands := ⟨rfl, by decide, hrun₂⟩
  obtain ⟨ecg, latest, log, graphs, hs, happlied⟩ :=
    (latestState_of_headers sumType ⟨7⟩).1 _ _ _ hsync₁
  cases hs₁.symm.trans hs
  obtain rfl := (latestState_of_headers sumType ⟨7⟩).2 (fun _ => rfl) hcomm hlocal _ _ _ _ _ _
    hsync₁ hsync₂ _ _ _ _ hs₁ hs₂ (sameHeaders_of_entries (he₁.trans he₂.symm))
  exact ⟨_, _, ecg₁, ecg₂, log, graphs, hrun₁, hrun₂, hs₁, happlied, hs₂⟩

end Sum

end Ossa.Store
