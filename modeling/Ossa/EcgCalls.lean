import Ossa.EcgBeliefs

/-!
The functions of the responder never stop, whatever the peer sends.

The responder runs its functions on snapshots of its graph, which are well-formed and only grow.
What a peer sends decides their arguments, and the order they run in is left open here: the
order of the source is one of them. Whatever the responder holds is then in its latest
snapshot, so that every look-up succeeds and every loop ends.
-/

namespace Ossa.EcgSync

open Ossa.Loop Ossa.Collections Ossa.Ecg

variable {HeaderId Header : Type} [LinearOrder HeaderId]

/-- A call of a function of the responder. -/
inductive Call (HeaderId : Type)
  | updateOurUnknown
  | handleTheirTips (theirTips : List HeaderId)
  | handleTheirKnown (theirKnown : HeaderBitmap)
  | prepareOurTips
  | prepareOperations
  | prepareSentHaves

/-- The responder after a call. -/
def Call.run (fuel : ℕ) (s : UntypedState HeaderId Header) (r : ECGSyncResponder HeaderId) :
    Call HeaderId → Exec (ECGSyncResponder HeaderId)
  | .updateOurUnknown => r.updateOurUnknown fuel s
  | .handleTheirTips theirTips => r.handleTheirTips fuel s theirTips
  | .handleTheirKnown theirKnown => r.handleTheirKnown fuel s theirKnown
  | .prepareOurTips => r.prepareOurTips s
  | .prepareOperations => do
    let (r, _) ← r.prepareOperations fuel s
    pure r
  | .prepareSentHaves => r.prepareSentHaves fuel s

/-- What the responder does on a snapshot: the request of a peer is answered, or the answer is
tried again. -/
inductive Attempt (HeaderId : Type)
  | initial (theirTips : List HeaderId)
  | round (theirTips : List HeaderId) (theirKnown : HeaderBitmap)
  | again (theirTips : List HeaderId)

def Attempt.theirTips : Attempt HeaderId → List HeaderId
  | initial theirTips => theirTips
  | round theirTips _ => theirTips
  | again theirTips => theirTips

def Attempt.isAgain : Attempt HeaderId → Bool
  | again _ => true
  | _ => false

def Attempt.run (fuel : ℕ) (s : UntypedState HeaderId Header) (r : ECGSyncResponder HeaderId) :
    Attempt HeaderId → Exec (ECGSyncResponder HeaderId × List (Header × RawECGBody))
  | .initial theirTips => do
    let r ← r.updateOurUnknown fuel s
    r.runInitial fuel s theirTips
  | .round theirTips theirKnown => do
    let r ← r.updateOurUnknown fuel s
    r.runRound fuel s theirTips theirKnown
  | .again theirTips => r.rerun fuel s theirTips

variable [ECGHeader Header HeaderId]

/-- The latest snapshot and the responder, after any calls. -/
inductive Called : UntypedState HeaderId Header → ECGSyncResponder HeaderId → Prop
  | new {s} : s.WellFormed → Called s .new
  | snapshot {s s' r} : Called s r → s.Grows s' → s'.WellFormed → Called s' r
  | call {s r r'} (c : Call HeaderId) : Called s r → Returns (fun n => c.run n s r) r' →
    Called s r'

/-- The responder of an exchange between two of its attempts: each is made on a snapshot that
has grown, on whatever the peer sent. -/
inductive Exchanged : UntypedState HeaderId Header → ECGSyncResponder HeaderId → Prop
  | new {s} : s.WellFormed → Exchanged s .new
  | attempt {s s' r w} (a : Attempt HeaderId) : Exchanged s r → s.Grows s' → s'.WellFormed →
    Returns (fun n => a.run n s' r) w → Exchanged s' w.1

variable {s s' : UntypedState HeaderId Header} {r r' : ECGSyncResponder HeaderId}

/-- Every header that the responder holds is in the graph. -/
structure Contained (s : UntypedState HeaderId Header) (r : ECGSyncResponder HeaderId) : Prop where
  theirKnown : ∀ h ∈ r.theirKnown, s.contains h
  sendQueue : ∀ h, Queued r h → s.contains h
  sentHaves : ∀ h ∈ r.sentHaves, s.contains h
  havesQueue : ∀ h, Pending r h → s.contains h

omit [ECGHeader Header HeaderId] in
lemma InGraph.contained (h : InGraph s r) : Contained s r where
  theirKnown := h.known
  sendQueue := fun x ⟨d, hx⟩ => UntypedState.contains_iff_depth.mpr ⟨d, h.send d x hx⟩
  sentHaves := h.sent
  havesQueue := fun x ⟨b, d, k, hx⟩ => UntypedState.contains_iff_depth.mpr ⟨d, h.haves b d x k hx⟩

/-! ### One call -/

lemma Call.inGraph (hs : s.WellFormed) (hr : InGraph s r)
    (hlen : r.sentHaves.length ≤ maxHaveHeaders) (c : Call HeaderId)
    (h : Returns (fun n => c.run n s r) r') :
    InGraph s r' ∧ r'.sentHaves.length ≤ maxHaveHeaders := by
  obtain ⟨n, h⟩ := h
  cases c with
  | updateOurUnknown =>
    have hres := updateOurUnknown_spec hs h
    exact ⟨hres.inGraph hs hr, by rw [hres.sentHaves]; exact hlen⟩
  | handleTheirTips theirTips =>
    have hl := (handleTheirTips_spec hs h).learns
    exact ⟨hl.inGraph hs hr, by rw [hl.sentHaves]; exact hlen⟩
  | handleTheirKnown theirKnown =>
    have hl := (handleTheirKnown_spec hs h).learns
    exact ⟨hl.inGraph hs hr, by rw [hl.sentHaves]; exact hlen⟩
  | prepareOurTips =>
    obtain ⟨he, -⟩ := prepareOurTips_spec h
    refine ⟨⟨?_, ?_, ?_, fun b d x k hx => ?_⟩, by rw [he.sentHaves]; exact hlen⟩
    · rw [he.theirKnown]; exact hr.known
    · rw [he.sendQueue]; exact hr.send
    · rw [he.sentHaves]; exact hr.sent
    · exact (he.queuedOnly b d x k hx).elim (hr.haves b d x k) And.right
  | prepareOperations =>
    obtain ⟨⟨r₁, operations⟩, hp, heq⟩ := bind_eq_ok.mp h
    cases heq
    obtain ⟨hd, -⟩ := prepareOperations_spec hs hp
    refine ⟨⟨fun x hx => ?_, fun d x hx => (hd.sendOnly d x hx).elim (hr.send d x) id, ?_, ?_⟩,
      hd.sentHaves ▸ hlen⟩
    · rcases (hd.known x).mp hx with hx | hx
      · exact hr.known x hx
      · obtain ⟨op, hop, rfl⟩ := List.mem_map.mp hx
        obtain ⟨info, hinfo, -⟩ := hd.nodes op hop
        exact UntypedState.contains_iff_getNode.mpr ⟨info, hinfo⟩
    · exact hd.sentHaves ▸ hr.sent
    · exact hd.havesQueue ▸ hr.haves
  | prepareSentHaves =>
    obtain ⟨hw, -⟩ := prepareSentHaves_spec hs hr.haves h
    refine ⟨⟨?_, ?_, fun x hx => (hw.sent x hx).1, hw.haves⟩, hw.length⟩
    · rw [hw.theirKnown]; exact hr.known
    · rw [hw.sendQueue]; exact hr.send

/-- **Every call returns.** -/
lemma Call.returns (hs : s.WellFormed) (hr : InGraph s r)
    (hlen : r.sentHaves.length ≤ maxHaveHeaders) (c : Call HeaderId) :
    ∃ r', Returns (fun n => c.run n s r) r' := by
  have hc := hr.contained
  cases c with
  | updateOurUnknown => exact returns_updateOurUnknown hs
  | handleTheirTips theirTips => exact returns_handleTheirTips hs theirTips
  | handleTheirKnown theirKnown => exact returns_handleTheirKnown hs hr hlen theirKnown
  | prepareOurTips => exact returns_prepareOurTips hs
  | prepareOperations =>
    obtain ⟨w, n, hw⟩ := returns_prepareOperations hs hc.sendQueue
    exact ⟨w.1, n, by simp only [Call.run, hw, ok_bind, pure_eq_ok]⟩
  | prepareSentHaves => exact returns_prepareSentHaves hs hc.havesQueue

/-! ### Any calls -/

lemma Called.wellFormed (h : Called s r) : s.WellFormed := by
  induction h with
  | new hs => exact hs
  | snapshot _ _ hs _ => exact hs
  | call _ _ _ ih => exact ih

lemma Called.inGraph (h : Called s r) :
    InGraph s r ∧ r.sentHaves.length ≤ maxHaveHeaders := by
  induction h with
  | new _ =>
    exact ⟨⟨by simp [ECGSyncResponder.new], by simp [ECGSyncResponder.new],
      by simp [ECGSyncResponder.new], by simp [ECGSyncResponder.new]⟩,
      by simp [ECGSyncResponder.new]⟩
  | snapshot _ hg _ ih => exact ⟨ih.1.mono hg, ih.2⟩
  | call c h hret ih => exact c.inGraph h.wellFormed ih.1 ih.2 hret

lemma Called.exists_call (h : Called s r) (c : Call HeaderId) :
    ∃ r', Returns (fun n => c.run n s r) r' ∧ Called s r' := by
  obtain ⟨r', hret⟩ := c.returns h.wellFormed h.inGraph.1 h.inGraph.2
  exact ⟨r', hret, h.call c hret⟩

lemma Called.prepareResponse (h : Called s r)
    {w : ECGSyncResponder HeaderId × List (Header × RawECGBody)} {n : ℕ}
    (hw : r.prepareResponse n s = .ok w) : Called s w.1 := by
  obtain ⟨r₁, h₁, hw⟩ := bind_eq_ok.mp hw
  obtain ⟨⟨r₂, operations⟩, h₂, hw⟩ := bind_eq_ok.mp hw
  obtain ⟨r₃, h₃, hw⟩ := bind_eq_ok.mp hw
  cases hw
  have hc₁ := h.call .prepareOurTips ⟨n, h₁⟩
  have hc₂ : Called s r₂ := hc₁.call .prepareOperations
    ⟨n, by simp only [Call.run, h₂, ok_bind, pure_eq_ok]⟩
  exact hc₂.call .prepareSentHaves ⟨n, h₃⟩

/-- **Every attempt returns**, and consists of calls. -/
lemma Called.exists_attempt (h : Called s r) (a : Attempt HeaderId) :
    ∃ w, Returns (fun n => a.run n s r) w ∧ Called s w.1 := by
  have hs := h.wellFormed
  obtain ⟨r₀, h₀, hc₀⟩ := h.exists_call .updateOurUnknown
  have hsteady := steady_updateOurUnknown s r
  cases a with
  | initial theirTips =>
    obtain ⟨w, hw⟩ := returns_runInitial hs hc₀.inGraph.1 theirTips
    refine ⟨w, h₀.bind hsteady (steady_runInitial s r₀ theirTips) hw, ?_⟩
    obtain ⟨n, hw⟩ := hw
    obtain ⟨r₁, h₁, hw⟩ := bind_eq_ok.mp hw
    exact (hc₀.call (.handleTheirTips theirTips) ⟨n, h₁⟩).prepareResponse hw
  | round theirTips theirKnown =>
    obtain ⟨w, hw⟩ := returns_runRound hs hc₀.inGraph.1 hc₀.inGraph.2 theirTips theirKnown
    refine ⟨w, h₀.bind hsteady (steady_runRound s r₀ theirTips theirKnown) hw, ?_⟩
    obtain ⟨n, hw⟩ := hw
    obtain ⟨r₁, h₁, hw⟩ := bind_eq_ok.mp hw
    obtain ⟨r₂, h₂, hw⟩ := bind_eq_ok.mp hw
    have hc₁ := hc₀.call (.handleTheirTips theirTips) ⟨n, h₁⟩
    exact (hc₁.call (.handleTheirKnown theirKnown) ⟨n, h₂⟩).prepareResponse hw
  | again theirTips =>
    obtain ⟨w, hw⟩ := returns_runInitial hs hc₀.inGraph.1 theirTips
    refine ⟨w, h₀.bind hsteady (steady_runInitial s r₀ theirTips) hw, ?_⟩
    obtain ⟨n, hw⟩ := hw
    obtain ⟨r₁, h₁, hw⟩ := bind_eq_ok.mp hw
    exact (hc₀.call (.handleTheirTips theirTips) ⟨n, h₁⟩).prepareResponse hw

/-! ### An exchange with any peer -/

omit [ECGHeader Header HeaderId] in
lemma steady_attempt (a : Attempt HeaderId) (s : UntypedState HeaderId Header)
    (r : ECGSyncResponder HeaderId) : Steady fun n => a.run n s r := by
  cases a with
  | initial theirTips =>
    exact (steady_updateOurUnknown s r).bind fun r => steady_runInitial s r theirTips
  | round theirTips theirKnown =>
    exact (steady_updateOurUnknown s r).bind fun r => steady_runRound s r theirTips theirKnown
  | again theirTips =>
    exact (steady_updateOurUnknown s r).bind fun r => steady_runInitial s r theirTips

lemma Exchanged.called (h : Exchanged s r) : Called s r := by
  induction h with
  | new hs => exact .new hs
  | attempt a _ hg hs hret ih =>
    obtain ⟨w, hw, hc⟩ := (ih.snapshot hg hs).exists_attempt a
    rwa [hret.unique (steady_attempt a _ _) hw]

/-- **The negotiation never meets an unknown header and always ends.** Between the attempts of an
exchange with any peer, and between the calls of an attempt, all that the responder holds is in
its latest snapshot; every call returns, and so does the loop of `mark_as_known_helper` on every
header of the snapshot; and the next attempt returns, on any snapshot that has grown. -/
theorem negotiation_returns :
    (∀ (s : UntypedState HeaderId Header) (r : ECGSyncResponder HeaderId), Called s r →
      Contained s r ∧ r.sentHaves.length ≤ maxHaveHeaders ∧
      (∀ c : Call HeaderId, ∃ r', Returns (fun n => c.run n s r) r' ∧ Called s r') ∧
      ∀ h, s.contains h → ∃ known, Returns (fun n => markAsKnownHelper n s r.theirKnown h) known) ∧
    ∀ (s : UntypedState HeaderId Header) (r : ECGSyncResponder HeaderId), Exchanged s r →
      Called s r ∧ ∀ s' (a : Attempt HeaderId), s.Grows s' → s'.WellFormed →
        ∃ w, Returns (fun n => a.run n s' r) w ∧ Exchanged s' w.1 := by
  constructor
  · intro s r h
    exact ⟨h.inGraph.1.contained, h.inGraph.2, h.exists_call,
      fun x hx => returns_mark h.wellFormed r.theirKnown hx⟩
  · intro s r h
    refine ⟨h.called, fun s' a hg hs => ?_⟩
    obtain ⟨w, hw, -⟩ := (h.called.snapshot hg hs).exists_attempt a
    exact ⟨w, hw, h.attempt a hg hs hw⟩

section Merge

open V0

/-- A request, one with a bitmap on a graph that has grown, and another try of its answer. -/
theorem negotiation_returns_merged : ∃ w₁ w₂ w₃,
    Returns (fun n => (Attempt.initial [1]).run n mergedRequested.responderEcg .new) w₁ ∧
    Returns (fun n => (Attempt.round [1, 2] mergedBitmap).run n mergedGrown.responderEcg w₁.1) w₂ ∧
    Returns (fun n => (Attempt.again [1, 2]).run n mergedGrown.responderEcg w₂.1) w₃ := by
  have hwf : mergedRequested.responderEcg.WellFormed :=
    (((UntypedState.wellFormed_new.insertHeader _ _).insertHeader _ _).insertHeader _
      _).insertHeader _ _
  have hgrows : mergedRequested.responderEcg.Grows mergedGrown.responderEcg :=
    (hwf.getNode_insertHeader ⟨4, [3]⟩ []).1
  have hgrown : mergedGrown.responderEcg.WellFormed := hwf.insertHeader _ _
  obtain ⟨w₁, hw₁, h₁⟩ := (negotiation_returns.2 _ _ (.new hwf)).2 _ (.initial [1])
    (fun _ _ h => h) hwf
  obtain ⟨w₂, hw₂, h₂⟩ := (negotiation_returns.2 _ _ h₁).2 _ (.round [1, 2] mergedBitmap)
    hgrows hgrown
  obtain ⟨w₃, hw₃, -⟩ := (negotiation_returns.2 _ _ h₂).2 _ (.again [1, 2])
    (fun _ _ h => h) hgrown
  exact ⟨w₁, w₂, w₃, hw₁, hw₂, hw₃⟩

end Merge

end Ossa.EcgSync
