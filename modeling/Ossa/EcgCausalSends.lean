import Ossa.EcgSendOrder

/-!
Operations are sent in causal order, over a whole exchange.

The two graphs grow at any time, and the initiator inserts what it receives. As long as every
response was queued in order, each header of a response comes after its parents, and the
initiator accepts it.
-/

namespace Ossa.EcgSync

open Ossa.Loop Ossa.Collections Ossa.Ecg

variable {HeaderId Header : Type} [LinearOrder HeaderId] [ECGHeader Header HeaderId]

/-- The initiator has the header, or was sent it in an earlier response. -/
def Session.Provided (x : Session HeaderId Header) (h : HeaderId) : Prop :=
  x.initiatorEcg.contains h ∨ h ∈ x.sentIds

/-- Whatever the responder of `x` queues for its response joins the queue in order: the headers
it queues until it is in the state `r`, and those it queues while it sends. -/
def QueuesInOrder (x : Session HeaderId Header) (r : ECGSyncResponder HeaderId) : Prop :=
  (∀ c, Queued r c → ¬ Queued x.responder c → DueInOrder x.responderEcg x.Provided (r, []) c) ∧
    JoinsInOrder x.responderEcg x.Provided r

/-- The responder of `x` is about to choose the operations of a response. -/
def Chooses (x : Session HeaderId Header) (r : ECGSyncResponder HeaderId) : Prop :=
  ∃ r₀, Hears x r₀ ∧ r₀.prepareOurTips x.responderEcg = .ok r

/-- One step of an exchange: a step of a session in which the initiator inserts the operations
that it receives. -/
inductive ExchangeStep (U : Set Header) : Session HeaderId Header → Session HeaderId Header → Prop
  | session {x y} : Step U x y → (y.phase = .idle → x.phase = .idle) → ExchangeStep U x y
  | receive {x haves operations} : x.phase = .responded haves operations →
    ExchangeStep U x { x with
      phase := .idle
      initiator := some ⟨haves⟩
      initiatorEcg := insertAll x.initiatorEcg operations }

/-- A step in which, if a response is sent, it was queued in order. -/
def OrderedStep (U : Set Header) (x y : Session HeaderId Header) : Prop :=
  ExchangeStep U x y ∧ (y.sent ≠ x.sent → ∀ r, Chooses x r → QueuesInOrder x r)

/-- What holds between the steps of an ordered exchange. -/
structure Ordered (x : Session HeaderId Header) : Prop where
  queue : ∀ c, Queued x.responder c → DueInOrder x.responderEcg x.Provided (x.responder, []) c
  inserted : ∀ h ∈ x.sentIds, x.initiatorEcg.contains h ∨
    ∃ haves operations, x.phase = .responded haves operations ∧ h ∈ ids operations
  flight : ∀ haves operations, x.phase = .responded haves operations →
    FromGraph x.responderEcg operations ∧ Causal x.responderEcg x.initiatorEcg operations

variable {U : Set Header} {s s' i i' : UntypedState HeaderId Header} {has has' : HeaderId → Prop}
  {r r' : ECGSyncResponder HeaderId} {x y : Session HeaderId Header} {c h p : HeaderId}
  {operations : List (Header × RawECGBody)} {tips : List HeaderId}

/-! ### Growing graphs -/

lemma parent_of_grows (hg : s.Grows s') (hc : s.contains c) : s'.Parent p c ↔ s.Parent p c := by
  obtain ⟨info, hinfo⟩ := UntypedState.contains_iff_getNode.mp hc
  have hinfo' := hg c info hinfo
  constructor
  · rintro ⟨info', h', hmem⟩
    obtain rfl := Option.some.inj (hinfo'.symm.trans h')
    exact ⟨info, hinfo, hmem⟩
  · rintro ⟨info', h', hmem⟩
    exact ⟨info', hg c info' h', hmem⟩

omit [ECGHeader Header HeaderId] in
lemma entryOf_of_grows (hg : s.Grows s') (hc : s.contains h) : entryOf s' h = entryOf s h := by
  obtain ⟨d, hd⟩ := UntypedState.contains_iff_depth.mp hc
  rw [entryOf_eq hd, entryOf_eq (hg.depth hd)]

lemma Due.grows (hg : s.Grows s') (hd : DepthsRight s r) (hc : s.contains c)
    (hdue : Due s r c p) : Due s' r c p := by
  obtain ⟨z, ⟨d, hz⟩, hlt, hpath⟩ := hdue
  have hcz : s.contains z := UntypedState.contains_iff_depth.mpr ⟨d, hd d z hz⟩
  refine ⟨z, ⟨d, hz⟩, ?_, Relation.ReflTransGen.mono (fun a b hab => ?_) _ _ hpath⟩
  · rwa [entryOf_of_grows hg hc, entryOf_of_grows hg hcz]
  · obtain ⟨hparent, hltb⟩ := hab
    rw [entryOf_of_grows hg hc, entryOf_of_grows hg hparent.contains]
    exact ⟨(parent_of_grows hg hparent.contains).mpr hparent, hltb⟩

lemma DueInOrder.mono (hhas : ∀ p, has p → has' p)
    {w : ECGSyncResponder HeaderId × List (Header × RawECGBody)} (hdue : DueInOrder s has w c) :
    DueInOrder s has' w c := fun hk p hp => (hdue hk p hp).imp_left (hhas p)

lemma Causal.mono (hg : i.Grows i') (hc : Causal s i operations) : Causal s i' operations :=
  fun before op after heq p hp => (hc before op after heq p hp).imp_left hg.contains

lemma Causal.grows (hg : s.Grows s') (hf : FromGraph s operations)
    (hc : Causal s i operations) : Causal s' i operations := by
  intro before op after heq p hp
  obtain ⟨info, hinfo, -⟩ := hf op (by simp [heq])
  have hcop := UntypedState.contains_iff_getNode.mpr ⟨info, hinfo⟩
  exact hc before op after heq p ((parent_of_grows hg hcop).mp hp)

omit [ECGHeader Header HeaderId] in
lemma FromGraph.grows [ECGHeader Header HeaderId] (hg : s.Grows s') (hf : FromGraph s operations) :
    FromGraph s' operations := fun op hop =>
  (hf op hop).imp fun _ hinfo => ⟨hg _ _ hinfo.1, hinfo.2⟩

/-! ### Responses -/

lemma Chooses.accounted (hU : Set.InjOn (getHeaderId : Header → HeaderId) U) (hs : Sound U x)
    (hr : Chooses x r) : Accounted x.Provided (r, ([] : List (Header × RawECGBody))) := by
  obtain ⟨r₀, hears, htips⟩ := hr
  obtain ⟨he, -⟩ := prepareOurTips_spec htips
  have hb := hears.believes hU hs
  intro h hh
  rw [theyKnow_iff, he.theirKnown, he.ourUnknown] at hh
  exact Or.inl (hh.elim (hb.known h) fun hu => Or.inl (hb.unknown h hu))

lemma Ordered.sending (hU : Set.InjOn (getHeaderId : Header → HeaderId) U) (hs : Sound U x)
    (hx : Ordered x) (hr : Chooses x r) (hq : QueuesInOrder x r) :
    Sending x.responderEcg x.Provided (r, []) := by
  obtain ⟨r₀, hears, htips⟩ := hr
  obtain ⟨he, -⟩ := prepareOurTips_spec htips
  obtain ⟨hqueued, -, hknow⟩ := hears.grows hs
  have hqueued' : ∀ h, Queued x.responder h → Queued r h := fun h hh => by
    rw [Queued, he.sendQueue]
    exact hqueued h hh
  have hsame : ∀ h, r.theyKnow h = r₀.theyKnow h := fun h => by
    simp only [ECGSyncResponder.theyKnow, he.theirKnown, he.ourUnknown]
  refine ⟨fun d h hh => ?_, Chooses.accounted hU hs ⟨r₀, hears, htips⟩, fun c hc => ?_, ?_⟩
  · exact (hears.inGraph hs).send d h (he.sendQueue ▸ hh)
  · by_cases hold : Queued x.responder c
    · intro hk p hp
      have hk' : x.responder.theyKnow c = false := by
        by_contra hne
        rw [hsame, hknow c (Bool.not_eq_false _ ▸ hne)] at hk
        cases hk
      exact (hx.queue c hold hk' p hp).imp_right (Or.imp_right (Due.mono hqueued'))
    · exact hq.1 c hc hold
  · intro before op after heq
    simp at heq

/-- The parts of a response: the operations are chosen, and then headers are proposed. -/
lemma Hears.chooses (hs : Sound U x) {r₀ : ECGSyncResponder HeaderId} (hears : Hears x r₀)
    (h' : Returns (fun n => r₀.prepareResponse n x.responderEcg) (r', operations)) :
    ∃ r r₁, Chooses x r ∧ Returns (fun n => r.prepareOperations n x.responderEcg) (r₁, operations) ∧
      r'.sendQueue = r₁.sendQueue ∧ ∀ h, r'.theyKnow h = r₁.theyKnow h := by
  obtain ⟨n, h'⟩ := h'
  obtain ⟨r, h₁, h'⟩ := bind_eq_ok.mp h'
  obtain ⟨⟨r₁, ops⟩, h₂, h'⟩ := bind_eq_ok.mp h'
  obtain ⟨r₂, h₃, heq⟩ := bind_eq_ok.mp h'
  cases heq
  have hprep : Prepared x r₁ := ⟨r₀, r, _, hears, h₁, n, h₂⟩
  obtain ⟨hw, -⟩ := prepareSentHaves_spec hs.responder.wf (hprep.inGraph hs).haves h₃
  exact ⟨r, r₁, ⟨r₀, hears, h₁⟩, ⟨n, h₂⟩, hw.sendQueue, hw.theyKnow⟩

lemma Ordered.contains (hx : Ordered x)
    (hph : ∀ haves operations, x.phase ≠ .responded haves operations) (hp : x.Provided p) :
    x.initiatorEcg.contains p := by
  rcases hp with hc | hsent
  · exact hc
  · rcases hx.inserted p hsent with hc | ⟨haves, ops, heq, -⟩
    · exact hc
    · exact absurd heq (hph haves ops)

/-- **An answer that was queued in order** keeps the exchange in order. -/
theorem Ordered.answer (hU : Set.InjOn (getHeaderId : Header → HeaderId) U) (hs : Sound U x)
    (hx : Ordered x) (hph : ∀ haves operations, x.phase ≠ .responded haves operations)
    {r₀ : ECGSyncResponder HeaderId} (hears : Hears x r₀)
    (h' : Returns (fun n => r₀.prepareResponse n x.responderEcg) (r', operations))
    (hq : (x.answer tips r' operations).sent ≠ x.sent → ∀ r, Chooses x r → QueuesInOrder x r) :
    Ordered (x.answer tips r' operations) := by
  have hwf := hs.responder.wf
  obtain ⟨r, r₁, hr, ⟨n, hops⟩, hqueue, hknow⟩ := hears.chooses hs h'
  obtain ⟨hd, hdrained⟩ := prepareOperations_spec hwf hops
  have hqueued : ∀ c, Queued r' c ↔ Queued r₁ c := fun c => by simp only [Queued, hqueue]
  unfold Session.answer at hq ⊢
  split_ifs at hq ⊢ with hempty
  · rw [Bool.and_eq_true, List.isEmpty_iff] at hempty
    refine ⟨fun c hc => ?_, fun h hh => Or.inl (hx.contains hph (Or.inr hh)), fun _ _ heq => ?_⟩
    · refine absurd ((hqueued c).mp hc) (hdrained ?_ c)
      simp [hempty.1, maxDeliverHeaders]
    · cases heq
  · have hsend := sending_prepareOperations hwf
      (hx.sending hU hs hr (hq (by simp) r hr)) (hq (by simp) r hr).2 hops
    have hids : ∀ h, h ∈ ids (x.sent ++ [operations]).flatten ↔ h ∈ x.sentIds ∨ h ∈ ids operations :=
      fun h => by simp [Session.sentIds, ids]
    refine ⟨fun c hc hk p hp => ?_, fun h hh => ?_, fun haves ops heq => ?_⟩
    · rw [hknow] at hk
      rcases hsend.queue c ((hqueued c).mp hc) hk p hp with (hcont | hsent) | hmem | hdue
      · exact Or.inl (Or.inl hcont)
      · exact Or.inl (Or.inr ((hids p).mpr (Or.inl hsent)))
      · exact Or.inl (Or.inr ((hids p).mpr (Or.inr hmem)))
      · exact Or.inr (Or.inr (hdue.mono fun z => (hqueued z).mpr))
    · rcases (hids h).mp hh with hh | hh
      · exact Or.inl (hx.contains hph (Or.inr hh))
      · exact Or.inr ⟨_, operations, rfl, hh⟩
    · cases heq
      exact ⟨hd.nodes, hsend.causal.causal fun p => hx.contains hph⟩

/-! ### Exchanges -/

lemma ordered_start : Ordered (.start : Session HeaderId Header) := by
  refine ⟨fun c hc => ?_, fun h hh => ?_, fun _ _ heq => ?_⟩
  · obtain ⟨d, hd⟩ := hc
    exact absurd hd (BinaryHeap.not_mem_empty _)
  · simp [Session.start, Session.sentIds, ids] at hh
  · cases heq

/-- **Every step of an ordered exchange keeps it in order.** -/
theorem Ordered.step (hU : Set.InjOn (getHeaderId : Header → HeaderId) U) (hs : Sound U x)
    (hx : Ordered x) (hstep : OrderedStep U x y) : Ordered y := by
  have ha := Consistent.agree hU hs.responder hs.initiator
  have hwf := hs.responder.wf
  obtain ⟨hstep, hq⟩ := hstep
  cases hstep with
  | session hstep hidle =>
    cases hstep with
    | @initiatorGrows header ops hmem =>
      have hg := (hs.initiator.wf.getNode_insertHeader header ops).1
      exact ⟨fun c hc => (hx.queue c hc).mono fun p => Or.imp_left hg.contains,
        fun h hh => (hx.inserted h hh).imp_left hg.contains,
        fun haves ops heq => (hx.flight haves ops heq).imp_right (Causal.mono hg)⟩
    | @responderGrows header ops hmem =>
      have hg := (hwf.getNode_insertHeader header ops).1
      refine ⟨fun c ⟨d, hc⟩ hk p hp => ?_, hx.inserted, fun haves ops heq => ?_⟩
      · have hcc : x.responderEcg.contains c :=
          UntypedState.contains_iff_depth.mpr ⟨d, hs.inGraph.send d c hc⟩
        exact (hx.queue c ⟨d, hc⟩ hk p ((parent_of_grows hg hcc).mp hp)).imp_right
          (Or.imp_right (Due.grows hg hs.inGraph.send hcc))
      · obtain ⟨hf, hc⟩ := hx.flight haves ops heq
        exact ⟨hf.grows hg, hc.grows hg hf⟩
    | request hph hreq =>
      refine ⟨hx.queue, fun h hh => Or.inl (hx.contains (fun _ _ heq => ?_) (Or.inr hh)),
        fun _ _ heq => ?_⟩
      · rw [hph] at heq
        cases heq
      · cases heq
    | respond hph hret =>
      obtain ⟨r₀, hears, hresp⟩ := hears_of_respond hph hret
      exact hx.answer hU hs (fun _ _ heq => by rw [hph] at heq; cases heq) hears hresp hq
    | update hph hret =>
      obtain ⟨r₀, hears, hresp⟩ := hears_of_update hph hret
      exact hx.answer hU hs (fun _ _ heq => by rw [hph] at heq; cases heq) hears hresp hq
    | receive hph =>
      rw [hph] at hidle
      cases hidle rfl
  | @receive haves ops hph =>
    obtain ⟨hf, hc⟩ := hx.flight haves ops hph
    have hrec := receives_insertAll hs.initiator.wf ha hf
    refine ⟨fun c hq => (hx.queue c hq).mono fun p => Or.imp_left hrec.grows.contains,
      fun h hh => Or.inl ?_, fun _ _ heq => ?_⟩
    · rcases hx.inserted h hh with hh | ⟨haves', ops', heq, hh⟩
      · exact hrec.grows.contains hh
      · rw [hph] at heq
        cases heq
        exact contains_insertAll hwf hs.initiator.wf ha hf hc h hh
    · cases heq

/-- An exchange is a session: to insert what was received is to grow by the headers of the
responder. -/
lemma ExchangeStep.reachable (hx : Reachable U x)
    (hf : ∀ haves operations, x.phase = .responded haves operations →
      ∀ op ∈ operations, op.1 ∈ U) (hstep : ExchangeStep U x y) : Reachable U y := by
  cases hstep with
  | session hstep _ => exact hx.tail hstep
  | @receive haves ops hph =>
    have hgrow : ∀ (z : Session HeaderId Header) (l : List (Header × RawECGBody)),
        Reachable U z → (∀ op ∈ l, op.1 ∈ U) →
          Reachable U { z with initiatorEcg := insertAll z.initiatorEcg l } := by
      intro z l hz hl
      induction l generalizing z with
      | nil => exact hz
      | cons op l ih =>
        exact ih _ (hz.tail (.initiatorGrows z op.2 (hl op List.mem_cons_self)))
          fun op' hop => hl op' (List.mem_cons_of_mem _ hop)
    exact hgrow _ ops (hx.tail (.receive hph)) (hf haves ops hph)

/-- **Every state of an ordered exchange is in order.** -/
theorem ordered_of_steps (hU : Set.InjOn (getHeaderId : Header → HeaderId) U)
    (hx : Relation.ReflTransGen (OrderedStep U) .start x) : Reachable U x ∧ Ordered x := by
  induction hx with
  | refl => exact ⟨.refl, ordered_start⟩
  | tail _ hstep ih =>
    obtain ⟨hreach, hord⟩ := ih
    have hs := sound_of_reachable hU hreach
    refine ⟨hstep.1.reachable hreach fun haves ops hph op hop => ?_, hord.step hU hs hstep⟩
    obtain ⟨info, hinfo, hheader, -⟩ := (hord.flight haves ops hph).1 op hop
    exact hheader ▸ hs.responder.mem _ info hinfo

lemma Ordered.accepted (hU : Set.InjOn (getHeaderId : Header → HeaderId) U) (hs : Sound U x)
    (hord : Ordered x) (hr : Chooses x r)
    (hops : Returns (fun n => r.prepareOperations n x.responderEcg) (r', operations))
    (hq : QueuesInOrder x r) : CausalAfter x.responderEcg x.Provided operations ∧
      ∀ i, Consistent U i → x.initiatorEcg.Grows i → ∀ before op after,
        operations = before ++ op :: after → ¬ (insertAll i before).contains (getHeaderId op.1) →
          ((insertAll i before).insertHeader op.1 op.2).2 = true := by
  have hwf := hs.responder.wf
  have hph : ∀ haves ops, x.phase ≠ .responded haves ops := by
    obtain ⟨r₀, hears, -⟩ := hr
    rcases hears with ⟨hph, -⟩ | ⟨hph, -, -⟩ | ⟨hph, -⟩ <;> simp [hph]
  obtain ⟨n, hn⟩ := hops
  have hcausal := (sending_prepareOperations hwf (hord.sending hU hs hr hq) hq.2 hn).causal
  refine ⟨hcausal, fun i hi hg before op after heq hnot => ?_⟩
  exact accepts_of_causal hwf hi.wf (Consistent.agree hU hs.responder hi)
    (prepareOperations_spec hwf hn).1.nodes
    (hcausal.causal fun p hp => hg.contains (hord.contains hph hp)) heq hnot

/-- **Operations are sent in causal order if they are queued in order.** In an exchange whose
responses were all queued in order, each header that is chosen next comes after its parents, and
the initiator accepts it. A response that is not cut comes in causal order only then. -/
theorem sent_causally (hU : Set.InjOn (getHeaderId : Header → HeaderId) U)
    (hx : Relation.ReflTransGen (OrderedStep U) .start x) (hr : Chooses x r)
    (hops : Returns (fun n => r.prepareOperations n x.responderEcg) (r', operations)) :
    (QueuesInOrder x r → CausalAfter x.responderEcg x.Provided operations ∧
      ∀ i, Consistent U i → x.initiatorEcg.Grows i → ∀ before op after,
        operations = before ++ op :: after → ¬ (insertAll i before).contains (getHeaderId op.1) →
          ((insertAll i before).insertHeader op.1 op.2).2 = true) ∧
    (operations.length < maxDeliverHeaders →
      CausalAfter x.responderEcg x.Provided operations → QueuesInOrder x r) := by
  obtain ⟨hreach, hord⟩ := ordered_of_steps hU hx
  have hs := sound_of_reachable hU hreach
  refine ⟨hord.accepted hU hs hr hops, ?_⟩
  intro hlt hcausal
  obtain ⟨r₀, hears, htips⟩ := hr
  obtain ⟨he, -⟩ := prepareOurTips_spec htips
  have hd : DepthsRight x.responderEcg r := fun d h hh =>
    (hears.inGraph hs).send d h (he.sendQueue ▸ hh)
  obtain ⟨hqueue, hjoin⟩ := order_of_causal hs.responder.wf hd hops hlt hcausal
  exact ⟨fun c hc _ => hqueue c hc, hjoin⟩

/-! ### Graphs without merges -/

/-- Whatever the responder queues while it learns has no parents, or has one that they know. -/
structure QueuesBelow (s : UntypedState HeaderId Header) (r r' : ECGSyncResponder HeaderId) :
    Prop where
  known : ∀ h ∈ r.theirKnown, h ∈ r'.theirKnown
  queued : ∀ c, Queued r' c → Queued r c ∨
    ∀ p, s.Parent p c → ∃ q ∈ r'.theirKnown, s.Parent q c

lemma QueuesBelow.refl (s : UntypedState HeaderId Header) (r : ECGSyncResponder HeaderId) :
    QueuesBelow s r r := ⟨fun _ h => h, fun _ => Or.inl⟩

lemma QueuesBelow.trans {r'' : ECGSyncResponder HeaderId} (h₁ : QueuesBelow s r r')
    (h₂ : QueuesBelow s r' r'') : QueuesBelow s r r'' := by
  refine ⟨fun h hh => h₂.known h (h₁.known h hh), fun c hc => ?_⟩
  rcases h₂.queued c hc with hc | hc
  · refine (h₁.queued c hc).imp_right fun hq p hp => ?_
    obtain ⟨q, hq, hparent⟩ := hq p hp
    exact ⟨q, h₂.known q hq, hparent⟩
  · exact Or.inr hc

variable {n : ℕ}

lemma queuesBelow_mark (hs : s.WellFormed) {msg : String}
    (h' : (r.markAsKnown n s h >>= fun r => r.enqueueChildren s msg h) = .ok r') :
    QueuesBelow s r r' := by
  obtain ⟨hl, heard, -⟩ := heard_of_mark hs h'
  obtain ⟨r₁, h₁, h₂⟩ := bind_eq_ok.mp h'
  obtain ⟨k, -, rfl⟩ := markAsKnown_eq h₁
  obtain ⟨hc, cs, rfl, hcs⟩ := enqueueChildren_spec hs h₂
  refine ⟨hl.known, fun c ⟨d, hq⟩ => ?_⟩
  rcases mem_enqueue.mp hq with hq | hq
  · exact Or.inl ⟨d, hq⟩
  · exact Or.inr fun _ _ => ⟨h, heard.known hc, ((hcs d c).mp hq).1⟩

lemma queuesBelow_handleTheirTips (hs : s.WellFormed)
    (h' : r.handleTheirTips n s tips = .ok r') : QueuesBelow s r r' := by
  have hstart : QueuesBelow s r (if tips.isEmpty then r.enqueue s.getRootNodesWithDepth else r) := by
    split_ifs
    · refine ⟨fun _ h => h, fun c ⟨d, hq⟩ => (mem_enqueue.mp hq).imp (fun hq => ⟨d, hq⟩) ?_⟩
      intro hroot p hp
      obtain ⟨c, hmem, -, rfl⟩ : ∃ x ∈ s.rootNodes, 1 = d ∧ x = c := by
        simpa [UntypedState.getRootNodesWithDepth] using hroot
      obtain ⟨info, hinfo, hnil⟩ := hs.roots.mp hmem
      obtain ⟨info', hinfo', hp⟩ := hp
      obtain rfl := Option.some.inj (hinfo.symm.trans hinfo')
      rw [hnil] at hp
      cases hp
    · exact .refl s r
  refine foldlM_invariant (I := QueuesBelow s r) h' hstart fun u v t _ hu hv => hu.trans ?_
  unfold ECGSyncResponder.handleTheirTip at hv
  split_ifs at hv
  · exact queuesBelow_mark hs hv
  · cases hv
    exact ⟨fun _ h => h, fun _ => Or.inl⟩

lemma queuesBelow_handleTheirKnown (hs : s.WellFormed) {bits : HeaderBitmap}
    (h' : r.handleTheirKnown n s bits = .ok r') : QueuesBelow s r r' := by
  refine foldlM_invariant (I := QueuesBelow s r) h' (.refl s r) fun u v a _ hu hv => hu.trans ?_
  obtain ⟨b, -, hv⟩ := bind_eq_ok.mp hv
  unfold ECGSyncResponder.handleClaim at hv
  cases b with
  | true => exact queuesBelow_mark hs hv
  | false =>
    obtain ⟨ps, hps, hv⟩ := bind_eq_ok.mp hv
    rw [orFault_eq_ok] at hps
    have hc := UntypedState.contains_of_getParents hps
    obtain ⟨ps', hps', hmem⟩ := hs.parents hc
    obtain rfl : ps = ps' := Option.some.inj (hps.symm.trans hps')
    obtain ⟨info, hinfo⟩ := UntypedState.contains_iff_getNode.mp hc
    split_ifs at hv with hcond
    · obtain ⟨d, -, hv⟩ := bind_eq_ok.mp hv
      cases hv
      refine ⟨fun _ h => h, fun c ⟨d', hq⟩ => ?_⟩
      rcases BinaryHeap.mem_push.mp hq with heq | hq
      · have hpair := toLex_inj.mp heq
        simp only [Prod.mk.injEq] at hpair
        obtain rfl := hpair.2
        refine Or.inr fun p hp => ?_
        rw [Bool.or_eq_true] at hcond
        rcases hcond with hroot | hall
        · obtain ⟨info', hinfo', hp⟩ := hp
          obtain rfl := Option.some.inj (hinfo.symm.trans hinfo')
          rw [(hs.isRootNode hinfo).mp hroot] at hp
          cases hp
        · refine ⟨p, ?_, hp⟩
          exact Std.ExtTreeSet.contains_iff_mem.mp (List.all_eq_true.mp hall p ((hmem p).mpr hp))
      · exact Or.inl ⟨d', hq⟩
    · cases hv
      exact .refl s _

lemma HearsTipsOf.queuesBelow {tips : List HeaderId} (hs : x.responderEcg.WellFormed)
    (hr : HearsTipsOf x tips r) : QueuesBelow x.responderEcg x.responder r := by
  obtain ⟨r₀, ⟨n, h₀⟩, m, h⟩ := hr
  have hres := updateOurUnknown_spec hs h₀
  refine QueuesBelow.trans ⟨hres.known, fun c hc => Or.inl ?_⟩ (queuesBelow_handleTheirTips hs h)
  rwa [Queued, hres.sendQueue] at hc

lemma Hears.queuesBelow (hs : Sound U x) (hr : Hears x r) :
    QueuesBelow x.responderEcg x.responder r := by
  have hwf := hs.responder.wf
  cases hr with
  | first _ hr => exact hr.queuesBelow hwf
  | later _ hr₁ hr =>
    obtain ⟨m, hr⟩ := hr
    exact (hr₁.queuesBelow hwf).trans (queuesBelow_handleTheirKnown hwf hr)
  | update _ hr => exact hr.queuesBelow hwf

open ECGSyncResponder in
/-- **Without merges everything is queued in order**: the one parent of a header that is queued
was known or has just been sent. -/
theorem queuesInOrder_of_forest (hU : Set.InjOn (getHeaderId : Header → HeaderId) U)
    (hs : Sound U x) (hr : Chooses x r)
    (hone : ∀ p q c, x.responderEcg.Parent p c → x.responderEcg.Parent q c → p = q) :
    QueuesInOrder x r := by
  have hwf := hs.responder.wf
  have hacc := hr.accounted hU hs
  constructor
  · intro c hc hold _ p hp
    obtain ⟨r₀, hears, htips⟩ := hr
    obtain ⟨he, -⟩ := prepareOurTips_spec htips
    rw [Queued, he.sendQueue] at hc
    obtain ⟨q, hq, hparent⟩ := ((hears.queuesBelow hs).queued c hc).resolve_left hold p hp
    obtain rfl := hone p q c hp hparent
    exact (hacc p (theyKnow_iff.mpr (Or.inl (he.theirKnown ▸ hq)))).imp_right Or.inl
  · intro n w f hv hb c hc hold _ p hp
    have haccw := hacc.visits hwf hv
    rcases operationsBody_cases hwf hb with ⟨-, heq⟩ | ⟨h, w', ht, heq⟩
    · cases heq
      exact absurd hc hold
    · obtain ⟨d, queue, hpop⟩ := ht.popped
      have hparent := (queued_of_operationsBody hwf hpop hb hc).resolve_left hold
      obtain rfl := hone p h c hp hparent
      have hflow : flowState f = w' := by
        rw [heq]
        split_ifs <;> rfl
      rw [hflow]
      exact (haccw.taken hwf ht).imp_right Or.inl

/-! The initiator has a root. The responder has it too, and either a child of it, or a second
root and a merge of both. -/

section Merge

open V0

/-- The initiator, with the headers `is`, has sent its first request to a responder with `ss`. -/
def requested (is ss : List TestHeader) : Session ℕ TestHeader :=
  { Session.start with
    initiatorEcg := insertAll .new (is.map fun header => (header, []))
    responderEcg := insertAll .new (ss.map fun header => (header, []))
    phase := .requested (insertAll .new (is.map fun header => (header, ([] : RawECGBody)))).tips.toList none }

lemma orderedStep_of_sent {V : Set TestHeader} {y z : Session ℕ TestHeader} (h : Step V y z)
    (hidle : z.phase = .idle → y.phase = .idle) (hsent : z.sent = y.sent) : OrderedStep V y z :=
  ⟨.session h hidle, fun hne => absurd hsent hne⟩

lemma requested_steps {V : Set TestHeader} {is ss : List TestHeader} (his : ∀ h ∈ is, h ∈ V)
    (hss : ∀ h ∈ ss, h ∈ V) :
    Relation.ReflTransGen (OrderedStep V) .start (requested is ss) := by
  have hini : ∀ (l : List TestHeader) (z : Session ℕ TestHeader), (∀ h ∈ l, h ∈ V) →
      Relation.ReflTransGen (OrderedStep V) z { z with
        initiatorEcg := insertAll z.initiatorEcg (l.map fun header => (header, [])) } := by
    intro l
    induction l with
    | nil => exact fun z _ => .refl
    | cons header l ih =>
      intro z hl
      refine .head (orderedStep_of_sent (.initiatorGrows z [] (hl header List.mem_cons_self)) id rfl)
        (ih _ fun h hh => hl h (List.mem_cons_of_mem _ hh))
  have hres : ∀ (l : List TestHeader) (z : Session ℕ TestHeader), (∀ h ∈ l, h ∈ V) →
      Relation.ReflTransGen (OrderedStep V) z { z with
        responderEcg := insertAll z.responderEcg (l.map fun header => (header, [])) } := by
    intro l
    induction l with
    | nil => exact fun z _ => .refl
    | cons header l ih =>
      intro z hl
      refine .head (orderedStep_of_sent (.responderGrows z [] (hl header List.mem_cons_self)) id rfl)
        (ih _ fun h hh => hl h (List.mem_cons_of_mem _ hh))
  exact ((hini is .start his).trans (hres ss _ hss)).tail
    (orderedStep_of_sent (.request rfl rfl) (fun h => by cases h) rfl)

/-- The responder hears the tips, and chooses the operations of its response. -/
def chosen (is ss : List TestHeader) : Exec (ECGSyncResponder ℕ) := do
  let r ← (requested is ss).responder.updateOurUnknown 8 (requested is ss).responderEcg
  let r ← r.handleTheirTips 8 (requested is ss).responderEcg
    (requested is ss).initiatorEcg.tips.toList
  r.prepareOurTips (requested is ss).responderEcg

lemma chooses_chosen {is ss : List TestHeader} {r : ECGSyncResponder ℕ}
    (h : chosen is ss = .ok r) : Chooses (requested is ss) r := by
  obtain ⟨r₀, h₀, h⟩ := bind_eq_ok.mp h
  obtain ⟨r₁, h₁, h⟩ := bind_eq_ok.mp h
  exact ⟨r₁, .first rfl ⟨r₀, ⟨8, h₀⟩, 8, h₁⟩, h⟩

/-- A root, a chain of two headers below it, and a merge of the root with the end of the chain. -/
def shortcutHeaders : List TestHeader := [⟨1, []⟩, ⟨2, [1]⟩, ⟨3, [2]⟩, ⟨4, [1, 3]⟩]

def shortcutSet : Set TestHeader := { header | header ∈ shortcutHeaders }

lemma injOn_shortcutSet : Set.InjOn (getHeaderId : TestHeader → ℕ) shortcutSet := by
  have hall : ∀ a ∈ shortcutHeaders, ∀ b ∈ shortcutHeaders,
      getHeaderId a = getHeaderId b → a = b := by decide
  exact fun a ha b hb => hall a ha b hb

/-- The exchange in which the initiator has the root, up to the first response. -/
abbrev shortcut (ss : List TestHeader) : Session ℕ TestHeader := requested [⟨1, []⟩] ss

lemma chain_isOk : (chosen [⟨1, []⟩] [⟨1, []⟩, ⟨2, [1]⟩, ⟨3, [2]⟩]).isOk = true := by decide

lemma shortcut_isOk : (chosen [⟨1, []⟩] shortcutHeaders).isOk = true := by decide

/-- Without the merge the chain is sent in order. -/
theorem sent_causally_chain : ∃ operations, ids operations = [2, 3] ∧
    CausalAfter (shortcut [⟨1, []⟩, ⟨2, [1]⟩, ⟨3, [2]⟩]).responderEcg
      (shortcut [⟨1, []⟩, ⟨2, [1]⟩, ⟨3, [2]⟩]).Provided operations := by
  have hsteps : Relation.ReflTransGen (OrderedStep {h | h ∈ shortcutHeaders.dropLast}) .start
      (shortcut [⟨1, []⟩, ⟨2, [1]⟩, ⟨3, [2]⟩]) := requested_steps (by decide) (by decide)
  have hU : Set.InjOn (getHeaderId : TestHeader → ℕ) {h | h ∈ shortcutHeaders.dropLast} :=
    injOn_shortcutSet.mono fun h hh => List.mem_of_mem_dropLast hh
  have hs := sound_of_reachable hU (ordered_of_steps hU hsteps).1
  have hr := chooses_chosen (eq_ok_value chain_isOk)
  have hone : ∀ header ∈ shortcutHeaders.dropLast, ∀ p ∈ header.parentIds,
      ∀ q ∈ header.parentIds, p = q := by decide
  have hq := queuesInOrder_of_forest hU hs hr fun p q c ⟨info, hinfo, hp⟩ ⟨info', hinfo', hq⟩ => by
    obtain rfl := Option.some.inj (hinfo.symm.trans hinfo')
    exact hone _ (hs.responder.mem c info hinfo) p hp q hq
  have hops := eq_ok_value (x := (value _ chain_isOk).prepareOperations 8
    (shortcut [⟨1, []⟩, ⟨2, [1]⟩, ⟨3, [2]⟩]).responderEcg) (by decide)
  exact ⟨_, by decide, ((sent_causally hU hsteps hr ⟨8, hops⟩).1 hq).1⟩

/-- **The merge is sent first**: its depth is that of the shortcut, so it comes out of the queue
before its other parent, and the initiator rejects it. -/
theorem sent_before_parent : ∃ (x : Session ℕ TestHeader) (r r' : ECGSyncResponder ℕ)
    (operations : List (TestHeader × RawECGBody)), Reachable shortcutSet x ∧ Chooses x r ∧
      Returns (fun n => r.prepareOperations n x.responderEcg) (r', operations) ∧
      ids operations = [4, 2, 3] ∧ ¬ CausalAfter x.responderEcg x.Provided operations ∧
      ((insertAll x.initiatorEcg []).insertHeader ⟨4, [1, 3]⟩ []).2 = false := by
  have hsteps : Relation.ReflTransGen (OrderedStep shortcutSet) .start (shortcut shortcutHeaders) :=
    requested_steps (fun h hh => List.mem_singleton.mp hh ▸ List.mem_cons_self) fun h hh => hh
  have hops := eq_ok_value (x := (value _ shortcut_isOk).prepareOperations 8
    (shortcut shortcutHeaders).responderEcg) (by decide)
  refine ⟨_, _, _, _, (ordered_of_steps injOn_shortcutSet hsteps).1,
    chooses_chosen (eq_ok_value shortcut_isOk), ⟨8, hops⟩, by decide, fun hc => ?_, by decide⟩
  have hparent : (shortcut shortcutHeaders).responderEcg.Parent 3 4 := ⟨_, rfl, by decide⟩
  rcases hc [] (⟨4, [1, 3]⟩, []) _ rfl 3 hparent with (hcont | hsent) | hmem
  · exact absurd hcont (by decide)
  · exact absurd hsent (by decide)
  · cases hmem

end Merge

end Ossa.EcgSync
