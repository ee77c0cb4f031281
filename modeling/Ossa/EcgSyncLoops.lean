import Ossa.EcgSyncSpec

/-!
The two loops that prepare a response.

`prepare_operations` takes headers from the send queue and replaces each by its children;
`prepare_sent_haves` takes headers from the haves queue and replaces each unknown one by its
parents. Each loop has a relation for one iteration, a description of the whole loop that the
iterations keep, and a proof that it returns.
-/

namespace Ossa.EcgSync

open Ossa.Loop Ossa.Collections Ossa.Ecg

variable {HeaderId Header : Type} [LinearOrder HeaderId] [ECGHeader Header HeaderId]
  {s : UntypedState HeaderId Header} {h : HeaderId} {n : ℕ} {r r' : ECGSyncResponder HeaderId}
  {operations : List (Header × RawECGBody)}

/-! ### Operations -/

/-- The ids of a list of operations. -/
def ids (operations : List (Header × RawECGBody)) : List HeaderId :=
  operations.map fun op => getHeaderId op.1

/-- A header whose descendants the send queue will reach. -/
def Live (s : UntypedState HeaderId Header) (r : ECGSyncResponder HeaderId) (h : HeaderId) : Prop :=
  ∃ z, Queued r z ∧ s.AncestorOrSelf z h

/-- One iteration of `prepare_operations` takes `h` from the send queue. -/
structure Takes (s : UntypedState HeaderId Header) (h : HeaderId)
    (w w' : ECGSyncResponder HeaderId × List (Header × RawECGBody)) : Prop where
  popped : ∃ d queue, w.1.sendQueue.pop = some (sendEntry d h, queue)
  queued : ∀ x, Queued w.1 x → x = h ∨ Queued w'.1 x
  children : ∀ c, s.Parent h c → Queued w'.1 c
  queuedOnly : ∀ d x, sendEntry d x ∈ w'.1.sendQueue → sendEntry d x ∈ w.1.sendQueue ∨
    s.getHeaderDepth x = some d
  smaller : Smaller (fun e : ℕᵒᵈ ×ₗ HeaderId => s.corank (ofLex e).2) w'.1.sendQueue.entries
    w.1.sendQueue.entries
  unknown : w'.1.ourUnknown = w.1.ourUnknown
  sentHaves : w'.1.sentHaves = w.1.sentHaves
  havesQueue : w'.1.havesQueue = w.1.havesQueue
  delivers : (w.1.theyKnow h = true ∧ w'.1.theirKnown = w.1.theirKnown ∧ w'.2 = w.2) ∨
    (w.1.theyKnow h = false ∧ w'.1.theirKnown = w.1.theirKnown.insert h ∧
      ∃ info, s.getNode h = some info ∧ w'.2 = w.2 ++ [(info.header, info.operations)])

omit [LinearOrder HeaderId] in
lemma sendEntry_eta (e : ℕᵒᵈ ×ₗ HeaderId) : ∃ d h, e = sendEntry d h :=
  ⟨OrderDual.ofDual (ofLex e).1, (ofLex e).2, rfl⟩

lemma takes_enqueue {d : ℕ} {queue : BinaryHeap (ℕᵒᵈ ×ₗ HeaderId)} {known : BTreeSet HeaderId}
    {operations' : List (Header × RawECGBody)} {cs : List (ℕ × HeaderId)} (hs : s.WellFormed)
    (hpop : r.sendQueue.pop = some (sendEntry d h, queue))
    (hcs : ∀ d c, (d, c) ∈ cs ↔ s.Parent h c ∧ s.getHeaderDepth c = some d)
    (hdel : (r.theyKnow h = true ∧ known = r.theirKnown ∧ operations' = operations) ∨
      (r.theyKnow h = false ∧ known = r.theirKnown.insert h ∧
        ∃ info, s.getNode h = some info ∧
          operations' = operations ++ [(info.header, info.operations)])) :
    Takes s h (r, operations)
      (({ r with sendQueue := queue, theirKnown := known } : ECGSyncResponder HeaderId).enqueue cs,
        operations') where
  popped := ⟨d, queue, hpop⟩
  queued := by
    rintro x ⟨d', hx⟩
    rcases (BinaryHeap.mem_of_pop hpop).mp hx with heq | hx
    · have := toLex_inj.mp heq
      simp only [Prod.mk.injEq] at this
      exact Or.inl this.2
    · exact Or.inr ⟨d', mem_enqueue.mpr (Or.inl hx)⟩
  children := by
    intro c hp
    obtain ⟨d', hd⟩ := UntypedState.contains_iff_depth.mp hp.contains
    exact ⟨d', mem_enqueue.mpr (Or.inr ((hcs d' c).mpr ⟨hp, hd⟩))⟩
  queuedOnly := by
    intro d' x hx
    rcases mem_enqueue.mp hx with hx | hx
    · exact Or.inl ((BinaryHeap.mem_of_pop hpop).mpr (Or.inr hx))
    · exact Or.inr ((hcs d' x).mp hx).2
  smaller := by
    rw [BinaryHeap.entries_of_pop hpop]
    simp only [ECGSyncResponder.enqueue, BinaryHeap.entries_extend]
    refine smaller_replace _ _ fun b hb => ?_
    obtain ⟨⟨d', c⟩, hc, rfl⟩ := List.mem_map.mp (Multiset.mem_coe.mp hb)
    exact hs.corank_lt_corank ((hcs d' c).mp hc).1
  unknown := rfl
  sentHaves := rfl
  havesQueue := rfl
  delivers := hdel

open ECGSyncResponder in
/-- **What one iteration of `prepare_operations` does.** -/
theorem operationsBody_cases (hs : s.WellFormed)
    {f : Flow (ECGSyncResponder HeaderId × List (Header × RawECGBody))
      (ECGSyncResponder HeaderId × List (Header × RawECGBody))}
    (hb : operationsBody n s (r, operations) = .ok f) :
    (r.sendQueue.pop = none ∧ f = .done (r, operations)) ∨
      ∃ h w', Takes s h (r, operations) w' ∧
        f = if w'.2.length = maxDeliverHeaders then .done w' else .next w' := by
  unfold operationsBody at hb
  cases hpop : r.sendQueue.pop with
  | none => simp only [hpop] at hb; cases hb; exact Or.inl ⟨rfl, rfl⟩
  | some top =>
    obtain ⟨e, queue⟩ := top
    obtain ⟨d, h, rfl⟩ := sendEntry_eta e
    right
    simp only [hpop] at hb
    obtain ⟨⟨r₁, operations'⟩, h₁, hb⟩ := bind_eq_ok.mp hb
    obtain ⟨r₂, h₂, hb⟩ := bind_eq_ok.mp hb
    cases hb
    obtain ⟨hc, cs, rfl, hcs⟩ := enqueueChildren_spec hs h₂
    change (if r.theyKnow h = true then _ else _) = _ at h₁
    split_ifs at h₁ with hk
    · cases h₁
      exact ⟨h, _, takes_enqueue hs hpop hcs (Or.inl ⟨hk, rfl, rfl⟩), rfl⟩
    · obtain ⟨info, hinfo, h₁⟩ := bind_eq_ok.mp h₁
      obtain ⟨r₃, h₃, h₁⟩ := bind_eq_ok.mp h₁
      cases h₁
      rw [orFault_eq_ok] at hinfo
      obtain ⟨k, hmark, rfl⟩ := markAsKnown_eq h₃
      have hnot : h ∉ r.theirKnown := fun hm => hk (theyKnow_iff.mpr (Or.inl hm))
      have hk' : r.theyKnow h = false := by simpa using hk
      have := mark_of_not_mem hnot hmark
      exact ⟨h, _, takes_enqueue hs hpop hcs (Or.inr ⟨hk', this, info, hinfo, rfl⟩), rfl⟩

lemma Takes.live {w w' : ECGSyncResponder HeaderId × List (Header × RawECGBody)}
    (ht : Takes s h w w') {y : HeaderId} (hy : Live s w.1 y) : w'.1.theyKnow y ∨ Live s w'.1 y := by
  obtain ⟨z, hz, ha⟩ := hy
  rcases ht.queued z hz with rfl | hz
  · rcases ha.cases_head with rfl | ⟨c, hp, ha⟩
    · left
      rw [theyKnow_iff, ht.unknown]
      rcases ht.delivers with ⟨hk, hsame, -⟩ | ⟨-, hins, -⟩
      · rw [hsame]; exact theyKnow_iff.mp hk
      · rw [hins]; exact Or.inl (mem_insert.mpr (Or.inl rfl))
    · exact Or.inr ⟨c, ht.children c hp, ha⟩
  · exact Or.inr ⟨z, hz, ha⟩

lemma Takes.known {w w' : ECGSyncResponder HeaderId × List (Header × RawECGBody)}
    (ht : Takes s h w w') {y : HeaderId} (hy : y ∈ w.1.theirKnown) : y ∈ w'.1.theirKnown := by
  rcases ht.delivers with ⟨-, hsame, -⟩ | ⟨-, hins, -⟩
  · rwa [hsame]
  · rw [hins]; exact mem_insert.mpr (Or.inr hy)

/-- What `prepare_operations` has done so far, from `r`. -/
structure Delivers (s : UntypedState HeaderId Header) (r : ECGSyncResponder HeaderId)
    (w : ECGSyncResponder HeaderId × List (Header × RawECGBody)) : Prop where
  known : ∀ h, h ∈ w.1.theirKnown ↔ h ∈ r.theirKnown ∨ h ∈ ids w.2
  unknown : w.1.ourUnknown = r.ourUnknown
  sentHaves : w.1.sentHaves = r.sentHaves
  havesQueue : w.1.havesQueue = r.havesQueue
  fresh : ∀ h ∈ ids w.2, r.theyKnow h = false
  nodup : (ids w.2).Nodup
  nodes : ∀ op ∈ w.2, ∃ info, s.getNode (getHeaderId op.1) = some info ∧
    info.header = op.1 ∧ info.operations = op.2
  length : w.2.length ≤ maxDeliverHeaders
  sendOnly : ∀ d h, sendEntry d h ∈ w.1.sendQueue → sendEntry d h ∈ r.sendQueue ∨
    s.getHeaderDepth h = some d
  live : ∀ y, Live s r y → w.1.theyKnow y ∨ Live s w.1 y
  children : ∀ h ∈ ids w.2, ∀ c, s.Parent h c → w.1.theyKnow c ∨ Live s w.1 c

lemma Delivers.init (s : UntypedState HeaderId Header) (r : ECGSyncResponder HeaderId) :
    Delivers s r (r, []) where
  known h := by simp [ids]
  unknown := rfl
  sentHaves := rfl
  havesQueue := rfl
  fresh := by simp [ids]
  nodup := by simp [ids]
  nodes := by simp
  length := by simp
  sendOnly _ _ h := Or.inl h
  live _ h := Or.inr h
  children := by simp [ids]

lemma Delivers.step (hs : s.WellFormed)
    {w w' : ECGSyncResponder HeaderId × List (Header × RawECGBody)} (hd : Delivers s r w)
    (hlt : w.2.length < maxDeliverHeaders) (ht : Takes s h w w') : Delivers s r w' := by
  have hkeep : ∀ y, w.1.theyKnow y ∨ Live s w.1 y → w'.1.theyKnow y ∨ Live s w'.1 y := by
    rintro y (hk | hy)
    · rw [theyKnow_iff] at hk
      refine Or.inl (theyKnow_iff.mpr (hk.imp ht.known fun hu => ?_))
      rwa [ht.unknown]
    · exact ht.live hy
  have hlive : ∀ y, Live s r y → w'.1.theyKnow y ∨ Live s w'.1 y := fun y hy =>
    hkeep y (hd.live y hy)
  have hsend : ∀ d x, sendEntry d x ∈ w'.1.sendQueue → sendEntry d x ∈ r.sendQueue ∨
      s.getHeaderDepth x = some d := fun d x hx =>
    (ht.queuedOnly d x hx).elim (hd.sendOnly d x) Or.inr
  rcases ht.delivers with ⟨-, hsame, hops⟩ | ⟨hk, hins, info, hinfo, hops⟩
  · exact ⟨by rw [hsame, hops]; exact hd.known, ht.unknown.trans hd.unknown,
      ht.sentHaves.trans hd.sentHaves, ht.havesQueue.trans hd.havesQueue, by rw [hops]; exact hd.fresh,
      by rw [hops]; exact hd.nodup, by rw [hops]; exact hd.nodes, by rw [hops]; exact hd.length,
      hsend, hlive, fun x hx c hp => hkeep c (hd.children x (hops ▸ hx) c hp)⟩
  · have hids : ids w'.2 = ids w.2 ++ [h] := by simp [ids, hops, hs.ids hinfo]
    have hnot : h ∉ w.1.theirKnown ∧ h ∉ w.1.ourUnknown := by
      rw [← not_or, ← theyKnow_iff, hk]
      exact Bool.false_ne_true
    refine ⟨fun x => ?_, ht.unknown.trans hd.unknown, ht.sentHaves.trans hd.sentHaves,
      ht.havesQueue.trans hd.havesQueue, fun x hx => ?_, ?_, fun op hop => ?_, ?_, hsend, hlive,
      fun x hx c hp => ?_⟩
    · rw [hins, mem_insert, hd.known, hids, List.mem_append, List.mem_singleton]
      tauto
    · rw [hids, List.mem_append, List.mem_singleton] at hx
      rcases hx with hx | rfl
      · exact hd.fresh x hx
      · have hnr : x ∉ r.theirKnown := fun hm => hnot.1 ((hd.known x).mpr (Or.inl hm))
        rw [Bool.eq_false_iff, ne_eq, theyKnow_iff, ← hd.unknown]
        exact not_or.mpr ⟨hnr, hnot.2⟩
    · rw [hids, List.nodup_append]
      refine ⟨hd.nodup, List.nodup_singleton h, fun a ha b hb hab => ?_⟩
      obtain rfl := List.mem_singleton.mp hb
      exact hnot.1 ((hd.known _).mpr (Or.inr (hab ▸ ha)))
    · rw [hops, List.mem_append, List.mem_singleton] at hop
      rcases hop with hop | rfl
      · exact hd.nodes op hop
      · exact ⟨info, by rw [hs.ids hinfo]; exact hinfo, rfl, rfl⟩
    · rw [hops, List.length_append, List.length_singleton]
      exact hlt
    · rw [hids, List.mem_append, List.mem_singleton] at hx
      rcases hx with hx | rfl
      · exact hkeep c (hd.children x hx c hp)
      · exact Or.inr ⟨c, ht.children c hp, .refl⟩

open ECGSyncResponder in
/-- **What `prepare_operations` does.** -/
theorem prepareOperations_spec (hs : s.WellFormed)
    (h' : r.prepareOperations n s = .ok (r', operations)) :
    Delivers s r (r', operations) ∧
      (operations.length < maxDeliverHeaders → ∀ h, ¬ Queued r' h) := by
  have hpos : 0 < maxDeliverHeaders := by decide
  have hstep : ∀ w w', Delivers s r w ∧ w.2.length < maxDeliverHeaders →
      operationsBody n s w = .ok (.next w') → Delivers s r w' ∧ w'.2.length < maxDeliverHeaders := by
    rintro ⟨u, ops⟩ w' ⟨hd, hlt⟩ hnext
    rcases operationsBody_cases hs hnext with ⟨-, heq⟩ | ⟨h, w', ht, heq⟩
    · cases heq
    · split_ifs at heq with hlen
      cases heq
      have hd' := hd.step hs hlt ht
      exact ⟨hd', Nat.lt_of_le_of_ne hd'.length hlen⟩
  obtain ⟨⟨u, ops⟩, -, ⟨hd, hlt⟩, hdone⟩ := loop_invariant h' ⟨.init s r, hpos⟩ hstep
  rcases operationsBody_cases hs hdone with ⟨hpop, heq⟩ | ⟨h, w', ht, heq⟩
  · cases heq
    refine ⟨hd, fun _ h hq => ?_⟩
    obtain ⟨d, hq⟩ := hq
    exact BinaryHeap.pop_eq_none hpop _ hq
  · split_ifs at heq with hlen
    cases heq
    exact ⟨hd.step hs hlt ht, fun hlt' => absurd hlen (Nat.ne_of_lt hlt')⟩

section Steady

omit [ECGHeader Header HeaderId]

variable (s : UntypedState HeaderId Header) (r : ECGSyncResponder HeaderId)

lemma steady_deliver (operations : List (Header × RawECGBody)) (h : HeaderId) :
    Steady fun n => r.deliver n s operations h :=
  .ite (steady_const _) ((steady_const _).bind fun _ => (steady_markAsKnown s r h).bind fun _ =>
    steady_const _)

lemma steady_operationsBody (w : ECGSyncResponder HeaderId × List (Header × RawECGBody)) :
    Steady fun n => ECGSyncResponder.operationsBody n s w := by
  unfold ECGSyncResponder.operationsBody
  cases hpop : w.1.sendQueue.pop with
  | none => simpa only [hpop] using steady_const _
  | some top =>
    simp only [hpop]
    exact (steady_deliver s _ w.2 _).bind fun _ => (steady_const _).bind fun _ => steady_const _

lemma steady_prepareOperations : Steady fun n => r.prepareOperations n s :=
  Steady.loop (steady_operationsBody s) (r, [])

end Steady

lemma returns_deliver (hs : s.WellFormed) (operations : List (Header × RawECGBody))
    (hc : s.contains h) : ∃ w, Returns (fun n => r.deliver n s operations h) w := by
  unfold ECGSyncResponder.deliver
  by_cases hk : r.theyKnow h
  · exact ⟨_, by simpa [hk] using returns_ok (r, operations)⟩
  · obtain ⟨info, hinfo⟩ := UntypedState.contains_iff_getNode.mp hc
    obtain ⟨r₁, h₁⟩ := returns_markAsKnown (r := r) hs hc
    have := h₁.bind (g := fun r₁ _ => .ok (r₁, operations ++ [(info.header, info.operations)]))
      (steady_markAsKnown s r h) (steady_const _) (returns_ok _)
    exact ⟨_, by simpa [hk, hinfo] using this⟩

lemma returns_operationsBody (hs : s.WellFormed)
    (w : ECGSyncResponder HeaderId × List (Header × RawECGBody))
    (hq : ∀ x, Queued w.1 x → s.contains x) :
    ∃ f, Returns (fun n => ECGSyncResponder.operationsBody n s w) f := by
  obtain ⟨r, operations⟩ := w
  unfold ECGSyncResponder.operationsBody
  cases hpop : r.sendQueue.pop with
  | none => exact ⟨_, by simpa only [hpop] using returns_ok _⟩
  | some top =>
    obtain ⟨e, queue⟩ := top
    obtain ⟨d, h, rfl⟩ := sendEntry_eta e
    have hc : s.contains h := hq h ⟨d, (BinaryHeap.mem_of_pop hpop).mpr (Or.inl rfl)⟩
    obtain ⟨⟨r₁, operations'⟩, h₁⟩ := returns_deliver
      (r := { r with sendQueue := queue }) hs operations hc
    obtain ⟨r₂, h₂⟩ := returns_enqueueChildren (r := r₁) hs
      "Unreachable since we proposed this header." hc
    simp only [hpop]
    exact ⟨_, h₁.bind (steady_deliver s _ _ _) ((steady_const _).bind fun _ => steady_const _)
      (h₂.bind (steady_const _) (steady_const _) (returns_ok _))⟩

theorem returns_prepareOperations (hs : s.WellFormed) (hq : ∀ x, Queued r x → s.contains x) :
    ∃ w, Returns (fun n => r.prepareOperations n s) w := by
  refine returns_loop (steady_operationsBody s) (I := fun w => ∀ x, Queued w.1 x → s.contains x)
    (InvImage.wf (fun w : ECGSyncResponder HeaderId × List (Header × RawECGBody) =>
      w.1.sendQueue.entries) (smaller_wf fun e : ℕᵒᵈ ×ₗ HeaderId => s.corank (ofLex e).2)) hq ?_
  rintro ⟨u, operations⟩ hu
  obtain ⟨f, m, hf⟩ := returns_operationsBody hs (u, operations) hu
  rcases operationsBody_cases hs hf with ⟨-, rfl⟩ | ⟨h, w', ht, rfl⟩
  · exact Or.inl ⟨_, m, hf⟩
  · by_cases hlen : w'.2.length = maxDeliverHeaders
    · rw [if_pos hlen] at hf
      exact Or.inl ⟨_, m, hf⟩
    · rw [if_neg hlen] at hf
      refine Or.inr ⟨w', ⟨m, hf⟩, fun x ⟨d, hx⟩ => ?_, ht.smaller⟩
      rcases ht.queuedOnly d x hx with hx | hx
      · exact hu x ⟨d, hx⟩
      · exact UntypedState.contains_iff_depth.mpr ⟨d, hx⟩

/-! ### Proposed headers -/

/-- A header waits in the haves queue. -/
def Pending (r : ECGSyncResponder HeaderId) (h : HeaderId) : Prop :=
  ∃ b d k, haveEntry b d h k ∈ r.havesQueue

/-- The header of an entry of the haves queue. -/
def haveHeader (e : Bool ×ₗ ℕ ×ₗ HeaderId ×ₗ ℕ) : HeaderId :=
  (ofLex (ofLex (ofLex e).2).2).1

omit [LinearOrder HeaderId] in
lemma haveEntry_eta (e : Bool ×ₗ ℕ ×ₗ HeaderId ×ₗ ℕ) : ∃ b d h k, e = haveEntry b d h k :=
  ⟨(ofLex e).1, (ofLex (ofLex e).2).1, haveHeader e, (ofLex (ofLex (ofLex e).2).2).2, rfl⟩

omit [LinearOrder HeaderId] in
lemma haveEntry_inj {b b' : Bool} {d d' k k' : ℕ} {h h' : HeaderId} :
    haveEntry b d h k = haveEntry b' d' h' k' ↔ b = b' ∧ d = d' ∧ h = h' ∧ k = k' := by
  simp [haveEntry]

/-- The path from `h` up to its ancestor `a` goes through headers they do not know. -/
def UnknownPath (s : UntypedState HeaderId Header) (r : ECGSyncResponder HeaderId)
    (a h : HeaderId) : Prop :=
  r.theyKnow h = false ∧
    Relation.ReflTransGen (fun p c => s.Parent p c ∧ r.theyKnow p = false) a h

/-- One iteration of `prepare_sent_haves` takes an entry from the haves queue. -/
structure Visit (s : UntypedState HeaderId Header) (b : Bool) (d : ℕ) (h : HeaderId) (k : ℕ)
    (r r' : ECGSyncResponder HeaderId) : Prop where
  popped : ∃ queue, r.havesQueue.pop = some (haveEntry b d h k, queue)
  queued : ∀ e ∈ r.havesQueue, e = haveEntry b d h k ∨ e ∈ r'.havesQueue
  queuedOnly : ∀ b' d' x k', haveEntry b' d' x k' ∈ r'.havesQueue →
    haveEntry b' d' x k' ∈ r.havesQueue ∨ s.getHeaderDepth x = some d'
  queuedParent : ∀ b' d' x k', haveEntry b' d' x k' ∈ r'.havesQueue →
    haveEntry b' d' x k' ∈ r.havesQueue ∨ r.theyKnow h = false ∧ s.Parent x h
  smaller : Smaller (fun e => s.rank (haveHeader e)) r'.havesQueue.entries r.havesQueue.entries
  theirKnown : r'.theirKnown = r.theirKnown
  ourUnknown : r'.ourUnknown = r.ourUnknown
  sendQueue : r'.sendQueue = r.sendQueue
  proposes : (r.theyKnow h = true ∧ r'.sentHaves = r.sentHaves) ∨
    (r.theyKnow h = false ∧ s.contains h ∧ (∀ p, s.Parent p h → Pending r' p) ∧
      r'.sentHaves = if isPowerOfTwo k || d = 1 then r.sentHaves ++ [h] else r.sentHaves)

open ECGSyncResponder in
/-- **What one iteration of `prepare_sent_haves` does.** -/
theorem havesBody_cases (hs : s.WellFormed)
    {f : Flow (ECGSyncResponder HeaderId) (ECGSyncResponder HeaderId)}
    (hb : havesBody s r = .ok f) :
    (r.havesQueue.pop = none ∧ f = .done r) ∨
      ∃ b d h k r', Visit s b d h k r r' ∧
        f = if r'.sentHaves.length = maxHaveHeaders then .done r' else .next r' := by
  unfold havesBody at hb
  cases hpop : r.havesQueue.pop with
  | none => simp only [hpop] at hb; cases hb; exact Or.inl ⟨rfl, rfl⟩
  | some top =>
    obtain ⟨e, queue⟩ := top
    obtain ⟨b, d, h, k, rfl⟩ := haveEntry_eta e
    right
    simp only [hpop] at hb
    obtain ⟨r₁, h₁, hb⟩ := bind_eq_ok.mp hb
    cases hb
    refine ⟨b, d, h, k, r₁, ?_, rfl⟩
    have hpopped : ∀ e ∈ r.havesQueue, e = haveEntry b d h k ∨ e ∈ queue := fun e he =>
      (BinaryHeap.mem_of_pop hpop).mp he
    change (if r.theyKnow h = true then _ else _) = _ at h₁
    by_cases hk : r.theyKnow h = true
    · rw [if_pos hk] at h₁
      cases h₁
      refine ⟨⟨queue, hpop⟩, hpopped, fun b' d' x k' hx => ?_, fun b' d' x k' hx => ?_, ?_, rfl, rfl,
        rfl, Or.inl ⟨hk, rfl⟩⟩
      · exact Or.inl ((BinaryHeap.mem_of_pop hpop).mpr (Or.inr hx))
      · exact Or.inl ((BinaryHeap.mem_of_pop hpop).mpr (Or.inr hx))
      · rw [BinaryHeap.entries_of_pop hpop]
        simpa using smaller_replace (fun e => s.rank (haveHeader e)) (a := haveEntry b d h k)
          (m := 0) queue.entries (by simp)
    · rw [if_neg hk] at h₁
      obtain ⟨ps, hps, h₁⟩ := bind_eq_ok.mp h₁
      cases h₁
      rw [orFault_eq_ok] at hps
      have hc := UntypedState.contains_of_getParentsWithDepth hps
      obtain ⟨ps', hps', hmem⟩ := hs.parentsWithDepth hc
      obtain rfl : ps = ps' := Option.some.inj (hps.symm.trans hps')
      have hadded : ∀ b' d' x k', haveEntry b' d' x k' ∈ queue.extend
          (ps.map fun p => haveEntry false p.1 p.2 (k + 1)) →
          haveEntry b' d' x k' ∈ r.havesQueue ∨ s.Parent x h ∧ s.getHeaderDepth x = some d' := by
        intro b' d' x k' hx
        rcases BinaryHeap.mem_extend.mp hx with hx | hx
        · exact Or.inl ((BinaryHeap.mem_of_pop hpop).mpr (Or.inr hx))
        · obtain ⟨⟨d'', p⟩, hp, heq⟩ := List.mem_map.mp hx
          obtain ⟨-, rfl, rfl, -⟩ := haveEntry_inj.mp heq
          exact Or.inr ((hmem d'' p).mp hp)
      refine ⟨⟨queue, hpop⟩, fun e he => (hpopped e he).imp_right fun he => ?_,
        fun b' d' x k' hx => (hadded b' d' x k' hx).imp_right And.right,
        fun b' d' x k' hx => (hadded b' d' x k' hx).imp_right fun hp => ⟨by simpa using hk, hp.1⟩,
        ?_, rfl, rfl, rfl,
        Or.inr ⟨by simpa using hk, hc, fun p hp => ?_, rfl⟩⟩
      · exact BinaryHeap.mem_extend.mpr (Or.inl he)
      · rw [BinaryHeap.entries_of_pop hpop]
        simp only [BinaryHeap.entries_extend]
        refine smaller_replace _ _ fun e he => ?_
        obtain ⟨⟨d'', p⟩, hp, rfl⟩ := List.mem_map.mp (Multiset.mem_coe.mp he)
        exact hs.rank_lt_rank ((hmem d'' p).mp hp).1
      · obtain ⟨d'', hd⟩ := UntypedState.contains_iff_depth.mp (hs.closed hp)
        refine ⟨false, d'', k + 1, BinaryHeap.mem_extend.mpr (Or.inr ?_)⟩
        exact List.mem_map.mpr ⟨(d'', p), (hmem d'' p).mpr ⟨hp, hd⟩, rfl⟩

/-- What `prepare_sent_haves` has done so far, from `r`. -/
structure Walks (s : UntypedState HeaderId Header) (r r' : ECGSyncResponder HeaderId) : Prop where
  theirKnown : r'.theirKnown = r.theirKnown
  ourUnknown : r'.ourUnknown = r.ourUnknown
  sendQueue : r'.sendQueue = r.sendQueue
  sent : ∀ h ∈ r'.sentHaves, s.contains h ∧ r.theyKnow h = false
  length : r'.sentHaves.length ≤ maxHaveHeaders
  haves : ∀ b d h k, haveEntry b d h k ∈ r'.havesQueue → s.getHeaderDepth h = some d
  tips : ∀ b d h, haveEntry b d h 0 ∈ r.havesQueue → r.theyKnow h = false →
    haveEntry b d h 0 ∈ r'.havesQueue ∨ h ∈ r'.sentHaves
  roots : ∀ h a, Pending r h → UnknownPath s r a h →
    (∃ x, Pending r' x ∧ UnknownPath s r a x) ∨
      (s.getHeaderDepth a = some 1 → a ∈ r'.sentHaves)
  reached : ∀ a, Pending r' a ∨ a ∈ r'.sentHaves → r.theyKnow a = false →
    ∃ h, Pending r h ∧ UnknownPath s r a h

lemma Walks.init (hhaves : ∀ b d h k, haveEntry b d h k ∈ r.havesQueue →
    s.getHeaderDepth h = some d) : Walks s r { r with sentHaves := [] } where
  theirKnown := rfl
  ourUnknown := rfl
  sendQueue := rfl
  sent := by simp
  length := by simp
  haves := hhaves
  tips _ _ _ h _ := Or.inl h
  roots h _ hp ha := Or.inl ⟨h, hp, ha⟩
  reached a ha hk := ⟨a, ha.resolve_right List.not_mem_nil, hk, .refl⟩

lemma Walks.theyKnow (hw : Walks s r r') (h : HeaderId) : r'.theyKnow h = r.theyKnow h := by
  simp only [ECGSyncResponder.theyKnow, hw.theirKnown, hw.ourUnknown]

lemma Visit.sentHaves {b : Bool} {d k : ℕ} {r'' : ECGSyncResponder HeaderId}
    (hv : Visit s b d h k r' r'') {x : HeaderId} (hx : x ∈ r'.sentHaves) : x ∈ r''.sentHaves := by
  rcases hv.proposes with ⟨-, heq⟩ | ⟨-, -, -, heq⟩
  · rwa [heq]
  · rw [heq]
    split_ifs
    · exact List.mem_append_left _ hx
    · exact hx

lemma Walks.step {b : Bool} {d k : ℕ} {r'' : ECGSyncResponder HeaderId} (hw : Walks s r r')
    (hlt : r'.sentHaves.length < maxHaveHeaders) (hv : Visit s b d h k r' r'') : Walks s r r'' := by
  have hdepth : s.getHeaderDepth h = some d := by
    obtain ⟨queue, hpop⟩ := hv.popped
    exact hw.haves b d h k ((BinaryHeap.mem_of_pop hpop).mpr (Or.inl rfl))
  have hpend : Pending r' h := by
    obtain ⟨queue, hpop⟩ := hv.popped
    exact ⟨b, d, k, (BinaryHeap.mem_of_pop hpop).mpr (Or.inl rfl)⟩
  refine ⟨hv.theirKnown.trans hw.theirKnown, hv.ourUnknown.trans hw.ourUnknown,
    hv.sendQueue.trans hw.sendQueue, ?_, ?_, fun b' d' x k' hx =>
      (hv.queuedOnly b' d' x k' hx).elim (hw.haves b' d' x k') id, ?_, ?_, ?_⟩
  · rcases hv.proposes with ⟨-, heq⟩ | ⟨hk, hc, -, heq⟩
    · rw [heq]; exact hw.sent
    · rw [heq]
      split_ifs
      · intro x hx
        rcases List.mem_append.mp hx with hx | hx
        · exact hw.sent x hx
        · obtain rfl := List.mem_singleton.mp hx
          exact ⟨hc, by rwa [← hw.theyKnow]⟩
      · exact hw.sent
  · rcases hv.proposes with ⟨-, heq⟩ | ⟨-, -, -, heq⟩
    · rw [heq]; exact hw.length
    · rw [heq]
      split_ifs
      · rw [List.length_append, List.length_singleton]
        exact hlt
      · exact hw.length
  · intro b' d' x hx hk
    rcases hw.tips b' d' x hx hk with hx | hx
    · rcases hv.queued _ hx with heq | hx
      · -- A tip that is taken is proposed: its distance is 0.
        obtain ⟨-, -, rfl, rfl⟩ := haveEntry_inj.mp heq
        rcases hv.proposes with ⟨hk', -⟩ | ⟨-, -, -, heq⟩
        · rw [hw.theyKnow, hk] at hk'; cases hk'
        · exact Or.inr (by rw [heq]; simp [isPowerOfTwo])
      · exact Or.inl hx
    · exact Or.inr (hv.sentHaves hx)
  · intro x a hx ha
    rcases hw.roots x a hx ha with ⟨y, ⟨b', d', k', hy⟩, ha⟩ | ha
    · rcases hv.queued _ hy with heq | hy
      · obtain ⟨-, -, rfl, -⟩ := haveEntry_inj.mp heq
        rcases hv.proposes with ⟨hk', -⟩ | ⟨-, -, hparents, heq⟩
        · rw [hw.theyKnow, ha.1] at hk'; cases hk'
        · rcases ha.2.cases_tail with rfl | ⟨p, hap, hp, hkp⟩
          · refine Or.inr fun hd => ?_
            obtain rfl : d = 1 := Option.some.inj (hdepth.symm.trans hd)
            rw [heq]
            simp
          · exact Or.inl ⟨p, hparents p hp, hkp, hap⟩
      · exact Or.inl ⟨y, ⟨b', d', k', hy⟩, ha⟩
    · exact Or.inr fun hd => hv.sentHaves (ha hd)
  · rintro a (⟨b', d', k', ha⟩ | ha) hk
    · rcases hv.queuedParent b' d' a k' ha with ha | ⟨hkh, hp⟩
      · exact hw.reached a (Or.inl ⟨b', d', k', ha⟩) hk
      · -- A new entry is a parent of the header taken.
        rw [hw.theyKnow] at hkh
        obtain ⟨x, hx, hkx, hpath⟩ := hw.reached h (Or.inl hpend) hkh
        exact ⟨x, hx, hkx, .head ⟨hp, hk⟩ hpath⟩
    · rcases hv.proposes with ⟨-, heq⟩ | ⟨hkh, -, -, heq⟩
      · exact hw.reached a (Or.inr (heq ▸ ha)) hk
      · rw [heq] at ha
        split_ifs at ha
        · rcases List.mem_append.mp ha with ha | ha
          · exact hw.reached a (Or.inr ha) hk
          · obtain rfl := List.mem_singleton.mp ha
            exact hw.reached a (Or.inl hpend) hk
        · exact hw.reached a (Or.inr ha) hk

open ECGSyncResponder in
/-- **What `prepare_sent_haves` does.** -/
theorem prepareSentHaves_spec (hs : s.WellFormed) (hhaves : ∀ b d h k,
    haveEntry b d h k ∈ r.havesQueue → s.getHeaderDepth h = some d)
    (h' : r.prepareSentHaves n s = .ok r') :
    Walks s r r' ∧ (r'.sentHaves.length < maxHaveHeaders → ∀ e, e ∉ r'.havesQueue) := by
  have hpos : ([] : List HeaderId).length < maxHaveHeaders := by simp [maxHaveHeaders]
  have hstep : ∀ u v, Walks s r u ∧ u.sentHaves.length < maxHaveHeaders →
      havesBody s u = .ok (.next v) → Walks s r v ∧ v.sentHaves.length < maxHaveHeaders := by
    rintro u v ⟨hw, hlt⟩ hnext
    rcases havesBody_cases hs hnext with ⟨-, heq⟩ | ⟨b, d, h, k, u', hv, heq⟩
    · cases heq
    · split_ifs at heq with hlen
      cases heq
      have hw' := hw.step hlt hv
      exact ⟨hw', Nat.lt_of_le_of_ne hw'.length hlen⟩
  obtain ⟨u, -, ⟨hw, hlt⟩, hdone⟩ := loop_invariant h' ⟨.init hhaves, hpos⟩ hstep
  rcases havesBody_cases hs hdone with ⟨hpop, heq⟩ | ⟨b, d, h, k, u', hv, heq⟩
  · cases heq
    exact ⟨hw, fun _ => BinaryHeap.pop_eq_none hpop⟩
  · split_ifs at heq with hlen
    cases heq
    exact ⟨hw.step hlt hv, fun hlt' => absurd hlen (Nat.ne_of_lt hlt')⟩

omit [ECGHeader Header HeaderId] in
lemma steady_prepareSentHaves (s : UntypedState HeaderId Header)
    (r : ECGSyncResponder HeaderId) : Steady fun n => r.prepareSentHaves n s :=
  Steady.loop (b := fun _ => ECGSyncResponder.havesBody s) (fun _ => steady_const _) _

lemma returns_havesBody (hs : s.WellFormed) (hq : ∀ h, Pending r h → s.contains h) :
    ∃ f, ECGSyncResponder.havesBody s r = .ok f := by
  unfold ECGSyncResponder.havesBody
  cases hpop : r.havesQueue.pop with
  | none => exact ⟨_, rfl⟩
  | some top =>
    obtain ⟨e, queue⟩ := top
    obtain ⟨b, d, h, k, rfl⟩ := haveEntry_eta e
    have hc : s.contains h := hq h ⟨b, d, k, (BinaryHeap.mem_of_pop hpop).mpr (Or.inl rfl)⟩
    obtain ⟨ps, hps, -⟩ := hs.parentsWithDepth hc
    have hps' : s.getParentsWithDepth (ofLex (ofLex (ofLex (haveEntry b d h k)).2).2).1 = some ps :=
      hps
    by_cases hk : r.theyKnow h = true
    · have hk' : ECGSyncResponder.theyKnow { r with havesQueue := queue }
          (ofLex (ofLex (ofLex (haveEntry b d h k)).2).2).1 = true := hk
      simp only [ECGSyncResponder.propose, hk', if_true, ok_bind]
      exact ⟨_, rfl⟩
    · have hk' : ¬ ECGSyncResponder.theyKnow { r with havesQueue := queue }
          (ofLex (ofLex (ofLex (haveEntry b d h k)).2).2).1 = true := hk
      simp only [ECGSyncResponder.propose, hk', hps', orFault_some, ok_bind]
      exact ⟨_, rfl⟩

theorem returns_prepareSentHaves (hs : s.WellFormed) (hq : ∀ h, Pending r h → s.contains h) :
    ∃ r', Returns (fun n => r.prepareSentHaves n s) r' := by
  refine returns_loop (b := fun _ => ECGSyncResponder.havesBody s) (fun _ => steady_const _)
    (I := fun u => ∀ h, Pending u h → s.contains h)
    (InvImage.wf (fun u : ECGSyncResponder HeaderId => u.havesQueue.entries)
      (smaller_wf fun e => s.rank (haveHeader e))) hq ?_
  intro u hu
  obtain ⟨f, hf⟩ := returns_havesBody hs hu
  rcases havesBody_cases hs hf with ⟨-, rfl⟩ | ⟨b, d, h, k, u', hv, rfl⟩
  · exact Or.inl ⟨_, 0, hf⟩
  · by_cases hlen : u'.sentHaves.length = maxHaveHeaders
    · rw [if_pos hlen] at hf
      exact Or.inl ⟨_, 0, hf⟩
    · rw [if_neg hlen] at hf
      refine Or.inr ⟨u', ⟨0, hf⟩, fun x ⟨b', d', k', hx⟩ => ?_, hv.smaller⟩
      rcases hv.queuedOnly b' d' x k' hx with hx | hx
      · exact hu x ⟨b', d', k', hx⟩
      · exact UntypedState.contains_iff_depth.mpr ⟨d', hx⟩

/-! ### The whole response -/

/-- The responder's own tips, added to the haves queue. -/
structure Extends (s : UntypedState HeaderId Header) (r r' : ECGSyncResponder HeaderId) : Prop where
  theirKnown : r'.theirKnown = r.theirKnown
  ourUnknown : r'.ourUnknown = r.ourUnknown
  sendQueue : r'.sendQueue = r.sendQueue
  sentHaves : r'.sentHaves = r.sentHaves
  queued : ∀ e ∈ r.havesQueue, e ∈ r'.havesQueue
  queuedOnly : ∀ b d h k, haveEntry b d h k ∈ r'.havesQueue → haveEntry b d h k ∈ r.havesQueue ∨
    h ∈ s.tips ∧ s.getHeaderDepth h = some d

omit [ECGHeader Header HeaderId] in
lemma prepareOurTips_spec (h' : r.prepareOurTips s = .ok r') :
    Extends s r r' ∧ ∀ h ∈ s.tips, ∃ d, haveEntry true d h 0 ∈ r'.havesQueue := by
  obtain ⟨he, hall⟩ := foldlM_each (R := Extends s) (z := r)
    (P := fun h r' => ∃ d, haveEntry true d h 0 ∈ r'.havesQueue)
    (fun _ => ⟨rfl, rfl, rfl, rfl, fun _ h => h, fun _ _ _ _ h => Or.inl h⟩)
    (fun _ _ _ h₁ h₂ => ⟨h₂.theirKnown.trans h₁.theirKnown, h₂.ourUnknown.trans h₁.ourUnknown,
      h₂.sendQueue.trans h₁.sendQueue, h₂.sentHaves.trans h₁.sentHaves,
      fun e he => h₂.queued e (h₁.queued e he), fun b d h k hx =>
        (h₂.queuedOnly b d h k hx).elim (h₁.queuedOnly b d h k) Or.inr⟩)
    (fun _ _ _ he ⟨d, hd⟩ => ⟨d, he.queued _ hd⟩)
    ⟨rfl, rfl, rfl, rfl, fun _ h => h, fun _ _ _ _ h => Or.inl h⟩ h' fun u v x hx _ hv => by
      have hx : x ∈ s.tips := by simpa using hx
      obtain ⟨d, hd, hv⟩ := bind_eq_ok.mp hv
      cases hv
      rw [orFault_eq_ok] at hd
      refine ⟨⟨rfl, rfl, rfl, rfl, fun e he => BinaryHeap.mem_push.mpr (Or.inr he),
        fun b d' h k hh => ?_⟩, d, BinaryHeap.mem_push.mpr (Or.inl rfl)⟩
      rcases BinaryHeap.mem_push.mp hh with heq | hh
      · obtain ⟨-, rfl, rfl, -⟩ := haveEntry_inj.mp heq
        exact Or.inr ⟨hx, hd⟩
      · exact Or.inl hh
  exact ⟨he, fun h hh => hall h (by simpa using hh)⟩

lemma returns_prepareOurTips (hs : s.WellFormed) :
    ∃ r', Returns (fun _ => r.prepareOurTips s) r' := by
  have hstep : ∀ u : ECGSyncResponder HeaderId, ∀ x ∈ s.tips.toList, True →
      ∃ v, Returns (fun _ => u.prepareOurTip s x) v ∧ True := by
    intro u x hx _
    obtain ⟨d, hd⟩ := UntypedState.contains_iff_depth.mp (hs.tips.mp (by simpa using hx)).1
    exact ⟨_, ⟨0, by simp only [ECGSyncResponder.prepareOurTip, hd, orFault_some, ok_bind]; rfl⟩,
      trivial⟩
  obtain ⟨r', h', -⟩ := returns_foldlM (I := fun _ => True)
    (f := fun _ (u : ECGSyncResponder HeaderId) x => u.prepareOurTip s x)
    (fun _ _ => steady_const _) s.tips.toList (s := r) trivial hstep
  exact ⟨r', h'⟩

/-- What the responder has done when it has prepared a response. -/
structure Prepares (s : UntypedState HeaderId Header) (r r' : ECGSyncResponder HeaderId)
    (operations : List (Header × RawECGBody)) : Prop where
  inGraph : InGraph s r'
  known : ∀ h, h ∈ r'.theirKnown ↔ h ∈ r.theirKnown ∨ h ∈ ids operations
  unknown : r'.ourUnknown = r.ourUnknown
  fresh : ∀ h ∈ ids operations, r.theyKnow h = false
  nodup : (ids operations).Nodup
  nodes : ∀ op ∈ operations, ∃ info, s.getNode (getHeaderId op.1) = some info ∧
    info.header = op.1 ∧ info.operations = op.2
  sent : ∀ h ∈ r'.sentHaves, s.contains h ∧ r'.theyKnow h = false
  sentLength : r'.sentHaves.length ≤ maxHaveHeaders
  live : ∀ y, Live s r y → r'.theyKnow y ∨ Live s r' y
  drained : operations.length < maxDeliverHeaders → ∀ h, ¬ Queued r' h
  tips : r'.sentHaves.length < maxHaveHeaders → ∀ h ∈ s.tips, r'.theyKnow h ∨ h ∈ r'.sentHaves
  children : ∀ h ∈ ids operations, ∀ c, s.Parent h c → r'.theyKnow c ∨ Live s r' c
  emptied : r'.sentHaves.length < maxHaveHeaders → ∀ e, e ∉ r'.havesQueue
  roots : (∀ e, e ∉ r'.havesQueue) → ∀ t ∈ s.tips, ∀ a, UnknownPath s r' a t →
    s.getHeaderDepth a = some 1 → a ∈ r'.sentHaves
  reached : ∀ a, Pending r' a ∨ a ∈ r'.sentHaves → r'.theyKnow a = false →
    ∃ h, (h ∈ s.tips ∨ Pending r h) ∧ UnknownPath s r' a h

/-- **What preparing a response does.** -/
theorem prepareResponse_spec (hs : s.WellFormed) (hr : InGraph s r)
    (h' : r.prepareResponse n s = .ok (r', operations)) : Prepares s r r' operations := by
  obtain ⟨r₁, h₁, h'⟩ := bind_eq_ok.mp h'
  obtain ⟨⟨r₂, ops⟩, h₂, h'⟩ := bind_eq_ok.mp h'
  obtain ⟨r₃, h₃, h'⟩ := bind_eq_ok.mp h'
  cases h'
  obtain ⟨he, htips⟩ := prepareOurTips_spec h₁
  obtain ⟨hd, hdrained⟩ := prepareOperations_spec hs h₂
  have hhaves : ∀ b d h k, haveEntry b d h k ∈ r₂.havesQueue → s.getHeaderDepth h = some d := by
    rw [hd.havesQueue]
    exact fun b d h k hx => (he.queuedOnly b d h k hx).elim (hr.haves b d h k) And.right
  obtain ⟨hw, hempty⟩ := prepareSentHaves_spec hs hhaves h₃
  have hq₁ : ∀ h, Queued r₁ h ↔ Queued r h := fun h => by simp only [Queued, he.sendQueue]
  have hq₂ : ∀ h, Queued r' h ↔ Queued r₂ h := fun h => by simp only [Queued, hw.sendQueue]
  have hk₁ : ∀ h, r₁.theyKnow h = r.theyKnow h := fun h => by
    simp only [ECGSyncResponder.theyKnow, he.theirKnown, he.ourUnknown]
  have hknown : ∀ h, h ∈ r'.theirKnown ↔ h ∈ r.theirKnown ∨ h ∈ ids operations := fun h => by
    rw [hw.theirKnown, hd.known, he.theirKnown]
  refine ⟨⟨fun h hh => ?_, fun d h hh => ?_, fun h hh => (hw.sent h hh).1, hw.haves⟩, hknown,
    hw.ourUnknown.trans (hd.unknown.trans he.ourUnknown), fun h hh => ?_, hd.nodup, hd.nodes,
    fun h hh => ?_, hw.length, fun y hy => ?_, fun hlt h => ?_, fun hlt h hh => ?_,
    fun h hh c hp => ?_, hempty, fun hall t ht a ha hroot => ?_, fun a ha hk => ?_⟩
  · rcases (hknown h).mp hh with hh | hh
    · exact hr.known h hh
    · obtain ⟨op, hop, rfl⟩ := List.mem_map.mp hh
      obtain ⟨info, hinfo, -⟩ := hd.nodes op hop
      exact UntypedState.contains_iff_getNode.mpr ⟨info, hinfo⟩
  · rw [hw.sendQueue] at hh
    rcases hd.sendOnly d h hh with hh | hh
    · rw [he.sendQueue] at hh
      exact hr.send d h hh
    · exact hh
  · rw [← hk₁]; exact hd.fresh h hh
  · rw [hw.theyKnow]; exact hw.sent h hh
  · have hy' : Live s r₁ y := hy.imp fun z hz => ⟨(hq₁ z).mpr hz.1, hz.2⟩
    rw [hw.theyKnow]
    exact (hd.live y hy').imp_right (Exists.imp fun z => And.imp_left (hq₂ z).mpr)
  · rw [hq₂]; exact hdrained hlt h
  · obtain ⟨d, hd'⟩ := htips h hh
    rw [← hd.havesQueue] at hd'
    by_cases hk : r₂.theyKnow h
    · exact Or.inl (by rwa [hw.theyKnow])
    · rcases hw.tips true d h hd' (by simpa using hk) with hx | hx
      · exact absurd hx (hempty hlt _)
      · exact Or.inr hx
  · rw [hw.theyKnow]
    exact (hd.children h hh c hp).imp_right (Exists.imp fun z => And.imp_left (hq₂ z).mpr)
  · obtain ⟨d, hd'⟩ := htips t ht
    rw [← hd.havesQueue] at hd'
    have ha' : UnknownPath s r₂ a t := by
      simpa only [UnknownPath, hw.theyKnow] using ha
    rcases hw.roots t a ⟨true, d, 0, hd'⟩ ha' with ⟨x, ⟨b, d, k, hx⟩, -⟩ | hsent
    · exact absurd hx (hall _)
    · exact hsent hroot
  · rw [hw.theyKnow] at hk
    obtain ⟨h, ⟨b, d, k, hh⟩, hpath⟩ := hw.reached a ha hk
    rw [hd.havesQueue] at hh
    refine ⟨h, (he.queuedOnly b d h k hh).symm.imp And.left fun hh => ⟨b, d, k, hh⟩, ?_⟩
    simpa only [UnknownPath, hw.theyKnow] using hpath

omit [ECGHeader Header HeaderId] in
lemma steady_prepareResponse (s : UntypedState HeaderId Header)
    (r : ECGSyncResponder HeaderId) : Steady fun n => r.prepareResponse n s :=
  (steady_const _).bind fun r₁ => (steady_prepareOperations s r₁).bind fun w =>
    (steady_prepareSentHaves s w.1).bind fun _ => steady_const _

theorem returns_prepareResponse (hs : s.WellFormed) (hr : InGraph s r) :
    ∃ w, Returns (fun n => r.prepareResponse n s) w := by
  obtain ⟨r₁, h₁⟩ := returns_prepareOurTips (r := r) hs
  obtain ⟨he, -⟩ := prepareOurTips_spec h₁.choose_spec
  have hq : ∀ x, Queued r₁ x → s.contains x := fun x ⟨d, hx⟩ => by
    rw [he.sendQueue] at hx
    exact UntypedState.contains_iff_depth.mpr ⟨d, hr.send d x hx⟩
  obtain ⟨⟨r₂, ops⟩, h₂⟩ := returns_prepareOperations hs hq
  obtain ⟨hd, -⟩ := prepareOperations_spec hs h₂.choose_spec
  have hp : ∀ h, Pending r₂ h → s.contains h := fun h ⟨b, d, k, hx⟩ => by
    rw [hd.havesQueue] at hx
    exact UntypedState.contains_iff_depth.mpr
      ⟨d, (he.queuedOnly b d h k hx).elim (hr.haves b d h k) And.right⟩
  obtain ⟨r₃, h₃⟩ := returns_prepareSentHaves hs hp
  exact ⟨(r₃, ops), h₁.bind (steady_const _)
    ((steady_prepareOperations s r₁).bind fun w => (steady_prepareSentHaves s w.1).bind fun _ =>
      steady_const _)
    (h₂.bind (steady_prepareOperations s r₁)
      ((steady_prepareSentHaves s r₂).bind fun _ => steady_const _)
      (h₃.bind (steady_prepareSentHaves s r₂) (steady_const _) (returns_ok _)))⟩

end Ossa.EcgSync
