import Ossa.EcgMarking
import Ossa.EcgProposals
import Ossa.EcgQuiescence

/-!
The order in which headers are sent.

The send queue gives out headers of small depth first. The depth of a header is one more than
the smallest depth of its parents, and a header joins the queue as soon as one parent is sent or
known, so it can come out before another parent. It does not if, at the moment it joins, each
parent that is missing is on the way out of the queue before it.
-/

namespace Ossa.EcgSync

open Ossa.Loop Ossa.Collections Ossa.Ecg

variable {HeaderId Header : Type} [LinearOrder HeaderId]

/-- The entry of a header of the graph in the send queue. -/
def entryOf (s : UntypedState HeaderId Header) (h : HeaderId) : ℕᵒᵈ ×ₗ HeaderId :=
  sendEntry ((s.getHeaderDepth h).getD 0) h

variable [ECGHeader Header HeaderId]

/-- The queue gives out `p` before `c`: it holds a header that leads down to `p`, and all
headers on the way are given out before `c`. -/
def Due (s : UntypedState HeaderId Header) (r : ECGSyncResponder HeaderId) (c p : HeaderId) : Prop :=
  ∃ z, Queued r z ∧ entryOf s c < entryOf s z ∧
    Relation.ReflTransGen (fun a b => s.Parent a b ∧ entryOf s c < entryOf s b) z p

/-- If they do not know `c`, each parent of `c` is one they have, or was sent in this response,
or is due before `c`. -/
def DueInOrder (s : UntypedState HeaderId Header) (has : HeaderId → Prop)
    (w : ECGSyncResponder HeaderId × List (Header × RawECGBody)) (c : HeaderId) : Prop :=
  w.1.theyKnow c = false → ∀ p, s.Parent p c → has p ∨ p ∈ ids w.2 ∨ Due s w.1 c p

/-- Each header that joins the queue in an iteration of `prepare_operations` joins in order. -/
def JoinsInOrder (s : UntypedState HeaderId Header) (has : HeaderId → Prop)
    (r : ECGSyncResponder HeaderId) : Prop :=
  ∀ n w f, Visits (ECGSyncResponder.operationsBody n s) (r, []) w →
    ECGSyncResponder.operationsBody n s w = .ok f →
      ∀ c, Queued (flowState f).1 c → ¬ Queued w.1 c → DueInOrder s has (flowState f) c

variable {s i : UntypedState HeaderId Header} {has has' : HeaderId → Prop}
  {r r' : ECGSyncResponder HeaderId} {w w' : ECGSyncResponder HeaderId × List (Header × RawECGBody)}
  {operations : List (Header × RawECGBody)} {c h p : HeaderId} {n m : ℕ}

lemma CausalAfter.causal (hc : CausalAfter s has operations) (hi : ∀ p, has p → i.contains p) :
    Causal s i operations := fun before op after heq p hp =>
  (hc before op after heq p hp).imp_left (hi p)

/-! ### The queue -/

/-- The send queue has the depths of the graph. -/
def DepthsRight (s : UntypedState HeaderId Header) (r : ECGSyncResponder HeaderId) : Prop :=
  ∀ d h, sendEntry d h ∈ r.sendQueue → s.getHeaderDepth h = some d

omit [ECGHeader Header HeaderId] in
lemma entryOf_eq {d : ℕ} (hd : s.getHeaderDepth h = some d) : entryOf s h = sendEntry d h := by
  rw [entryOf, hd, Option.getD_some]

omit [ECGHeader Header HeaderId] in
lemma entryOf_inj (heq : entryOf s c = entryOf s h) : c = h := by
  have hpair := toLex_inj.mp heq
  simp only [Prod.mk.injEq] at hpair
  exact hpair.2

omit [ECGHeader Header HeaderId] in
lemma Queued.mem (hd : DepthsRight s r) (hq : Queued r h) : entryOf s h ∈ r.sendQueue := by
  obtain ⟨d, hh⟩ := hq
  rwa [entryOf_eq (hd d h hh)]

omit [ECGHeader Header HeaderId] in
lemma Queued.le (hd : DepthsRight s r) {d : ℕ} {queue : BinaryHeap (ℕᵒᵈ ×ₗ HeaderId)}
    (hpop : r.sendQueue.pop = some (sendEntry d h, queue)) (hq : Queued r c) :
    entryOf s c ≤ entryOf s h := by
  have hh : sendEntry d h ∈ r.sendQueue := (BinaryHeap.mem_of_pop hpop).mpr (Or.inl rfl)
  rw [entryOf_eq (hd d h hh)]
  exact BinaryHeap.le_of_pop hpop (hq.mem hd)

lemma not_due_of_pop (hd : DepthsRight s r) {d : ℕ} {queue : BinaryHeap (ℕᵒᵈ ×ₗ HeaderId)}
    (hpop : r.sendQueue.pop = some (sendEntry d h, queue)) : ¬ Due s r h p := by
  rintro ⟨z, hz, hlt, -⟩
  exact absurd (hz.le hd hpop) (not_le.mpr hlt)

lemma Due.mono (hq : ∀ z, Queued r z → Queued r' z) (hdue : Due s r c p) : Due s r' c p := by
  obtain ⟨z, hz, hlt, hpath⟩ := hdue
  exact ⟨z, hq z hz, hlt, hpath⟩

/-! ### Taking a header -/

/-- They have, or were sent, what they are believed to know. -/
def Accounted (has : HeaderId → Prop)
    (w : ECGSyncResponder HeaderId × List (Header × RawECGBody)) : Prop :=
  ∀ h, w.1.theyKnow h = true → has h ∨ h ∈ ids w.2

/-- A state of `prepare_operations` in which everything is in order. -/
structure Sending (s : UntypedState HeaderId Header) (has : HeaderId → Prop)
    (w : ECGSyncResponder HeaderId × List (Header × RawECGBody)) : Prop where
  depths : DepthsRight s w.1
  known : Accounted has w
  queue : ∀ c, Queued w.1 c → DueInOrder s has w c
  causal : CausalAfter s has w.2

lemma Takes.theyKnow (ht : Takes s h w w') (hk : w.1.theyKnow c = true) :
    w'.1.theyKnow c = true := by
  rw [theyKnow_iff] at hk ⊢
  rw [ht.unknown]
  exact hk.imp_left ht.known

lemma Takes.depths (ht : Takes s h w w') (hd : DepthsRight s w.1) : DepthsRight s w'.1 :=
  fun d x hx => (ht.queuedOnly d x hx).elim (hd d x) id

lemma Takes.ids_eq (hs : s.WellFormed) (ht : Takes s h w w') :
    ids w'.2 = ids w.2 ∨ ids w'.2 = ids w.2 ++ [h] := by
  rcases ht.delivers with ⟨-, -, hops⟩ | ⟨-, -, info, hinfo, hops⟩
  · exact Or.inl (by rw [hops])
  · exact Or.inr (by simp [ids, hops, hs.ids hinfo])

lemma Takes.mem_ids (hs : s.WellFormed) (ht : Takes s h w w') (hp : p ∈ ids w.2) :
    p ∈ ids w'.2 := by
  rcases ht.ids_eq hs with heq | heq <;> rw [heq]
  · exact hp
  · exact List.mem_append_left _ hp

lemma Accounted.taken (hs : s.WellFormed) (hw : Accounted has w) (ht : Takes s h w w') :
    has h ∨ h ∈ ids w'.2 := by
  rcases ht.delivers with ⟨hk, -, hops⟩ | ⟨-, -, info, hinfo, hops⟩
  · rw [hops]
    exact hw h hk
  · exact Or.inr (by simp [ids, hops, hs.ids hinfo])

lemma Accounted.take (hs : s.WellFormed) (hw : Accounted has w) (ht : Takes s h w w') :
    Accounted has w' := by
  intro x hx
  rcases ht.delivers with ⟨-, hsame, hops⟩ | ⟨-, hins, info, hinfo, hops⟩
  · rw [theyKnow_iff, hsame, ht.unknown, ← theyKnow_iff] at hx
    rw [hops]
    exact hw x hx
  · rw [theyKnow_iff, hins, ht.unknown, mem_insert] at hx
    rcases hx with (rfl | hx) | hx
    · exact hw.taken hs ht
    · exact (hw x (theyKnow_iff.mpr (Or.inl hx))).imp_right (ht.mem_ids hs)
    · exact (hw x (theyKnow_iff.mpr (Or.inr hx))).imp_right (ht.mem_ids hs)

open ECGSyncResponder in
lemma Accounted.visits (hs : s.WellFormed)
    (hr : Accounted has (r, ([] : List (Header × RawECGBody))))
    (hv : Visits (operationsBody n s) (r, []) w) : Accounted has w := by
  refine hv.invariant (I := Accounted has) hr fun u v hu hnext => ?_
  rcases operationsBody_cases hs hnext with ⟨-, heq⟩ | ⟨h, u', ht, heq⟩
  · cases heq
  · split_ifs at heq
    cases heq
    exact hu.take hs ht

/-- **What is due stays due** until it is sent: taking the head of the way down to it leaves
the rest of the way in the queue. -/
lemma Sending.due (hs : s.WellFormed) (hw : Sending s has w) (ht : Takes s h w w')
    (hdue : Due s w.1 c p) : has p ∨ p ∈ ids w'.2 ∨ Due s w'.1 c p := by
  obtain ⟨z, hz, hlt, hpath⟩ := hdue
  rcases ht.queued z hz with rfl | hz
  · rcases hpath.cases_head with rfl | ⟨b, ⟨hparent, hltb⟩, hrest⟩
    · exact (hw.known.taken hs ht).imp_right Or.inl
    · exact Or.inr (Or.inr ⟨b, ht.children b hparent, hltb, hrest⟩)
  · exact Or.inr (Or.inr ⟨z, hz, hlt, hpath⟩)

/-- **An iteration keeps the order**, if the headers that join the queue join in order. -/
lemma Sending.take (hs : s.WellFormed) (hw : Sending s has w) (ht : Takes s h w w')
    (hjoin : ∀ c, Queued w'.1 c → ¬ Queued w.1 c → DueInOrder s has w' c) :
    Sending s has w' where
  depths := ht.depths hw.depths
  known := hw.known.take hs ht
  queue c hc := by
    by_cases hq : Queued w.1 c
    · intro hk p hp
      have hk' : w.1.theyKnow c = false := by
        by_contra hne
        rw [ht.theyKnow (Bool.not_eq_false _ ▸ hne)] at hk
        cases hk
      rcases hw.queue c hq hk' p hp with hhas | hmem | hdue
      · exact Or.inl hhas
      · exact Or.inr (Or.inl (ht.mem_ids hs hmem))
      · exact hw.due hs ht hdue
    · exact hjoin c hc hq
  causal := by
    rcases ht.delivers with ⟨-, -, hops⟩ | ⟨hk, -, info, hinfo, hops⟩
    · rw [hops]
      exact hw.causal
    · obtain ⟨d, queue, hpop⟩ := ht.popped
      have hq : Queued w.1 h := ⟨d, (BinaryHeap.mem_of_pop hpop).mpr (Or.inl rfl)⟩
      rw [hops]
      refine hw.causal.concat fun p hp => ?_
      rw [hs.ids hinfo] at hp
      rcases hw.queue h hq hk p hp with hhas | hmem | hdue
      · exact Or.inl hhas
      · exact Or.inr hmem
      · exact absurd hdue (not_due_of_pop hw.depths hpop)

open ECGSyncResponder in
/-- So does the whole loop. -/
theorem sending_prepareOperations (hs : s.WellFormed) (hr : Sending s has (r, []))
    (hjoin : JoinsInOrder s has r) (h' : r.prepareOperations n s = .ok w) : Sending s has w := by
  have hstep : ∀ {u v f}, Visits (operationsBody n s) (r, []) u → Sending s has u →
      operationsBody n s u = .ok f → (f = .next v ∨ f = .done v) → Sending s has v := by
    intro u v f hv hu hb hf
    have hflow : flowState f = v := by rcases hf with rfl | rfl <;> rfl
    rcases operationsBody_cases hs hb with ⟨-, heq⟩ | ⟨h, u', ht, heq⟩
    · rcases hf with hf | hf <;> rw [heq] at hf <;> cases hf
      exact hu
    · have hu' : u' = v := by
        rw [heq] at hf
        split_ifs at hf <;> rcases hf with hf | hf <;> cases hf <;> rfl
      subst hu'
      exact hu.take hs ht fun c hc hn => hflow ▸ hjoin n u f hv hb c (hflow ▸ hc) hn
  have hall : ∀ u, Visits (operationsBody n s) (r, []) u → Sending s has u := by
    intro u hv
    induction hv with
    | refl => exact hr
    | next hv hb ih => exact hstep hv ih hb (Or.inl rfl)
  obtain ⟨u, hv, hb⟩ := loop_visits h'
  exact hstep hv (hall u hv) hb (Or.inr rfl)

/-! ### A header that joins too early -/

/-- The queued header `c` comes out before its parent `p`, which is missing. -/
structure Early (s : UntypedState HeaderId Header) (has : HeaderId → Prop) (c p : HeaderId)
    (w : ECGSyncResponder HeaderId × List (Header × RawECGBody)) : Prop where
  depths : DepthsRight s w.1
  queued : Queued w.1 c
  unknown : w.1.theyKnow c = false
  parent : s.Parent p c
  missing : ¬ has p
  unsent : p ∉ ids w.2
  notDue : ¬ Due s w.1 c p

omit [ECGHeader Header HeaderId] in
lemma sendQueue_deliver (h' : r.deliver n s operations h = .ok w) :
    w.1.sendQueue = r.sendQueue := by
  unfold ECGSyncResponder.deliver at h'
  by_cases hk : r.theyKnow h = true
  · simp only [hk, if_true] at h'
    cases h'
    rfl
  · simp only [hk, Bool.false_eq_true, if_false] at h'
    obtain ⟨node, -, h'⟩ := bind_eq_ok.mp h'
    obtain ⟨r₁, hr₁, heq⟩ := bind_eq_ok.mp h'
    cases heq
    obtain ⟨k, -, rfl⟩ := markAsKnown_eq hr₁
    rfl

open ECGSyncResponder in
lemma queued_of_operationsBody (hs : s.WellFormed) {d : ℕ} {queue : BinaryHeap (ℕᵒᵈ ×ₗ HeaderId)}
    {f : Flow (ECGSyncResponder HeaderId × List (Header × RawECGBody))
      (ECGSyncResponder HeaderId × List (Header × RawECGBody))}
    (hpop : w.1.sendQueue.pop = some (sendEntry d h, queue))
    (hb : operationsBody n s w = .ok f) (hq : Queued (flowState f).1 c) :
    Queued w.1 c ∨ s.Parent h c := by
  obtain ⟨r, operations⟩ := w
  unfold operationsBody at hb
  simp only at hpop
  simp only [hpop] at hb
  obtain ⟨⟨r₁, operations'⟩, h₁, hb⟩ := bind_eq_ok.mp hb
  obtain ⟨r₂, h₂, hb⟩ := bind_eq_ok.mp hb
  obtain ⟨-, cs, rfl, hcs⟩ := enqueueChildren_spec hs h₂
  have hflow : (flowState f).1 = r₁.enqueue cs := by
    cases hb
    split_ifs <;> rfl
  obtain ⟨d', hc⟩ := hq
  rw [hflow, mem_enqueue] at hc
  rcases hc with hc | hc
  · have hsame : r₁.sendQueue = queue := sendQueue_deliver h₁
    rw [hsame] at hc
    exact Or.inl ⟨d', (BinaryHeap.mem_of_pop hpop).mpr (Or.inr hc)⟩
  · exact Or.inr ((hcs d' c).mp hc).1

lemma Early.take (hs : s.WellFormed) (he : Early s has c p w) (ht : Takes s h w w') (hne : h ≠ c)
    (hnew : ∀ x, Queued w'.1 x → Queued w.1 x ∨ s.Parent h x) : Early s has c p w' := by
  obtain ⟨d, queue, hpop⟩ := ht.popped
  have hqh : Queued w.1 h := ⟨d, (BinaryHeap.mem_of_pop hpop).mpr (Or.inl rfl)⟩
  have hlt : entryOf s c < entryOf s h :=
    lt_of_le_of_ne (he.queued.le he.depths hpop) fun heq => hne (entryOf_inj heq).symm
  have hph : p ≠ h := by
    rintro rfl
    exact he.notDue ⟨p, hqh, hlt, .refl⟩
  refine ⟨ht.depths he.depths, (ht.queued c he.queued).resolve_left hne.symm, ?_, he.parent,
    he.missing, fun hmem => ?_, ?_⟩
  · have hunknown := he.unknown
    rw [Bool.eq_false_iff, ne_eq, theyKnow_iff, not_or] at hunknown ⊢
    rw [ht.unknown]
    refine ⟨fun hk => ?_, hunknown.2⟩
    rcases ht.delivers with ⟨-, hsame, -⟩ | ⟨-, hins, -⟩
    · exact hunknown.1 (hsame ▸ hk)
    · rw [hins, mem_insert] at hk
      exact hk.elim (fun heq => hne heq.symm) hunknown.1
  · rcases ht.ids_eq hs with heq | heq <;> rw [heq] at hmem
    · exact he.unsent hmem
    · rcases List.mem_append.mp hmem with hmem | hmem
      · exact he.unsent hmem
      · exact hph (List.mem_singleton.mp hmem)
  · rintro ⟨z, hz, hltz, hpath⟩
    rcases hnew z hz with hz | hparent
    · exact he.notDue ⟨z, hz, hltz, hpath⟩
    · exact he.notDue ⟨h, hqh, hlt, .head ⟨hparent, hltz⟩ hpath⟩

open ECGSyncResponder in
/-- **A header that joined too early is sent too early**, if the response is not cut. -/
lemma Early.not_causal (hs : s.WellFormed) (he : Early s has c p w)
    (h' : loop (operationsBody n s) m w = .ok (r', operations))
    (hlt : operations.length < maxDeliverHeaders) : ¬ CausalAfter s has operations := by
  induction m generalizing w with
  | zero => cases h'
  | succ m ih =>
    obtain ⟨l, hl, hd | ⟨u, hu, hrest⟩⟩ := loop_cases h'
    · rcases operationsBody_cases hs hd with ⟨hpop, -⟩ | ⟨h, w', -, heq⟩
      · obtain ⟨d, hq⟩ := he.queued
        exact absurd hq (BinaryHeap.pop_eq_none hpop _)
      · split_ifs at heq with hlen
        cases heq
        exact absurd hlen (Nat.ne_of_lt hlt)
    · obtain rfl : m = l := by omega
      rcases operationsBody_cases hs hu with ⟨-, heq⟩ | ⟨h, w', ht, heq⟩
      · cases heq
      · split_ifs at heq
        cases heq
        by_cases hne : h = c
        · -- `c` is sent now, and `p` is neither theirs nor sent before.
          subst hne
          rcases ht.delivers with ⟨hk, -⟩ | ⟨-, -, info, hinfo, hops⟩
          · rw [he.unknown] at hk
            cases hk
          · obtain ⟨after, rfl⟩ := prefix_of_loop hs hrest
            intro hc
            have hlist : u.2 ++ after = w.2 ++ (info.header, info.operations) :: after := by
              rw [hops, List.append_assoc, List.singleton_append]
            rcases hc w.2 _ after hlist p (by rw [hs.ids hinfo]; exact he.parent) with hp | hp
            · exact he.missing hp
            · exact he.unsent hp
        · obtain ⟨d, queue, hpop⟩ := ht.popped
          refine ih (he.take hs ht hne fun x hx => ?_) hrest
          exact queued_of_operationsBody hs hpop hu hx

lemma exists_early (hd : DepthsRight s w.1) (hq : Queued w.1 c) (hn : ¬ DueInOrder s has w c) :
    ∃ p, Early s has c p w := by
  simp only [DueInOrder, Classical.not_imp, not_forall, not_or] at hn
  obtain ⟨hk, p, hp, hhas, hmem, hdue⟩ := hn
  exact ⟨p, hd, hq, hk, hp, hhas, hmem, hdue⟩

open ECGSyncResponder in
/-- **A response that is causal and not cut** was queued in order. -/
theorem order_of_causal (hs : s.WellFormed) (hd : DepthsRight s r)
    (h' : Returns (fun n => r.prepareOperations n s) (r', operations))
    (hlt : operations.length < maxDeliverHeaders) (hc : CausalAfter s has operations) :
    (∀ c, Queued r c → DueInOrder s has (r, []) c) ∧ JoinsInOrder s has r := by
  obtain ⟨m, hm⟩ := h'
  constructor
  · intro c hq
    by_contra hn
    obtain ⟨p, he⟩ := exists_early (w := (r, [])) hd hq hn
    exact he.not_causal hs hm hlt hc
  · intro n w f hv hb c hq hold
    by_contra hn
    -- The loop that visits `w` is run with the fuel of the response.
    replace hm := steady_prepareOperations s r (Nat.le_max_right n m) hm
    replace hv := hv.mono fun u _ => steady_operationsBody s u (Nat.le_max_left n m)
    replace hb := steady_operationsBody s w (Nat.le_max_left n m) hb
    have hdw : DepthsRight s w.1 := by
      refine hv.invariant (I := fun u => DepthsRight s u.1) hd fun u v hu hnext => ?_
      rcases operationsBody_cases hs hnext with ⟨-, heq⟩ | ⟨h, u', ht, heq⟩
      · cases heq
      · split_ifs at heq
        cases heq
        exact ht.depths hu
    obtain ⟨k, hk⟩ := hv.loop hm
    obtain ⟨l, -, hdone | ⟨u, hu, hrest⟩⟩ := loop_cases hk
    · obtain rfl := Except.ok.inj (hb.symm.trans hdone)
      rcases operationsBody_cases hs hdone with ⟨-, heq⟩ | ⟨h, w', -, heq⟩
      · cases heq
        exact hold hq
      · split_ifs at heq with hlen
        cases heq
        exact absurd hlen (Nat.ne_of_lt hlt)
    · obtain rfl := Except.ok.inj (hb.symm.trans hu)
      rcases operationsBody_cases hs hu with ⟨-, heq⟩ | ⟨h, w', ht, heq⟩
      · cases heq
      · split_ifs at heq
        cases heq
        obtain ⟨p, he⟩ := exists_early (ht.depths hdw) hq hn
        exact he.not_causal hs hrest hlt hc

end Ossa.EcgSync
