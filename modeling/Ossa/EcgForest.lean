import Ossa.EcgCausalSends

/-!
Exchanges without merges.

A header with one parent is queued when its parent is known or has just been sent. So if no
header that is sent merges others, each comes after its parent, and in the end nothing is
missing.
-/

namespace Ossa.EcgSync

open Ossa.Loop Ossa.Collections Ossa.Ecg

variable {HeaderId Header : Type} [LinearOrder HeaderId] [ECGHeader Header HeaderId]

/-! ### Graphs that grow -/

section Grow

variable {U : Set Header} {x : Session HeaderId Header} {r r' : ECGSyncResponder HeaderId}
  {operations : List (Header × RawECGBody)}

variable (HeaderId) in
/-- No header has two parents. -/
def Forest (U : Set Header) : Prop :=
  ∀ header ∈ U, ∀ p ∈ getParentIds header, ∀ q ∈ getParentIds header, p = (q : HeaderId)

lemma Forest.queuesInOrder (hU : Set.InjOn (getHeaderId : Header → HeaderId) U)
    (hf : Forest HeaderId U) (hs : Sound U x) (hr : Chooses x r) :
    QueuesInOrder x r := by
  refine queuesInOrder_of_forest hU hs hr fun p q c ⟨info, hinfo, hp⟩ ⟨info', hinfo', hq⟩ => ?_
  obtain rfl := Option.some.inj (hinfo.symm.trans hinfo')
  exact hf _ (hs.responder.mem c info hinfo) p hp q hq

lemma Forest.steps (hU : Set.InjOn (getHeaderId : Header → HeaderId) U)
    (hf : Forest HeaderId U)
    (hx : Relation.ReflTransGen (ExchangeStep U) .start x) :
    Relation.ReflTransGen (OrderedStep U) .start x := by
  induction hx with
  | refl => exact .refl
  | tail _ hstep ih =>
    have hs := sound_of_reachable hU (ordered_of_steps hU ih).1
    exact ih.tail ⟨hstep, fun _ _ hr => hf.queuesInOrder hU hs hr⟩

/-- **Without merges every response of an exchange is in causal order**, and the initiator
accepts it, whenever the two graphs grow. -/
theorem causal_of_forest (hU : Set.InjOn (getHeaderId : Header → HeaderId) U)
    (hf : Forest HeaderId U)
    (hx : Relation.ReflTransGen (ExchangeStep U) .start x) (hr : Chooses x r)
    (hops : Returns (fun n => r.prepareOperations n x.responderEcg) (r', operations)) :
    CausalAfter x.responderEcg x.Provided operations ∧
      ∀ i, Consistent U i → x.initiatorEcg.Grows i → ∀ before op after,
        operations = before ++ op :: after → ¬ (insertAll i before).contains (getHeaderId op.1) →
          ((insertAll i before).insertHeader op.1 op.2).2 = true := by
  obtain ⟨hreach, hord⟩ := ordered_of_steps hU (hf.steps hU hx)
  have hs := sound_of_reachable hU hreach
  exact hord.accepted hU hs hr hops (hf.queuesInOrder hU hs hr)

end Grow

/-! ### Rounds over one graph -/

variable {s i : UntypedState HeaderId Header} {x y : Exchange HeaderId Header}
  {past : List (Exchange HeaderId Header)} {operations : List (Header × RawECGBody)} {n : ℕ}
  {r : ECGSyncResponder HeaderId} {w w' : ECGSyncResponder HeaderId × List (Header × RawECGBody)}
  {c h p : HeaderId}

/-- No header of `s` that is missing in `i` has two parents. -/
def NoMerges (s i : UntypedState HeaderId Header) : Prop :=
  ∀ c, ¬ i.contains c → ∀ p q, s.Parent p c → s.Parent q c → p = q

/-- They know the parents of every header in the queue that `i` does not have. -/
def BelowKnown (s i : UntypedState HeaderId Header) (r : ECGSyncResponder HeaderId) : Prop :=
  ∀ c, Queued r c → ¬ i.contains c → ∀ p, s.Parent p c → r.theyKnow p = true

/-- What holds between the rounds of an exchange that starts with the graph `i`. -/
structure Unmerged (s i : UntypedState HeaderId Header) (x : Exchange HeaderId Header) :
    Prop where
  grows : i.Grows x.ecg
  known : KnownIn x
  below : BelowKnown s i x.responder

lemma queuesBelow_learn (hs : s.WellFormed) (h' : x.learn n s = .ok r) :
    QueuesBelow s x.responder r := by
  unfold Exchange.learn at h'
  cases hini : x.initiator with
  | none =>
    simp only [hini] at h'
    exact queuesBelow_handleTheirTips hs h'
  | some initiator =>
    simp only [hini] at h'
    obtain ⟨bits, -, h'⟩ := bind_eq_ok.mp h'
    obtain ⟨r₁, h₁, h₂⟩ := bind_eq_ok.mp h'
    exact (queuesBelow_handleTheirTips hs h₁).trans (queuesBelow_handleTheirKnown hs h₂)

lemma BelowKnown.learn (hs : s.WellFormed) (hx : Going s x) (hone : NoMerges s i)
    (hb : BelowKnown s i x.responder) (h' : x.learn n s = .ok r) : BelowKnown s i r := by
  have hq := queuesBelow_learn hs h'
  intro c hc hmissing p hp
  rcases hq.queued c hc with hold | hnew
  · rcases theyKnow_iff.mp (hb c hold hmissing p hp) with hk | hu
    · exact theyKnow_iff.mpr (Or.inl (hq.known p hk))
    · exact absurd (hs.closed hp) (hx.unknown p hu).1
  · obtain ⟨q, hk, hparent⟩ := hnew p hp
    obtain rfl := hone c hmissing p q hp hparent
    exact theyKnow_iff.mpr (Or.inl hk)

lemma Takes.theyKnow_self (ht : Takes s h w w') : w'.1.theyKnow h = true := by
  rcases ht.delivers with ⟨hk, -⟩ | ⟨-, hins, -⟩
  · exact ht.theyKnow hk
  · exact theyKnow_iff.mpr (Or.inl (by rw [hins]; exact mem_insert.mpr (Or.inl rfl)))

open ECGSyncResponder in
/-- One iteration of `prepare_operations` only queues children of the header it takes. -/
lemma BelowKnown.iteration (hs : s.WellFormed) (hone : NoMerges s i) (hb : BelowKnown s i w.1)
    {f : Flow (ECGSyncResponder HeaderId × List (Header × RawECGBody))
      (ECGSyncResponder HeaderId × List (Header × RawECGBody))}
    (hf : operationsBody n s w = .ok f) : BelowKnown s i (flowState f).1 := by
  rcases operationsBody_cases hs hf with ⟨-, rfl⟩ | ⟨h, w', ht, heq⟩
  · exact hb
  · have hflow : flowState f = w' := by
      rw [heq]
      split_ifs <;> rfl
    obtain ⟨d, queue, hpop⟩ := ht.popped
    intro c hc hmissing p hp
    rw [hflow]
    rcases queued_of_operationsBody hs hpop hf hc with hold | hparent
    · exact ht.theyKnow (hb c hold hmissing p hp)
    · obtain rfl := hone c hmissing p h hp hparent
      exact ht.theyKnow_self

open ECGSyncResponder in
/-- So it is in every state that the loop of `prepare_operations` visits. -/
lemma BelowKnown.visits (hs : s.WellFormed) (hone : NoMerges s i) (hb : BelowKnown s i r)
    (hv : Visits (operationsBody n s) (r, []) w) : BelowKnown s i w.1 :=
  hv.invariant (I := fun w => BelowKnown s i w.1) hb fun _ _ hu hnext =>
    hu.iteration hs hone hnext

lemma Unmerged.accounted {r₁ : ECGSyncResponder HeaderId} (hs : s.WellFormed) (hx : Going s x)
    (hm : Unmerged s i x) (hlearn : x.learn n s = .ok r) (htips : r.prepareOurTips s = .ok r₁) :
    Accounted (fun p => x.ecg.contains p) (r₁, ([] : List (Header × RawECGBody))) := by
  obtain ⟨hl, -⟩ := learn_spec hs hx hlearn
  obtain ⟨he, -⟩ := prepareOurTips_spec htips
  intro h hh
  rw [theyKnow_iff, he.theirKnown, he.ourUnknown] at hh
  rcases hh with hh | hh
  · rcases hl.knownOnly h hh with hh | ⟨t, ht, -, hanc⟩
    · exact Or.inl (hm.known h hh)
    · exact Or.inl (hx.agree.ancestor hx.wf hanc ht)
  · rcases hl.unknownOnly h hh with hh | ⟨hc, -⟩
    · exact Or.inl (hx.unknown h hh).2
    · exact Or.inl hc

lemma Unmerged.belowTips {r₁ : ECGSyncResponder HeaderId} (hs : s.WellFormed) (hx : Going s x)
    (hone : NoMerges s i) (hm : Unmerged s i x) (hlearn : x.learn n s = .ok r)
    (htips : r.prepareOurTips s = .ok r₁) : BelowKnown s i r₁ := by
  have hb := hm.below.learn hs hx hone hlearn
  obtain ⟨he, -⟩ := prepareOurTips_spec htips
  intro c hc hmissing p hp
  rw [Queued, he.sendQueue] at hc
  have hk := hb c hc hmissing p hp
  rwa [theyKnow_iff, ← he.theirKnown, ← he.ourUnknown, ← theyKnow_iff] at hk

lemma Unmerged.sendsCausally (hs : s.WellFormed) (hx : Going s x) (hone : NoMerges s i)
    (hm : Unmerged s i x) : SendsCausally s x := by
  intro n r r₁ hlearn htips w hv d h queue hpop _ p hp
  by_cases hc : x.ecg.contains h
  · exact Or.inl (hx.wf.closed (hx.agree.parent hp hc))
  · have hqueued : Queued w.1 h := ⟨d, (BinaryHeap.mem_of_pop hpop).mpr (Or.inl rfl)⟩
    have hb := (hm.belowTips hs hx hone hlearn htips).visits hs hone hv
    exact (hm.accounted hs hx hlearn htips).visits hs hv p
      (hb h hqueued (fun h' => hc (hm.grows.contains h')) p hp)

lemma Unmerged.round (hs : s.WellFormed) (hx : Going s x) (hone : NoMerges s i)
    (hm : Unmerged s i x) (hround : Round s x y operations) : Unmerged s i y := by
  obtain ⟨n, hn⟩ := hround
  obtain ⟨r, hlearn, hr⟩ := round_spec hs hx hn
  obtain ⟨r', hr', hprep, -⟩ := round_eq_ok hn
  obtain rfl : r = r' := Except.ok.inj (hlearn.symm.trans hr')
  refine ⟨fun h info hh => (hr.receives hx).grows h info (hm.grows h info hh),
    hr.knownIn hs hx hlearn hprep (hm.sendsCausally hs hx hone) hm.known, ?_⟩
  obtain ⟨r₁, h₁, hprep⟩ := bind_eq_ok.mp hprep
  obtain ⟨⟨r₂, ops⟩, h₂, hprep⟩ := bind_eq_ok.mp hprep
  obtain ⟨r₃, h₃, hprep⟩ := bind_eq_ok.mp hprep
  cases hprep
  obtain ⟨w, hv, hdone⟩ := loop_visits h₂
  have hb : BelowKnown s i r₂ :=
    ((hm.belowTips hs hx hone hlearn h₁).visits hs hone hv).iteration hs hone hdone
  -- the proposals leave the queue alone
  have hhaves : ∀ b d h k, haveEntry b d h k ∈ r₂.havesQueue → s.getHeaderDepth h = some d := by
    rw [(prepareOperations_spec hs h₂).1.havesQueue]
    exact fun b d h k hh => ((prepareOurTips_spec h₁).1.queuedOnly b d h k hh).elim
      ((hr.learns.inGraph hs hx.inGraph).haves b d h k) And.right
  obtain ⟨hw, -⟩ := prepareSentHaves_spec hs hhaves h₃
  intro c hc hmissing p hp
  rw [Queued, hw.sendQueue] at hc
  rw [hw.theyKnow]
  exact hb c hc hmissing p hp

lemma Run.unmerged (hs : s.WellFormed) (hi : i.WellFormed) (ha : Agree s i) (hone : NoMerges s i)
    (hrun : Run s i past x) : Unmerged s i x ∧ ∀ z ∈ past, SendsCausally s z := by
  induction hrun with
  | start =>
    refine ⟨⟨fun _ _ h => h, fun h hh => ?_, fun c ⟨d, hc⟩ => ?_⟩, nofun⟩
    · simp [Exchange.start, ECGSyncResponder.new] at hh
    · simp [Exchange.start, ECGSyncResponder.new] at hc
  | round hrun hround _ ih =>
    have hx := hrun.going hs hi ha
    refine ⟨ih.1.round hs hx hone hround, fun z hz => ?_⟩
    rcases List.mem_cons.mp hz with rfl | hz
    · exact ih.1.sendsCausally hs hx hone
    · exact ih.2 z hz

/-- **Without merges nothing is missing**: if no header that the initiator lacks has two parents,
it has the whole graph of the responder at the first empty response. -/
theorem complete_of_noMerges (hs : s.WellFormed) (hi : i.WellFormed) (ha : Agree s i)
    (hone : NoMerges s i) (hrun : Run s i past x) (hround : Round s x y [])
    (hq : y.responder.sentHaves = []) (hh : s.contains h) : y.ecg.contains h := by
  obtain ⟨hm, hpast⟩ := hrun.unmerged hs hi ha hone
  have hx := hrun.going hs hi ha
  refine complete_of_causal hs hi ha hrun hround hq (fun z hz => ?_) hh
  rcases List.mem_cons.mp hz with rfl | hz
  · exact hm.sendsCausally hs hx hone
  · exact hpast z hz

/-! The initiator has the merge of a fork; what it lacks is a chain above it. -/

section Chain

open V0

def forkHeaders : List TestHeader := [⟨1, []⟩, ⟨2, [1]⟩, ⟨3, [1]⟩, ⟨4, [2, 3]⟩]

def chainHeaders : List TestHeader := forkHeaders ++ [⟨5, [4]⟩, ⟨6, [5]⟩]

def forkGraph : UntypedState ℕ TestHeader := insertAll .new (forkHeaders.map fun h => (h, []))

def chainGraph : UntypedState ℕ TestHeader := insertAll .new (chainHeaders.map fun h => (h, []))

lemma fork_records : Records forkGraph forkHeaders := by
  have h : accepted .new (forkHeaders.map fun h => (h, ([] : RawECGBody))) = forkHeaders := by
    decide
  exact h ▸ records_insertAll _

lemma chain_records : Records chainGraph chainHeaders := by
  have h : accepted .new (chainHeaders.map fun h => (h, ([] : RawECGBody))) = chainHeaders := by
    decide
  exact h ▸ records_insertAll _

lemma chain_noMerges : NoMerges chainGraph forkGraph := by
  have hone : ∀ header ∈ chainHeaders, header ∉ forkHeaders →
      ∀ p ∈ header.parentIds, ∀ q ∈ header.parentIds, p = q := by decide
  intro c hmissing p q ⟨info, hinfo, hp⟩ ⟨info', hinfo', hq⟩
  obtain rfl := Option.some.inj (hinfo.symm.trans hinfo')
  obtain ⟨hmem, rfl⟩ := chain_records.mem_of_getNode hinfo
  refine hone _ hmem (fun hfork => hmissing ?_) p hp q hq
  obtain ⟨info, hinfo, -⟩ := fork_records.headers.mpr ⟨hfork, rfl⟩
  exact UntypedState.contains_iff_getNode.mpr ⟨info, hinfo⟩

/-- The chain is sent in the first round, and the second is quiet. -/
theorem complete_of_noMerges_chain : ∃ first second,
    twoRounds 50 chainGraph forkGraph = .ok (first, second) ∧ ids first.2 = [5, 6] ∧
    ∀ h, chainGraph.contains h → second.1.ecg.contains h := by
  obtain ⟨⟨first, second⟩, htwo, h⟩ := exists_of_any (show
    (twoRounds 50 chainGraph forkGraph).toOption.any (fun r =>
      ids r.1.2 = [5, 6] ∧ r.2.2 = [] ∧ r.2.1.responder.sentHaves = []) = true by decide)
  obtain ⟨hids, hnil, hq⟩ := of_decide_eq_true h
  obtain ⟨hround₁, hround₂⟩ := rounds_of_twoRounds htwo
  refine ⟨first, second, htwo, hids, fun h hh => ?_⟩
  have hrun : Run chainGraph forkGraph [.start forkGraph] first.1 :=
    .round .start hround₁ fun hq => by
      rw [hq.1] at hids
      cases hids
  have ha : Agree chainGraph forkGraph := agree_of_records chain_records fork_records (by decide)
  exact complete_of_noMerges chain_records.wf fork_records.wf ha chain_noMerges hrun
    (hnil ▸ hround₂) hq hh

end Chain

end Ossa.EcgSync
