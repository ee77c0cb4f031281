import Ossa.EcgExchange

/-!
What an exchange has delivered when it falls quiet.

The initiator drops a header whose parents it does not have, but the responder marks it as
known when it sends it and never sends it again. So at the first empty response the initiator
has the whole graph of the responder exactly when every header was sent after its parents.
-/

namespace Ossa.EcgSync

open Ossa.Loop Ossa.Collections Ossa.Ecg

variable {HeaderId Header : Type} [LinearOrder HeaderId] [ECGHeader Header HeaderId]
  {s i : UntypedState HeaderId Header} {x y z : Exchange HeaderId Header}
  {past : List (Exchange HeaderId Header)} {operations : List (Header × RawECGBody)} {n : ℕ}
  {r r' : ECGSyncResponder HeaderId} {h p : HeaderId}

open ECGSyncResponder in
/-- In the round from `z`, each header that the loop of `prepare_operations` is about to send
has all its parents in the initiator's graph or earlier in the list. -/
def SendsCausally (s : UntypedState HeaderId Header) (z : Exchange HeaderId Header) : Prop :=
  ∀ n r r₁, z.learn n s = .ok r → r.prepareOurTips s = .ok r₁ →
    ∀ w, Visits (operationsBody n s) (r₁, []) w →
      ∀ d h queue, w.1.sendQueue.pop = some (sendEntry d h, queue) → w.1.theyKnow h = false →
        ∀ p, s.Parent p h → z.ecg.contains p ∨ p ∈ ids w.2

/-- Each header of the list has its parents in `i` or earlier in the list. -/
def Causal (s i : UntypedState HeaderId Header) (operations : List (Header × RawECGBody)) : Prop :=
  ∀ before op after, operations = before ++ op :: after →
    ∀ p, s.Parent p (getHeaderId op.1) → i.contains p ∨ p ∈ ids before

/-- Each header of the list has its parents among those they have or earlier in the list. -/
def CausalAfter (s : UntypedState HeaderId Header) (has : HeaderId → Prop)
    (operations : List (Header × RawECGBody)) : Prop :=
  ∀ before op after, operations = before ++ op :: after →
    ∀ p, s.Parent p (getHeaderId op.1) → has p ∨ p ∈ ids before

lemma CausalAfter.concat {has : HeaderId → Prop} {op : Header × RawECGBody}
    (hc : CausalAfter s has operations)
    (hop : ∀ p, s.Parent p (getHeaderId op.1) → has p ∨ p ∈ ids operations) :
    CausalAfter s has (operations ++ [op]) := by
  intro before op' after heq p hp
  rcases List.eq_nil_or_concat after with rfl | ⟨after', op'', rfl⟩
  · obtain ⟨rfl, h⟩ := List.append_inj' heq rfl
    cases h
    exact hop p hp
  · rw [List.concat_eq_append, ← List.cons_append, ← List.append_assoc] at heq
    obtain ⟨rfl, -⟩ := List.append_inj' heq rfl
    exact hc before op' after' rfl p hp

lemma causal_iff : Causal s i operations ↔ CausalAfter s (fun p => i.contains p) operations :=
  Iff.rfl

lemma causal_of_append {more : List (Header × RawECGBody)} (hc : Causal s i (operations ++ more)) :
    Causal s i operations := fun before op after heq p hp =>
  hc before op (after ++ more) (by rw [heq]; simp) p hp

/-- A header of `s` whose parents are all there is acceptable. -/
lemma acceptable_of_parents {op : Header × RawECGBody} {info : NodeInfo Header}
    (hs : s.WellFormed) (hinfo : s.getNode (getHeaderId op.1) = some info)
    (hheader : info.header = op.1) (hnot : ¬ i.contains (getHeaderId op.1))
    (hp : ∀ p, s.Parent p (getHeaderId op.1) → i.contains p) : i.Acceptable op.1 := by
  have hv := hs.valid hinfo
  rw [hheader] at hv
  exact ⟨hv, hnot, fun p hmem => hp p ⟨info, hinfo, hheader ▸ hmem⟩⟩

lemma insertHeader_of_acceptable {op : Header × RawECGBody} (hi : i.WellFormed)
    (hacc : i.Acceptable op.1) : (i.insertHeader op.1 op.2).2 = true ∧
      (i.insertHeader op.1 op.2).1.contains (getHeaderId op.1) := by
  obtain ⟨infos, hinfos⟩ := exists_mapM fun p hp =>
    UntypedState.contains_iff_getNode.mp (hacc.2.2 p hp)
  rw [UntypedState.insertHeader_of_acceptable hi hacc hinfos]
  exact ⟨rfl, UntypedState.contains_accept.mpr (Or.inl rfl)⟩

/-- **Operations in causal order are all accepted.** -/
theorem contains_insertAll (hs : s.WellFormed) (hi : i.WellFormed) (ha : Agree s i)
    (hf : FromGraph s operations) (hc : Causal s i operations) :
    ∀ h ∈ ids operations, (insertAll i operations).contains h := by
  induction operations using List.reverseRecOn with
  | nil => simp [ids]
  | append_singleton operations op ih =>
    have hf' : FromGraph s operations := fun op' h => hf op' (List.mem_append_left _ h)
    have hrec := receives_insertAll hi ha hf'
    have ih := ih hf' (causal_of_append hc)
    have hg := (hrec.wf.getNode_insertHeader op.1 op.2).1
    intro h hh
    rw [insertAll_concat]
    simp only [ids, List.map_append, List.mem_append, List.map_cons, List.map_nil,
      List.mem_singleton] at hh
    rcases hh with hh | rfl
    · exact hg.contains (ih h hh)
    · by_cases hin : (insertAll i operations).contains (getHeaderId op.1)
      · exact hg.contains hin
      · obtain ⟨info, hinfo, hheader, -⟩ := hf op (by simp)
        refine (insertHeader_of_acceptable hrec.wf
          (acceptable_of_parents hs hinfo hheader hin fun p hp => ?_)).2
        rcases hc operations op [] rfl p hp with hp | hp
        · exact hrec.grows.contains hp
        · exact ih p hp

/-- **Inserted one after the other**, each header that is not there yet is accepted. -/
theorem accepts_of_causal (hs : s.WellFormed) (hi : i.WellFormed) (ha : Agree s i)
    (hf : FromGraph s operations) (hc : Causal s i operations)
    {before after : List (Header × RawECGBody)} {op : Header × RawECGBody}
    (heq : operations = before ++ op :: after)
    (hnot : ¬ (insertAll i before).contains (getHeaderId op.1)) :
    ((insertAll i before).insertHeader op.1 op.2).2 = true := by
  subst heq
  have hf' : FromGraph s before := fun op' h => hf op' (List.mem_append_left _ h)
  have hrec := receives_insertAll hi ha hf'
  obtain ⟨info, hinfo, hheader, -⟩ := hf op (by simp)
  refine (insertHeader_of_acceptable hrec.wf
    (acceptable_of_parents hs hinfo hheader hnot fun p hp => ?_)).1
  rcases hc before op after rfl p hp with hp | hp
  · exact hrec.grows.contains hp
  · exact contains_insertAll hs hi ha hf' (causal_of_append hc) p hp

open ECGSyncResponder in
lemma causal_of_sendsCausally (hs : s.WellFormed) (hz : SendsCausally s z)
    (hr : z.learn n s = .ok r) (hp : r.prepareResponse n s = .ok (r', operations)) :
    Causal s z.ecg operations := by
  obtain ⟨r₁, h₁, hp⟩ := bind_eq_ok.mp hp
  obtain ⟨⟨r₂, ops⟩, h₂, hp⟩ := bind_eq_ok.mp hp
  obtain ⟨r₃, h₃, hp⟩ := bind_eq_ok.mp hp
  cases hp
  have htake : ∀ w, Visits (operationsBody n s) (r₁, []) w → Causal s z.ecg w.2 →
      ∀ h w', Takes s h w w' → Causal s z.ecg w'.2 := by
    intro w hv hc h w' ht
    rcases ht.delivers with ⟨-, -, hops⟩ | ⟨hk, -, info, hinfo, hops⟩
    · rwa [hops]
    · obtain ⟨d, queue, hpop⟩ := ht.popped
      rw [hops]
      refine (causal_iff.mp hc).concat fun p hp => ?_
      rw [hs.ids hinfo] at hp
      exact hz n r r₁ hr h₁ w hv d h queue hpop hk p hp
  obtain ⟨w, hv, hd⟩ := loop_visits h₂
  have hall : ∀ w, Visits (operationsBody n s) (r₁, []) w → Causal s z.ecg w.2 := by
    intro w hv
    induction hv with
    | refl => intro before op after heq; simp at heq
    | @next t u hv hnext ih =>
      rcases operationsBody_cases hs hnext with ⟨-, heq⟩ | ⟨h, w', ht, heq⟩
      · cases heq
      · split_ifs at heq
        cases heq
        exact htake _ hv ih h _ ht
  rcases operationsBody_cases hs hd with ⟨-, heq⟩ | ⟨h, w', ht, heq⟩
  · cases heq
    exact hall _ hv
  · split_ifs at heq
    cases heq
    exact htake _ hv (hall _ hv) h _ ht

/-! ### Causal rounds deliver everything -/

/-- Everything the responder believes they know is in the initiator's graph. -/
def KnownIn (x : Exchange HeaderId Header) : Prop :=
  ∀ h ∈ x.responder.theirKnown, x.ecg.contains h

lemma Rounds.knownIn (hs : s.WellFormed) (hx : Going s x) (hr : Rounds s x y operations r)
    (hlearn : x.learn n s = .ok r) (hprep : r.prepareResponse n s = .ok (y.responder, operations))
    (hc : SendsCausally s x) (hk : KnownIn x) : KnownIn y := by
  intro h hh
  have hrec := hr.receives hx
  rcases (hr.prepares.known h).mp hh with hh | hh
  · rcases hr.learns.knownOnly h hh with hh | ⟨t, ht, -, hanc⟩
    · exact hrec.grows.contains (hk h hh)
    · exact hrec.grows.contains (hx.agree.ancestor hx.wf hanc ht)
  · rw [hr.ecg]
    exact contains_insertAll hs hx.wf hx.agree hr.prepares.nodes
      (causal_of_sendsCausally hs hc hlearn hprep) h hh

lemma Run.knownIn (hs : s.WellFormed) (hi : i.WellFormed) (ha : Agree s i) (hrun : Run s i past x)
    (hc : ∀ z ∈ past, SendsCausally s z) : KnownIn x := by
  induction hrun with
  | start => intro h hh; simp [Exchange.start, ECGSyncResponder.new] at hh
  | @round past x y operations hrun hround _ ih =>
    obtain ⟨n, hn⟩ := hround
    have hx := hrun.going hs hi ha
    obtain ⟨r, hlearn, hr⟩ := round_spec hs hx hn
    obtain ⟨r₁, hr₁, hprep, -⟩ := round_eq_ok hn
    obtain rfl : r = r₁ := Except.ok.inj (hlearn.symm.trans hr₁)
    exact hr.knownIn hs hx hlearn hprep (hc x List.mem_cons_self)
      (ih fun z hz => hc z (List.mem_cons_of_mem _ hz))

lemma Rounds.tips_known (hs : s.WellFormed) (hx : Going s x) (hr : Rounds s x y operations r)
    (hq : y.responder.sentHaves = []) {t : HeaderId} (ht : t ∈ s.tips) :
    t ∈ y.responder.theirKnown := by
  have hlt : y.responder.sentHaves.length < maxHaveHeaders := by rw [hq]; simp [maxHaveHeaders]
  rcases hr.prepares.tips hlt t ht with hk | hmem
  · rcases theyKnow_iff.mp hk with hk | hu
    · exact hk
    · exact absurd (hs.tips.mp ht).1 ((hr.going hx).unknown t hu).1
  · rw [hq] at hmem
    cases hmem

/-- If every round sends causally, nothing is missing at an empty response. -/
lemma complete_of_causal (hs : s.WellFormed) (hi : i.WellFormed) (ha : Agree s i)
    (hrun : Run s i past x) (hround : Round s x y []) (hq : y.responder.sentHaves = [])
    (hc : ∀ z ∈ x :: past, SendsCausally s z) (hh : s.contains h) : y.ecg.contains h := by
  obtain ⟨n, hn⟩ := hround
  have hx := hrun.going hs hi ha
  obtain ⟨r, hlearn, hr⟩ := round_spec hs hx hn
  obtain ⟨r₁, hr₁, hprep, -⟩ := round_eq_ok hn
  obtain rfl : r = r₁ := Except.ok.inj (hlearn.symm.trans hr₁)
  have hk := hr.knownIn hs hx hlearn hprep (hc x List.mem_cons_self)
    (hrun.knownIn hs hi ha fun z hz => hc z (List.mem_cons_of_mem _ hz))
  obtain ⟨t, ht, hanc⟩ := hs.exists_tip hh
  have hy := hr.going hx
  exact hy.agree.ancestor hy.wf hanc (hk t (hr.tips_known hs hx hq ht))

/-! ### A header sent too early is lost -/

/-- The header is in the responder's graph, believed known, and not in the initiator's graph. -/
structure Lost (s : UntypedState HeaderId Header) (h : HeaderId) (x : Exchange HeaderId Header) :
    Prop where
  held : s.contains h
  known : h ∈ x.responder.theirKnown
  missing : ¬ x.ecg.contains h

/-- A lost header stays lost: it is never sent again. -/
lemma Lost.round (hx : Going s x) (hr : Rounds s x y operations r) (hl : Lost s h x) :
    Lost s h y where
  held := hl.held
  known := (hr.prepares.known h).mpr (Or.inl (hr.learns.known h hl.known))
  missing hc := by
    rcases (hr.receives hx).only h hc with hc | hids
    · exact hl.missing hc
    · have := hr.prepares.fresh h hids
      rw [theyKnow_iff.mpr (Or.inl (hr.learns.known h hl.known))] at this
      cases this

open ECGSyncResponder in
lemma prefix_of_loop (hs : s.WellFormed)
    {w w' : ECGSyncResponder HeaderId × List (Header × RawECGBody)} {m : ℕ}
    (h' : loop (operationsBody n s) m w = .ok w') : w.2 <+: w'.2 := by
  have htake : ∀ {u u' : ECGSyncResponder HeaderId × List (Header × RawECGBody)} {h},
      Takes s h u u' → u.2 <+: u'.2 := fun ht => by
    rcases ht.delivers with ⟨-, -, hops⟩ | ⟨-, -, info, -, hops⟩
    · rw [hops]
    · rw [hops]; exact List.prefix_append _ _
  obtain ⟨u, -, hpre, hd⟩ := loop_invariant (I := fun u => w.2 <+: u.2) h' List.prefix_rfl
    fun u u' hpre hnext => by
      rcases operationsBody_cases hs hnext with ⟨-, heq⟩ | ⟨h, u'', ht, heq⟩
      · cases heq
      · split_ifs at heq
        cases heq
        exact hpre.trans (htake ht)
  rcases operationsBody_cases hs hd with ⟨-, heq⟩ | ⟨h, u'', ht, heq⟩
  · cases heq
    exact hpre
  · split_ifs at heq
    cases heq
    exact hpre.trans (htake ht)

lemma not_contains_insertAll {op : Header × RawECGBody} {before after : List (Header × RawECGBody)}
    (hi : i.WellFormed) (ha : Agree s i) (hf : FromGraph s (before ++ op :: after))
    (hn : (ids (before ++ op :: after)).Nodup) (hp : s.Parent p (getHeaderId op.1))
    (hpi : ¬ i.contains p) (hpb : p ∉ ids before) :
    ¬ (insertAll i (before ++ op :: after)).contains (getHeaderId op.1) := by
  have hbefore : Receives s i (insertAll i before) before := receives_insertAll hi ha fun op' h =>
    hf op' (List.mem_append_left _ h)
  have hids : ids (before ++ op :: after) = ids before ++ getHeaderId op.1 :: ids after := by
    simp [ids]
  rw [hids, List.nodup_append] at hn
  obtain ⟨-, hrest, hdisj⟩ := hn
  have hmissing : ¬ (insertAll i before).contains p := fun hc =>
    (hbefore.only p hc).elim hpi hpb
  have hself : ¬ (insertAll i before).contains (getHeaderId op.1) := fun hc => by
    rcases hbefore.only _ hc with hc | hm
    · exact hpi (hi.closed (ha.parent hp hc))
    · exact hdisj _ hm _ List.mem_cons_self rfl
  obtain ⟨info, hinfo, hheader, -⟩ := hf op (by simp)
  obtain ⟨info', hinfo', hmem⟩ := hp
  obtain rfl : info = info' := Option.some.inj (hinfo.symm.trans hinfo')
  have hdrop : insertAll i (before ++ op :: after) = insertAll (insertAll i before) after := by
    have hrej : ¬ (insertAll i before).Acceptable op.1 := fun hacc =>
      hmissing (hacc.2.2 p (hheader ▸ hmem))
    rw [List.append_cons, insertAll_append, insertAll_concat,
      UntypedState.insertHeader_of_not_acceptable hrej]
  rw [hdrop]
  intro hc
  have hafter : Receives s (insertAll i before) (insertAll (insertAll i before) after) after :=
    receives_insertAll hbefore.wf hbefore.agree fun op' h =>
      hf op' (List.mem_append_right _ (List.mem_cons_of_mem _ h))
  rcases hafter.only _ hc with hc | hm
  · exact hself hc
  · exact (List.nodup_cons.mp hrest).1 hm

open ECGSyncResponder in
/-- **A round that does not send causally loses a header.** -/
theorem exists_lost (hs : s.WellFormed) (hx : Going s x) (hround : Round s x y operations)
    (hnot : ¬ SendsCausally s x) : ∃ h, Lost s h y := by
  simp only [SendsCausally, not_forall, not_or] at hnot
  obtain ⟨n, r, r₁, hlearn, h₁, w, hv, d, h, queue, hpop, hk, p, hp, hpx, hpw⟩ := hnot
  obtain ⟨m, hm⟩ := hround
  -- The round and the loop that visits `w` are run with the same fuel.
  replace hm := steady_round x s (Nat.le_max_right n m) hm
  replace hlearn := steady_learn x s (Nat.le_max_left n m) hlearn
  replace hv := hv.mono fun u _ => steady_operationsBody s u (Nat.le_max_left n m)
  obtain ⟨r₀, hr₀, hr⟩ := round_spec hs hx hm
  obtain rfl : r = r₀ := Except.ok.inj (hlearn.symm.trans hr₀)
  obtain ⟨r₀, hr₀, hprep, hecg, -⟩ := round_eq_ok hm
  obtain rfl : r = r₀ := Except.ok.inj (hlearn.symm.trans hr₀)
  obtain ⟨r₁', h₁', hprep⟩ := bind_eq_ok.mp hprep
  obtain rfl : r₁ = r₁' := Except.ok.inj (h₁.symm.trans h₁')
  obtain ⟨⟨r₂, ops⟩, h₂, hprep⟩ := bind_eq_ok.mp hprep
  obtain ⟨r₃, h₃, hprep⟩ := bind_eq_ok.mp hprep
  cases hprep
  -- The header popped at `w` is sent next.
  have hsent : ∃ info, s.getNode h = some info ∧
      w.2 ++ [(info.header, info.operations)] <+: operations := by
    obtain ⟨k, hk'⟩ := hv.loop h₂
    have htake : ∀ {h' w'}, Takes s h' w w' → ∃ info, s.getNode h = some info ∧
        w'.2 = w.2 ++ [(info.header, info.operations)] := fun ht => by
      obtain ⟨d', queue', hpop'⟩ := ht.popped
      have := toLex_inj.mp (Prod.mk.inj (Option.some.inj (hpop.symm.trans hpop'))).1
      simp only [Prod.mk.injEq, OrderDual.toDual_inj] at this
      obtain ⟨-, rfl⟩ := this
      rcases ht.delivers with ⟨hk', -⟩ | ⟨-, -, info, hinfo, hops⟩
      · rw [hk] at hk'; cases hk'
      · exact ⟨info, hinfo, hops⟩
    obtain ⟨l, -, hd | ⟨u, hu, hrest⟩⟩ := loop_cases hk'
    · rcases operationsBody_cases hs hd with ⟨hpop', -⟩ | ⟨h', w', ht, heq⟩
      · rw [hpop] at hpop'; cases hpop'
      · split_ifs at heq
        cases heq
        obtain ⟨info, hinfo, hops⟩ := htake ht
        exact ⟨info, hinfo, by rw [← hops]⟩
    · rcases operationsBody_cases hs hu with ⟨hpop', -⟩ | ⟨h', w', ht, heq⟩
      · rw [hpop] at hpop'; cases hpop'
      · split_ifs at heq
        cases heq
        obtain ⟨info, hinfo, hops⟩ := htake ht
        exact ⟨info, hinfo, by rw [← hops]; exact prefix_of_loop hs hrest⟩
  obtain ⟨info, hinfo, after, rfl⟩ := hsent
  have hid := hs.ids hinfo
  refine ⟨h, UntypedState.contains_iff_getNode.mpr ⟨info, hinfo⟩, ?_, ?_⟩
  · exact (hr.prepares.known h).mpr (Or.inr (by simp [ids, hid]))
  · have hlist : w.2 ++ [(info.header, info.operations)] ++ after =
        w.2 ++ (info.header, info.operations) :: after := by simp
    have hnodup := hr.prepares.nodup
    have hnodes := hr.prepares.nodes
    rw [hlist] at hnodup hnodes
    rw [hecg, hlist, ← hid]
    exact not_contains_insertAll hx.wf hx.agree hnodes hnodup (by rw [hid]; exact hp) hpx hpw

lemma Run.lost (hs : s.WellFormed) (hi : i.WellFormed) (ha : Agree s i) (hrun : Run s i past x)
    (hz : z ∈ past) (hnot : ¬ SendsCausally s z) : ∃ h, Lost s h x := by
  induction hrun with
  | start => cases hz
  | @round past x y operations hrun hround _ ih =>
    have hx := hrun.going hs hi ha
    rcases List.mem_cons.mp hz with rfl | hz
    · exact exists_lost hs hx hround hnot
    · obtain ⟨h, hl⟩ := ih hz
      obtain ⟨n, hn⟩ := hround
      obtain ⟨r, -, hr⟩ := round_spec hs hx hn
      exact ⟨h, hl.round hx hr⟩

/-- **What quiescence delivers**: at the first empty response the initiator has the whole graph
of the responder if and only if every round sent causally. -/
theorem quiet_complete_iff (hs : s.WellFormed) (hi : i.WellFormed) (ha : Agree s i)
    (hrun : Run s i past x) (hround : Round s x y []) (hq : y.responder.sentHaves = []) :
    (∀ h, s.contains h → y.ecg.contains h) ↔ ∀ z ∈ x :: past, SendsCausally s z := by
  constructor
  · intro hall z hz
    by_contra hnot
    obtain ⟨h, hl⟩ : ∃ h, Lost s h y := by
      have hx := hrun.going hs hi ha
      rcases List.mem_cons.mp hz with rfl | hz
      · exact exists_lost hs hx hround hnot
      · obtain ⟨h, hl⟩ := hrun.lost hs hi ha hz hnot
        obtain ⟨n, hn⟩ := hround
        obtain ⟨r, -, hr⟩ := round_spec hs hx hn
        exact ⟨h, hl.round hx hr⟩
    exact hl.missing (hall h hl.held)
  · exact fun hc h hh => complete_of_causal hs hi ha hrun hround hq hc hh

/-! The initiator has one of two roots; the responder has a header with both as its parents,
and sends it before the root that is missing. -/

section Merge

open V0

def mergeResponder : UntypedState ℕ TestHeader :=
  insertAll .new [(⟨1, []⟩, []), (⟨2, []⟩, []), (⟨3, [1, 2]⟩, [])]

def mergeInitiator : UntypedState ℕ TestHeader := insertAll .new [(⟨1, []⟩, [])]

lemma merge_agree : Agree mergeResponder mergeInitiator := by
  have hs : accepted .new [((⟨1, []⟩ : TestHeader), ([] : RawECGBody)), (⟨2, []⟩, []),
      (⟨3, [1, 2]⟩, [])] = [⟨1, []⟩, ⟨2, []⟩, ⟨3, [1, 2]⟩] := by decide
  have hi : accepted .new [((⟨1, []⟩ : TestHeader), ([] : RawECGBody))] = [⟨1, []⟩] := by decide
  refine agree_of_records (records_insertAll _) (records_insertAll _) ?_
  rw [hs, hi]
  decide

/-- The responder sends the merge in the first round. -/
def mergeFirst : Exchange ℕ TestHeader × List (TestHeader × RawECGBody) :=
  value ((Exchange.start mergeInitiator).round 20 mergeResponder) (by decide)

def mergeSecond : Exchange ℕ TestHeader × List (TestHeader × RawECGBody) :=
  value (mergeFirst.1.round 20 mergeResponder) (by decide)

lemma merge_run : Run mergeResponder mergeInitiator [.start mergeInitiator] mergeFirst.1 :=
  .round .start ⟨20, eq_ok_value (by decide)⟩ fun hq => absurd hq.1 (by decide)

lemma merge_quiet : Round mergeResponder mergeFirst.1 mergeSecond.1 [] := by
  have hnil : mergeSecond.2 = [] := by decide
  exact hnil ▸ ⟨20, eq_ok_value (by decide)⟩

theorem quiet_complete_iff_merge :
    ¬ ∀ z ∈ [mergeFirst.1, .start mergeInitiator], SendsCausally mergeResponder z := by
  have hiff := quiet_complete_iff (records_insertAll _).wf (records_insertAll _).wf merge_agree
    merge_run merge_quiet (by decide)
  exact fun hc => absurd (hiff.mpr hc 2 (by decide)) (by decide)

/-- **Quiescence does not mean completeness**: the merge is dropped and never sent again, and
the root that was missing is never sent at all. -/
theorem quiet_not_complete : ¬ ∀ (s i : UntypedState ℕ TestHeader) past x y, s.WellFormed →
    i.WellFormed → Agree s i → Run s i past x → Round s x y [] → y.responder.sentHaves = [] →
      ∀ h, s.contains h → y.ecg.contains h := fun hall =>
  absurd (hall _ _ _ _ _ (records_insertAll _).wf (records_insertAll _).wf merge_agree merge_run
    merge_quiet (by decide) 2 (by decide)) (by decide)

end Merge

end Ossa.EcgSync
