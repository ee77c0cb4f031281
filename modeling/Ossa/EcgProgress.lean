import Ossa.EcgExchange

/-!
Progress of an exchange.

The walk that looks for headers to propose starts again from the tips in every round. If the
first round walked to the end, every header that is still unknown below a tip can be reached
from the send queue from the second round on, so that each response that is not empty delivers
an operation. If the walk was cut at its bound, a round progresses when the request brings news.
-/

namespace Ossa.EcgSync

open Ossa.Loop Ossa.Collections Ossa.Ecg

variable {HeaderId Header : Type} [LinearOrder HeaderId] [ECGHeader Header HeaderId]
  {s i : UntypedState HeaderId Header} {x y : Exchange HeaderId Header}
  {past : List (Exchange HeaderId Header)} {operations : List (Header × RawECGBody)} {n : ℕ}
  {r r' : ECGSyncResponder HeaderId} {src : HeaderId → Prop} {a h p t : HeaderId}

/-- The round from `x` to `y` delivers an operation, learns that they know a header, or
proposes a header no earlier round proposed. -/
def Progresses (past : List (Exchange HeaderId Header)) (x y : Exchange HeaderId Header)
    (operations : List (Header × RawECGBody)) : Prop :=
  operations ≠ [] ∨
    (∃ h ∈ y.responder.theirKnown, h ∉ x.responder.theirKnown) ∨
    (∃ h ∈ y.responder.ourUnknown, h ∉ x.responder.ourUnknown) ∨
    ∃ h ∈ y.responder.sentHaves, ∀ z ∈ x :: past, h ∉ z.responder.sentHaves

/-- The first round, if there was one, took every entry from the haves queue. -/
def FirstUncut (past : List (Exchange HeaderId Header)) (x : Exchange HeaderId Header) : Prop :=
  ∀ x₁ x₀, [x₁, x₀] <:+ x :: past → ∀ e, e ∉ x₁.responder.havesQueue

/-- The next request, or the send queue, has something the responder can use: a tip of the
initiator that is new or has an ancestor not yet known, a proposed header that the initiator
has or can accept, or a queued header they do not know. -/
def News (s : UntypedState HeaderId Header) (x : Exchange HeaderId Header) : Prop :=
  (∃ t ∈ x.ecg.tips, ¬ s.contains t ∧ t ∉ x.responder.ourUnknown) ∨
    (∃ t ∈ x.ecg.tips, s.contains t ∧ ∃ a, s.AncestorOrSelf a t ∧ a ∉ x.responder.theirKnown) ∨
    (∃ h ∈ x.responder.sentHaves, x.ecg.contains h ∨
      ∀ p, s.Parent p h → p ∈ x.responder.theirKnown) ∨
    ∃ h, Queued x.responder h ∧ x.responder.theyKnow h = false

/-! ### Paths through unknown headers -/

lemma UnknownPath.unknown (hp : UnknownPath s r a h) : r.theyKnow a = false := by
  rcases hp.2.cases_head with rfl | ⟨c, ⟨-, hk⟩, -⟩
  · exact hp.1
  · exact hk

lemma UnknownPath.trans (h₁ : UnknownPath s r a h) (h₂ : UnknownPath s r h t) :
    UnknownPath s r a t := ⟨h₂.1, h₁.2.trans h₂.2⟩

lemma UnknownPath.mono (hk : ∀ h, r.theyKnow h = true → r'.theyKnow h = true)
    (hp : UnknownPath s r' a h) : UnknownPath s r a h := by
  have hback : ∀ h, r'.theyKnow h = false → r.theyKnow h = false := fun h hn => by
    by_contra hc
    have := hk h (by simpa using hc)
    rw [hn] at this
    cases this
  exact ⟨hback h hp.1, hp.2.lift id fun p c hpc => ⟨hpc.1, hback p hpc.2⟩⟩

lemma UnknownPath.ancestor (hp : UnknownPath s r a h) : s.AncestorOrSelf a h :=
  hp.2.lift id fun _ _ hpc => hpc.1

lemma Live.ancestor (hl : Live s r a) (hanc : s.AncestorOrSelf a h) : Live s r h := by
  obtain ⟨z, hz, ha⟩ := hl
  exact ⟨z, hz, ha.trans hanc⟩

lemma Learns.live (hl : Learns s src r r') (ha : Live s r a) : Live s r' a := by
  obtain ⟨z, hz, hanc⟩ := ha
  exact ⟨z, hl.queued hz, hanc⟩

lemma Prepares.theyKnow (hp : Prepares s r r' operations) (hk : r.theyKnow h = true) :
    r'.theyKnow h = true := by
  rw [theyKnow_iff] at hk ⊢
  exact hk.imp (fun hk => (hp.known h).mpr (Or.inl hk)) fun hu => by rwa [hp.unknown]

/-! ### Covered states -/

/-- Every header the next walk can reach lies below the send queue. -/
def Covered (s : UntypedState HeaderId Header) (r : ECGSyncResponder HeaderId) : Prop :=
  ∀ h, (h ∈ s.tips ∨ Pending r h) → ∀ a, UnknownPath s r a h → Live s r a

lemma Covered.learns (hc : Covered s r) (hl : Learns s src r r') : Covered s r' := by
  intro h hh a ha
  have hh' : h ∈ s.tips ∨ Pending r h := by
    simpa only [Pending, hl.havesQueue] using hh
  exact hl.live (hc h hh' a (ha.mono fun _ => hl.theyKnow))

/-- What the walk of a covered state reaches is in the queue or known in the end. -/
lemma Covered.reached (hc : Covered s r) (hp : Prepares s r r' operations)
    (ha : Pending r' a ∨ a ∈ r'.sentHaves) (hk : r'.theyKnow a = false) : Live s r' a := by
  obtain ⟨h, hh, hpath⟩ := hp.reached a ha hk
  have hlive := hc h hh a (hpath.mono fun _ => hp.theyKnow)
  refine (hp.live a hlive).resolve_left fun hk' => ?_
  rw [hk] at hk'
  cases hk'

lemma Covered.prepares (hc : Covered s r) (hp : Prepares s r r' operations) : Covered s r' := by
  intro h hh a ha
  rcases hh with ht | hpend
  · have hlive := hc h (Or.inl ht) a (ha.mono fun _ => hp.theyKnow)
    refine (hp.live a hlive).resolve_left fun hk => ?_
    rw [ha.unknown] at hk
    cases hk
  · obtain ⟨z, hz, hpath⟩ := hp.reached h (Or.inl hpend) ha.1
    have hlive := hc z hz a ((ha.trans hpath).mono fun _ => hp.theyKnow)
    refine (hp.live a hlive).resolve_left fun hk => ?_
    rw [ha.unknown] at hk
    cases hk

/-- **A covered responder that proposes something delivers something.** -/
theorem Covered.delivers (hc : Covered s r) (hp : Prepares s r r' operations)
    (hne : r'.sentHaves ≠ []) : operations ≠ [] := by
  rintro rfl
  obtain ⟨a, ha⟩ := List.exists_mem_of_ne_nil _ hne
  obtain ⟨z, hz, -⟩ := hc.reached hp (Or.inr ha) (hp.sent a ha).2
  exact hp.drained (by simp [maxDeliverHeaders]) z hz

/-! ### The first round -/

omit [ECGHeader Header HeaderId] in
lemma theirKnown_of_tips {tips : List HeaderId} (hn : tips.Nodup)
    (hd : ∀ t ∈ tips, t ∉ r.theirKnown)
    (h' : tips.foldlM (fun r t => r.handleTheirTip n s t) r = .ok r') :
    ∀ h ∈ r'.theirKnown, h ∈ r.theirKnown ∨ h ∈ tips := by
  induction tips generalizing r with
  | nil => cases h'; exact fun h hh => Or.inl hh
  | cons t tips ih =>
    rw [List.foldlM_cons] at h'
    obtain ⟨u, hu, h'⟩ := bind_eq_ok.mp h'
    have hknown : ∀ h ∈ u.theirKnown, h ∈ r.theirKnown ∨ h = t := by
      unfold ECGSyncResponder.handleTheirTip at hu
      split_ifs at hu with hc
      · obtain ⟨v, hv, hu⟩ := bind_eq_ok.mp hu
        obtain ⟨k, hk, rfl⟩ := markAsKnown_eq hv
        obtain ⟨cs, -, hu⟩ := bind_eq_ok.mp hu
        cases hu
        obtain rfl := mark_of_not_mem (hd t List.mem_cons_self) hk
        intro h hh
        exact (mem_insert.mp hh).symm
      · cases hu
        exact fun h hh => Or.inl hh
    obtain ⟨hnt, hn⟩ := List.nodup_cons.mp hn
    have hd' : ∀ t' ∈ tips, t' ∉ u.theirKnown := fun t' ht' hh => by
      rcases hknown t' hh with hh | rfl
      · exact hd t' (List.mem_cons_of_mem _ ht') hh
      · exact hnt ht'
    intro h hh
    rcases ih hn hd' h' h hh with hh | hh
    · rcases hknown h hh with hh | rfl
      · exact Or.inl hh
      · exact Or.inr List.mem_cons_self
    · exact Or.inr (List.mem_cons_of_mem _ hh)

/-- What the responder holds after a first round that was not cut. -/
structure AfterFirst (s : UntypedState HeaderId Header) (r : ECGSyncResponder HeaderId) : Prop where
  emptied : ∀ e, e ∉ r.havesQueue
  roots : ∀ t ∈ s.tips, ∀ a, UnknownPath s r a t → s.getHeaderDepth a = some 1 → a ∈ r.sentHaves
  children : ∀ p ∈ r.theirKnown, ∀ c, s.Parent p c → r.theyKnow c ∨ Live s r c

lemma afterFirst (hs : s.WellFormed) (hnew : x.initiator = none)
    (hfresh : x.responder = .new) (hlearn : x.learn n s = .ok r) (hr : Rounds s x y operations r)
    (hempty : ∀ e, e ∉ y.responder.havesQueue) : AfterFirst s y.responder where
  emptied := hempty
  roots := hr.prepares.roots hempty
  children := by
    intro p hp c hpc
    rcases (hr.prepares.known p).mp hp with hp | hp
    · have hmem : p ∈ x.ecg.tips := by
        simp only [Exchange.learn, hnew] at hlearn
        unfold ECGSyncResponder.handleTheirTips at hlearn
        have hno : ∀ t, t ∉ (if x.ecg.tips.toList.isEmpty then
            x.responder.enqueue s.getRootNodesWithDepth else x.responder).theirKnown := by
          intro t
          rw [hfresh]
          split_ifs <;> simp [ECGSyncResponder.new, ECGSyncResponder.enqueue]
        rcases theirKnown_of_tips (nodup_toList _) (fun t _ => hno t) hlearn p hp with hp | hp
        · exact absurd hp (hno p)
        · simpa using hp
      have hc : s.contains p := hs.closed hpc
      have hq := (hr.tips p hmem).children hc c hpc
      exact hr.prepares.live c ⟨c, hq, .refl⟩
    · exact hr.prepares.children p hp c hpc

lemma depth_of_root (hs : s.WellFormed) (hc : s.contains a) (hno : ∀ p, ¬ s.Parent p a) :
    s.getHeaderDepth a = some 1 := by
  obtain ⟨info, hinfo⟩ := UntypedState.contains_iff_getNode.mp hc
  have hnil : getParentIds info.header = [] := by
    by_contra hne
    obtain ⟨p, hp⟩ := List.exists_mem_of_ne_nil _ hne
    exact hno p ⟨info, hinfo, hp⟩
  obtain ⟨infos, hm, hd⟩ := hs.depth hinfo
  rw [hnil] at hm
  cases hm
  simp [UntypedState.getHeaderDepth, hinfo, hd, UntypedState.depthFor]

/-- **The request after an uncut first round covers the responder**: every unknown path from a
tip ends at a proposed root, which the bitmap is about, or at a header sent or claimed, whose
children are queued. -/
theorem covered_of_afterFirst (hs : s.WellFormed) (hx : Going s x)
    (hfirst : AfterFirst s x.responder) (hr : Rounds s x y operations r) : Covered s r := by
  have key : ∀ t ∈ s.tips, ∀ a, UnknownPath s x.responder a t →
      Live s r a ∨ Heard s r a := by
    intro t ht a
    induction hn : s.rank a using Nat.strong_induction_on generalizing a with
    | _ n ih =>
      subst hn
      intro ha
      have hc : s.contains a := ha.ancestor.contains hs (hs.tips.mp ht).1
      by_cases hroot : ∀ p, ¬ s.Parent p a
      · have hsent := hfirst.roots t ht a ha (depth_of_root hs hc hroot)
        by_cases hxa : x.ecg.contains a
        · exact Or.inr (hr.claimed a hsent hxa)
        · have hq := hr.unclaimed a hsent hxa fun p hp => absurd hp (hroot p)
          exact Or.inl ⟨a, hq, .refl⟩
      · obtain ⟨p, hp⟩ := not_forall_not.mp hroot
        have hpc : s.contains p := hs.closed hp
        by_cases hk : x.responder.theyKnow p = true
        · have hpk : p ∈ x.responder.theirKnown :=
            (theyKnow_iff.mp hk).resolve_right fun hu => (hx.unknown p hu).1 hpc
          rcases hfirst.children p hpk a hp with hka | hlive
          · rw [ha.unknown] at hka
            cases hka
          · exact Or.inl (hr.learns.live hlive)
        · have hpath : UnknownPath s x.responder p t :=
            ⟨ha.1, .head ⟨hp, by simpa using hk⟩ ha.2⟩
          rcases ih _ (hs.rank_lt_rank hp) p rfl hpath with hlive | hheard
          · exact Or.inl (hlive.ancestor (.single hp))
          · exact Or.inl ⟨a, hheard.children hpc a hp, .refl⟩
  intro h hh a ha
  rcases hh with ht | ⟨b, d, k, hpend⟩
  · have hpath : UnknownPath s x.responder a h := ha.mono fun _ => hr.learns.theyKnow
    rcases key h ht a hpath with hlive | hheard
    · exact hlive
    · have hc : s.contains a := ha.ancestor.contains hs (hs.tips.mp ht).1
      have hk := theyKnow_iff.mpr (Or.inl (hheard.known hc))
      rw [ha.unknown] at hk
      cases hk
  · rw [hr.learns.havesQueue] at hpend
    exact absurd hpend (hfirst.emptied _)

/-! ### Every round progresses -/

omit [ECGHeader Header HeaderId] in
lemma FirstUncut.of_cons {z : Exchange HeaderId Header} (hf : FirstUncut (x :: past) z) :
    FirstUncut past x := fun x₁ x₀ hsuf =>
  hf x₁ x₀ (hsuf.trans (List.suffix_cons _ _))

lemma Run.covered (hs : s.WellFormed) (hi : i.WellFormed) (ha : Agree s i)
    (hrun : Run s i past x) (hf : FirstUncut past x) :
    (past = [] ∧ x = .start i) ∨ AfterFirst s x.responder ∨ Covered s x.responder := by
  induction hrun with
  | start => exact Or.inl ⟨rfl, rfl⟩
  | @round past x y operations hrun hround _ ih =>
    obtain ⟨n, hn⟩ := hround
    have hx := hrun.going hs hi ha
    obtain ⟨r, hlearn, hr⟩ := round_spec hs hx hn
    right
    rcases ih hf.of_cons with ⟨rfl, rfl⟩ | hfirst | hc
    · have hempty := hf y (.start i) (List.suffix_refl _)
      exact Or.inl (afterFirst hs rfl rfl hlearn hr hempty)
    · exact Or.inr ((covered_of_afterFirst hs hx hfirst hr).prepares hr.prepares)
    · exact Or.inr ((hc.learns hr.learns).prepares hr.prepares)

lemma Rounds.delivers (hr : Rounds s x y operations r) (hq : Queued r h)
    (hk : r.theyKnow h = false) : operations ≠ [] := by
  rintro rfl
  rcases hr.prepares.live h ⟨h, hq, .refl⟩ with hk' | ⟨z, hz, -⟩
  · rw [theyKnow_iff, hr.prepares.known, hr.prepares.unknown] at hk'
    have : r.theyKnow h = true := theyKnow_iff.mpr (by simpa [ids] using hk')
    rw [hk] at this
    cases this
  · exact hr.prepares.drained (by simp [maxDeliverHeaders]) z hz

lemma Rounds.progresses_of_known (hr : Rounds s x y operations r) (hh : h ∈ r.theirKnown)
    (hn : h ∉ x.responder.theirKnown) : Progresses past x y operations :=
  Or.inr (Or.inl ⟨h, (hr.prepares.known h).mpr (Or.inl hh), hn⟩)

lemma Rounds.progresses_of_queued (hr : Rounds s x y operations r) (hq : Queued r h)
    (hk : x.responder.theyKnow h = false) (hu : h ∉ r.ourUnknown) :
    Progresses past x y operations := by
  by_cases hkr : r.theyKnow h = true
  · have hmem := (theyKnow_iff.mp hkr).resolve_right hu
    refine hr.progresses_of_known hmem fun hx => ?_
    rw [theyKnow_iff.mpr (Or.inl hx)] at hk
    cases hk
  · exact Or.inl (hr.delivers hq (by simpa using hkr))

/-- **News makes a round progress.** -/
theorem Rounds.progresses_of_news (hx : Going s x) (hr : Rounds s x y operations r)
    (hnews : News s x) : Progresses past x y operations := by
  have hun : ∀ h, s.contains h → h ∉ r.ourUnknown := fun h hc hu => by
    rcases hr.learns.unknownOnly h hu with hu | ⟨-, hn⟩
    · exact (hx.unknown h hu).1 hc
    · exact hn hc
  rcases hnews with ⟨t, ht, hc, hn⟩ | ⟨t, ht, hc, a, hanc, hn⟩ | ⟨h, hh, hor⟩ | ⟨h, hq, hk⟩
  · have hu := (hr.tips t ht).unknown hc
    exact Or.inr (Or.inr (Or.inl ⟨t, by rw [hr.prepares.unknown]; exact hu, hn⟩))
  · obtain ⟨z, hz, hzn⟩ := hr.news t ht hc a hanc hn
    exact hr.progresses_of_known hz hzn
  · have hc := hx.inGraph.sent h hh
    have hk := hx.fresh h hh
    by_cases hxh : x.ecg.contains h
    · have hmem := (hr.claimed h hh hxh).known hc
      refine hr.progresses_of_known hmem fun hold => ?_
      rw [theyKnow_iff.mpr (Or.inl hold)] at hk
      cases hk
    · have hq := hr.unclaimed h hh hxh (hor.resolve_left hxh)
      exact hr.progresses_of_queued hq hk (hun h hc)
  · have hc : s.contains h := by
      obtain ⟨d, hd⟩ := hq
      exact UntypedState.contains_iff_depth.mpr ⟨d, hx.inGraph.send d h hd⟩
    exact hr.progresses_of_queued (hr.learns.queued hq) hk (hun h hc)

/-- **Progress**: a response that is not empty makes progress, if the first round was not cut
or the request brings news. -/
theorem Run.progresses (hs : s.WellFormed) (hi : i.WellFormed) (ha : Agree s i)
    (hrun : Run s i past x) (hround : Round s x y operations) (hq : ¬ Quiet y operations)
    (hcond : FirstUncut past x ∨ News s x) : Progresses past x y operations := by
  have hx := hrun.going hs hi ha
  obtain ⟨n, hn⟩ := hround
  obtain ⟨r, -, hr⟩ := round_spec hs hx hn
  by_cases hops : operations = []
  swap
  · exact Or.inl hops
  have hne : y.responder.sentHaves ≠ [] := fun h => hq ⟨hops, h⟩
  rcases hcond with hf | hnews
  · rcases hrun.covered hs hi ha hf with ⟨rfl, rfl⟩ | hfirst | hc
    · obtain ⟨h, hh⟩ := List.exists_mem_of_ne_nil _ hne
      refine Or.inr (Or.inr (Or.inr ⟨h, hh, fun z hz => ?_⟩))
      obtain rfl := List.mem_singleton.mp hz
      simp [Exchange.start, ECGSyncResponder.new]
    · exact absurd hops ((covered_of_afterFirst hs hx hfirst hr).delivers hr.prepares hne)
    · exact absurd hops ((hc.learns hr.learns).delivers hr.prepares hne)
  · exact hr.progresses_of_news hx hnews

/-! ### Only finitely many rounds -/

/-- The headers proposed so far. -/
def proposed (run : List (Exchange HeaderId Header)) : Finset HeaderId :=
  (run.flatMap fun z => z.responder.sentHaves).toFinset

/-- What the responder has learned and proposed so far. -/
def gained (past : List (Exchange HeaderId Header)) (x : Exchange HeaderId Header) : ℕ :=
  x.responder.theirKnown.size + x.responder.ourUnknown.size + (proposed (x :: past)).card

omit [ECGHeader Header HeaderId] in
lemma mem_proposed {run : List (Exchange HeaderId Header)} :
    h ∈ proposed run ↔ ∃ z ∈ run, h ∈ z.responder.sentHaves := by
  simp [proposed]

lemma Rounds.gained_lt (hr : Rounds s x y operations r) (hp : Progresses past x y operations) :
    gained past x < gained (x :: past) y := by
  have hknown : ∀ h ∈ x.responder.theirKnown, h ∈ y.responder.theirKnown := fun h hh =>
    (hr.prepares.known h).mpr (Or.inl (hr.learns.known h hh))
  have hunknown : ∀ h ∈ x.responder.ourUnknown, h ∈ y.responder.ourUnknown := fun h hh => by
    rw [hr.prepares.unknown]
    exact hr.learns.unknown h hh
  have hsub : proposed (x :: past) ⊆ proposed (y :: x :: past) := fun h hh => by
    obtain ⟨z, hz, hh⟩ := mem_proposed.mp hh
    exact mem_proposed.mpr ⟨z, List.mem_cons_of_mem _ hz, hh⟩
  have h₁ := size_le_size hknown
  have h₂ := size_le_size hunknown
  have h₃ := Finset.card_le_card hsub
  have hgrow : (∃ h ∈ y.responder.theirKnown, h ∉ x.responder.theirKnown) →
      gained past x < gained (x :: past) y := fun ⟨h, hh, hn⟩ => by
    have := size_lt_size hknown hh hn
    unfold gained
    omega
  rcases hp with hops | hk | ⟨h, hh, hn⟩ | ⟨h, hh, hn⟩
  · obtain ⟨op, hop⟩ := List.exists_mem_of_ne_nil _ hops
    have hid : getHeaderId op.1 ∈ ids operations := List.mem_map_of_mem hop
    have hfresh := hr.prepares.fresh _ hid
    refine hgrow ⟨getHeaderId op.1, (hr.prepares.known _).mpr (Or.inr hid), fun hx => ?_⟩
    rw [theyKnow_iff.mpr (Or.inl (hr.learns.known _ hx))] at hfresh
    cases hfresh
  · exact hgrow hk
  · have := size_lt_size hunknown hh hn
    unfold gained
    omega
  · have hnew : h ∉ proposed (x :: past) := fun hmem => by
      obtain ⟨z, hz, hh⟩ := mem_proposed.mp hmem
      exact hn z hz hh
    have hin : h ∈ proposed (y :: x :: past) := mem_proposed.mpr ⟨y, List.mem_cons_self, hh⟩
    have hlt := Finset.card_lt_card ⟨hsub, fun hback => hnew (hback hin)⟩
    unfold gained
    omega

/-- Every round whose response is not empty meets the condition. -/
def Meets (s i : UntypedState HeaderId Header) : Prop :=
  ∀ past x y operations, Run s i past x → Round s x y operations → ¬ Quiet y operations →
    FirstUncut past x ∨ News s x

lemma Run.length_le_gained (hs : s.WellFormed) (hi : i.WellFormed) (ha : Agree s i)
    (hmeets : Meets s i)
    (hrun : Run s i past x) : past.length ≤ gained past x := by
  induction hrun with
  | start => simp
  | @round past x y operations hrun hround hq ih =>
    have hp := hrun.progresses hs hi ha hround hq (hmeets past x y operations hrun hround hq)
    obtain ⟨n, hn⟩ := hround
    obtain ⟨r, -, hr⟩ := round_spec hs (hrun.going hs hi ha) hn
    have := hr.gained_lt hp
    rw [List.length_cons]
    omega

lemma Run.firstUncut {z : Exchange HeaderId Header} {sent : List (Header × RawECGBody)}
    (hrun : Run s i past x) (hz : Round s (.start i) z sent)
    (hempty : ∀ e, e ∉ z.responder.havesQueue) : FirstUncut past x := by
  induction hrun with
  | start =>
    intro x₁ x₀ hsuf
    have hlen := hsuf.length_le
    simp at hlen
  | @round past x y operations hrun hround _ ih =>
    intro x₁ x₀ hsuf
    rcases List.suffix_cons_iff.mp hsuf with heq | hsuf
    · obtain ⟨rfl, rfl, rfl⟩ : x₁ = y ∧ x₀ = x ∧ past = [] := by
        simpa using heq
      cases hrun
      obtain ⟨rfl, -⟩ := Prod.mk.inj (hround.unique (steady_round _ s) hz)
      exact hempty
    · exact ih x₁ x₀ hsuf

lemma mem_nodes (hs : s.WellFormed) (hc : s.contains h) : h ∈ s.dependencyGraph.nodes := by
  obtain ⟨info, hinfo⟩ := UntypedState.contains_iff_getNode.mp hc
  exact List.mem_of_getElem? (hs.index hinfo)

lemma Run.contains (hs : s.WellFormed) (hi : i.WellFormed) (ha : Agree s i)
    (hrun : Run s i past x) (hc : x.ecg.contains h) : i.contains h ∨ s.contains h := by
  induction hrun with
  | start => exact Or.inl hc
  | @round past x y operations hrun hround _ ih =>
    have hx := hrun.going hs hi ha
    obtain ⟨n, hn⟩ := hround
    obtain ⟨r, -, hr⟩ := round_spec hs hx hn
    rcases (hr.receives hx).only h hc with hc | hids
    · exact ih hc
    · obtain ⟨op, hop, rfl⟩ := List.mem_map.mp hids
      obtain ⟨info, hinfo, -⟩ := hr.prepares.nodes op hop
      exact Or.inr (UntypedState.contains_iff_getNode.mpr ⟨info, hinfo⟩)

lemma Run.proposed_subset (hs : s.WellFormed) (hi : i.WellFormed) (ha : Agree s i)
    (hrun : Run s i past x) :
    proposed (x :: past) ⊆ s.dependencyGraph.nodes.toFinset := by
  have hown : ∀ {past x}, Run s i past x → ∀ h ∈ x.responder.sentHaves,
      h ∈ s.dependencyGraph.nodes.toFinset := fun hrun h hh =>
    List.mem_toFinset.mpr (mem_nodes hs ((hrun.going hs hi ha).inGraph.sent h hh))
  intro h hh
  induction hrun with
  | start =>
    obtain ⟨z, hz, hh⟩ := mem_proposed.mp hh
    obtain rfl := List.mem_singleton.mp hz
    exact hown .start h hh
  | @round past x y operations hrun hround hq ih =>
    obtain ⟨z, hz, hzh⟩ := mem_proposed.mp hh
    rcases List.mem_cons.mp hz with rfl | hz
    · exact hown (.round hrun hround hq) h hzh
    · exact ih (mem_proposed.mpr ⟨z, hz, hzh⟩)

lemma Run.gained_le (hs : s.WellFormed) (hi : i.WellFormed) (ha : Agree s i)
    (hrun : Run s i past x) : gained past x ≤
      2 * s.dependencyGraph.nodes.length + i.dependencyGraph.nodes.length := by
  have hx := hrun.going hs hi ha
  have h₁ : x.responder.theirKnown.size ≤ s.dependencyGraph.nodes.length :=
    size_le_length fun h hh => mem_nodes hs (hx.inGraph.known h hh)
  have h₂ : x.responder.ourUnknown.size ≤ i.dependencyGraph.nodes.length :=
    size_le_length fun h hh =>
      mem_nodes hi ((hrun.contains hs hi ha (hx.unknown h hh).2).resolve_right (hx.unknown h hh).1)
  have h₃ : (proposed (x :: past)).card ≤ s.dependencyGraph.nodes.length :=
    (Finset.card_le_card (hrun.proposed_subset hs hi ha)).trans (List.toFinset_card_le _)
  unfold gained
  omega

/-- From a bound on the length of runs: some run ends in an empty response. -/
lemma exists_quiet (hs : s.WellFormed) (hi : i.WellFormed) (ha : Agree s i) {N : ℕ}
    (hN : ∀ past x, Run s i past x → past.length ≤ N) :
    ∃ past x y, Run s i past x ∧ Round s x y [] ∧ y.responder.sentHaves = [] := by
  by_contra hno
  have hlong : ∀ n, ∃ past x, Run s i past x ∧ past.length = n := by
    intro n
    induction n with
    | zero => exact ⟨[], .start i, .start, rfl⟩
    | succ n ih =>
      obtain ⟨past, x, hrun, hlen⟩ := ih
      obtain ⟨y, operations, hround⟩ := returns_round hs (hrun.going hs hi ha)
      have hq : ¬ Quiet y operations := fun ⟨hnil, hsent⟩ =>
        hno ⟨past, x, y, hrun, hnil ▸ hround, hsent⟩
      exact ⟨x :: past, y, .round hrun hround hq, by simp [hlen]⟩
  obtain ⟨past, x, hrun, hlen⟩ := hlong (N + 1)
  have := hN past x hrun
  omega

/-- **Progress of an exchange**: in a run every response that is not empty progresses if its round
meets the condition, and if all such rounds do, the run falls quiet after finitely many. -/
theorem exchange_progresses (hs : s.WellFormed) (hi : i.WellFormed) (ha : Agree s i) :
    (∀ past x y operations, Run s i past x → Round s x y operations → ¬ Quiet y operations →
      FirstUncut past x ∨ News s x → Progresses past x y operations) ∧
    (Meets s i → ∃ past x y, Run s i past x ∧ Round s x y [] ∧ y.responder.sentHaves = [] ∧
      past.length ≤ 2 * s.dependencyGraph.nodes.length + i.dependencyGraph.nodes.length) := by
  refine ⟨fun past x y operations hrun hround hq hcond =>
    hrun.progresses hs hi ha hround hq hcond, fun hmeets => ?_⟩
  have hN : ∀ past x, Run s i past x →
      past.length ≤ 2 * s.dependencyGraph.nodes.length + i.dependencyGraph.nodes.length :=
    fun past x hrun => (hrun.length_le_gained hs hi ha hmeets).trans (hrun.gained_le hs hi ha)
  obtain ⟨past, x, y, hrun, hround, hq⟩ := exists_quiet hs hi ha hN
  exact ⟨past, x, y, hrun, hround, hq, hN past x hrun⟩

/-! The responder has a fork that is merged, and the initiator a root of its own. -/

section Narrow

open V0

def narrowResponder : UntypedState ℕ TestHeader :=
  insertAll .new [(⟨0, []⟩, []), (⟨1, [0]⟩, []), (⟨2, [0]⟩, []), (⟨3, [1, 2]⟩, [])]

def narrowInitiator : UntypedState ℕ TestHeader := insertAll .new [(⟨100, []⟩, [])]

lemma narrow_agree : Agree narrowResponder narrowInitiator := by
  have hs : accepted .new [((⟨0, []⟩ : TestHeader), ([] : RawECGBody)), (⟨1, [0]⟩, []),
      (⟨2, [0]⟩, []), (⟨3, [1, 2]⟩, [])] = [⟨0, []⟩, ⟨1, [0]⟩, ⟨2, [0]⟩, ⟨3, [1, 2]⟩] := by decide
  have hi : accepted .new [((⟨100, []⟩ : TestHeader), ([] : RawECGBody))] = [⟨100, []⟩] := by decide
  refine agree_of_records (records_insertAll _) (records_insertAll _) ?_
  rw [hs, hi]
  decide

/-- The second round, and the end of the exchange. -/
theorem exchange_progresses_narrow : ∃ first second,
    twoRounds 50 narrowResponder narrowInitiator = .ok (first, second) ∧ second.2 ≠ [] ∧
    Progresses [.start narrowInitiator] first.1 second.1 second.2 ∧
    ∃ past x y, Run narrowResponder narrowInitiator past x ∧ Round narrowResponder x y [] ∧
      y.responder.sentHaves = [] ∧ past.length ≤ 9 := by
  obtain ⟨⟨first, second⟩, htwo, h⟩ := exists_of_any (show
    (twoRounds 50 narrowResponder narrowInitiator).toOption.any (fun r =>
      r.1.1.responder.havesQueue.elems = [] ∧ r.1.1.responder.sentHaves ≠ [] ∧ r.2.2 ≠ []) = true by
    decide +kernel)
  obtain ⟨hnil, hhaves, hops⟩ := of_decide_eq_true h
  obtain ⟨hround₁, hround₂⟩ := rounds_of_twoRounds htwo
  have hempty : ∀ e, e ∉ first.1.responder.havesQueue := by
    intro e he
    change e ∈ first.1.responder.havesQueue.elems at he
    rw [hnil] at he
    cases he
  have hmeets : Meets narrowResponder narrowInitiator :=
    fun _ _ _ _ hrun _ _ => Or.inl (hrun.firstUncut hround₁ hempty)
  have hrun : Run narrowResponder narrowInitiator [.start narrowInitiator] first.1 :=
    .round .start hround₁ fun hq => hhaves hq.2
  have hsecond : ¬ Quiet second.1 second.2 := fun hq => hops hq.1
  obtain ⟨hprogress, hquiet⟩ :=
    exchange_progresses (records_insertAll _).wf (records_insertAll _).wf narrow_agree
  obtain ⟨past, x, y, hpast, hlast, hnil, hlen⟩ := hquiet hmeets
  exact ⟨first, second, htwo, hops,
    hprogress _ _ _ _ hrun hround₂ hsecond (hmeets _ _ _ _ hrun hround₂ hsecond),
    past, x, y, hpast, hlast, hnil, hlen⟩

end Narrow

/-! The responder has one root with thirty-three children, of which the initiator, with a root of
its own, has none. -/

section Wide

open V0

def wideResponder : UntypedState ℕ TestHeader :=
  insertAll .new ((⟨0, []⟩, []) :: (List.range 33).map fun k => (⟨k + 1, [0]⟩, []))

def wideInitiator : UntypedState ℕ TestHeader := insertAll .new [(⟨100, []⟩, [])]

lemma wide_agree : Agree wideResponder wideInitiator := by
  have hs : accepted .new (((⟨0, []⟩ : TestHeader), ([] : RawECGBody)) ::
      (List.range 33).map fun k => (⟨k + 1, [0]⟩, [])) =
        ⟨0, []⟩ :: (List.range 33).map fun k => ⟨k + 1, [0]⟩ := by decide +kernel
  have hi : accepted .new [((⟨100, []⟩ : TestHeader), ([] : RawECGBody))] = [⟨100, []⟩] := by decide
  refine agree_of_records (records_insertAll _) (records_insertAll _) ?_
  rw [hs, hi]
  decide

lemma wide_rounds : (twoRounds 200 wideResponder wideInitiator).toOption.any (fun r =>
    r.1.1.responder.sentHaves ≠ [] ∧
    r.2.1.responder.sentHaves = r.1.1.responder.sentHaves ∧
    r.2.1.responder.ourUnknown.toList = r.1.1.responder.ourUnknown.toList ∧
    r.2.1.responder.theirKnown.toList = [] ∧ r.2.2 = []) = true := by
  decide +kernel

/-- **A round may make no progress**: the second round proposes the same thirty-two children as
the first. -/
theorem round_without_progress : ¬ ∀ (s i : UntypedState ℕ TestHeader) past x y operations,
    s.WellFormed → i.WellFormed → Agree s i → Run s i past x → Round s x y operations →
      ¬ Quiet y operations → Progresses past x y operations := by
  intro hall
  obtain ⟨⟨first, second⟩, htwo, h⟩ := exists_of_any wide_rounds
  obtain ⟨hhaves, hsame, hunknown, hnil, hops'⟩ := of_decide_eq_true h
  obtain ⟨hround₁, hround₂⟩ := rounds_of_twoRounds htwo
  have hrun : Run wideResponder wideInitiator [.start wideInitiator] first.1 :=
    .round .start hround₁ fun hq => hhaves hq.2
  have hq : ¬ Quiet second.1 second.2 := fun hq => hhaves (hsame.symm.trans hq.2)
  rcases hall _ _ _ _ _ _ (records_insertAll _).wf (records_insertAll _).wf wide_agree hrun
    hround₂ hq with hops | ⟨h, hh, -⟩ | ⟨h, hh, hn⟩ | ⟨h, hh, hn⟩
  · exact hops hops'
  · rw [← Std.ExtTreeSet.mem_toList, hnil] at hh
    cases hh
  · rw [← Std.ExtTreeSet.mem_toList, hunknown, Std.ExtTreeSet.mem_toList] at hh
    exact hn hh
  · rw [hsame] at hh
    exact hn _ List.mem_cons_self hh

end Wide

end Ossa.EcgSync
