import Ossa.EcgInv
import Ossa.EcgSync

/-!
What each function of the responder does, and that it returns.

Each function gets one description of its result, used by every later proof in place of its
body, and one proof that some fuel is enough. The loops end because a header is only ever
replaced in a queue by its parents, or only ever by its children.
-/

namespace Ossa.EcgSync

open Ossa.Loop Ossa.Collections Ossa.Ecg

variable {HeaderId Header : Type} [LinearOrder HeaderId] [ECGHeader Header HeaderId]
  {s : UntypedState HeaderId Header} {known known' : BTreeSet HeaderId} {h : HeaderId}
  {n : ℕ}

/-! ### Marking as known -/

/-- What marking a header as known does. The walk goes up only from headers that were known
before, so an ancestor may be left out. -/
structure Marked (s : UntypedState HeaderId Header) (known : BTreeSet HeaderId) (h : HeaderId)
    (known' : BTreeSet HeaderId) : Prop where
  grows : ∀ x ∈ known, x ∈ known'
  self : h ∈ known'
  only : ∀ x ∈ known', x ∈ known ∨ s.AncestorOrSelf x h
  news : ∀ a, s.AncestorOrSelf a h → a ∉ known → ∃ x ∈ known', x ∉ known

omit [ECGHeader Header HeaderId] in
lemma markBody_of_not_mem (queue : List HeaderId) (hk : h ∉ known) :
    markBody s (h :: queue, known) = .ok (.next (queue, known.insert h)) := by
  simp [markBody, hk]

lemma markBody_of_mem (hs : s.WellFormed) (queue : List HeaderId) (hk : h ∈ known)
    {f : Flow (List HeaderId × BTreeSet HeaderId) (BTreeSet HeaderId)}
    (hf : markBody s (h :: queue, known) = .ok f) :
    ∃ ps, (∀ p, p ∈ ps ↔ s.Parent p h) ∧ f = .next (queue ++ ps, known.insert h) := by
  have hc : known.contains h = true := Std.ExtTreeSet.contains_iff_mem.mpr hk
  simp only [markBody, hc, Bool.not_true, Bool.not_false, if_true, bind_eq_ok, orFault_eq_ok,
    pure_eq_ok, Except.ok.injEq] at hf
  obtain ⟨ps, hps, rfl⟩ := hf
  obtain ⟨ps', hps', hmem⟩ := hs.parents (UntypedState.contains_of_getParents hps)
  obtain rfl : ps = ps' := Option.some.inj (hps.symm.trans hps')
  exact ⟨ps, hmem, rfl⟩

/-- The state of the walk from `h`. -/
structure Marking (s : UntypedState HeaderId Header) (known : BTreeSet HeaderId) (h : HeaderId)
    (w : List HeaderId × BTreeSet HeaderId) : Prop where
  grows : ∀ x ∈ known, x ∈ w.2
  self : h ∈ w.2 ∨ h ∈ w.1
  queued : ∀ x ∈ w.1, s.AncestorOrSelf x h
  only : ∀ x ∈ w.2, x ∈ known ∨ s.AncestorOrSelf x h
  news : (∃ a, s.AncestorOrSelf a h ∧ a ∉ known) → (∃ x ∈ w.2, x ∉ known) ∨
    ∃ x ∈ w.1, ∃ a, s.AncestorOrSelf a x ∧ a ∉ known

lemma Marking.step (hs : s.WellFormed) {w w' : List HeaderId × BTreeSet HeaderId}
    (hw : Marking s known h w) (hb : markBody s w = .ok (.next w')) : Marking s known h w' := by
  obtain ⟨queue, k⟩ := w
  cases queue with
  | nil => cases hb
  | cons x queue =>
    have hx := hw.queued x List.mem_cons_self
    have hself : h ∈ k.insert x ∨ h ∈ queue := by
      rcases hw.self with hk | hq
      · exact Or.inl (mem_insert.mpr (Or.inr hk))
      · rcases List.mem_cons.mp hq with rfl | hq
        · exact Or.inl (mem_insert.mpr (Or.inl rfl))
        · exact Or.inr hq
    have honly : ∀ y ∈ k.insert x, y ∈ known ∨ s.AncestorOrSelf y h := fun y hy => by
      rcases mem_insert.mp hy with rfl | hy
      · exact Or.inr hx
      · exact hw.only y hy
    have hgrows : ∀ y ∈ known, y ∈ k.insert x := fun y hy => mem_insert.mpr (Or.inr (hw.grows y hy))
    have hfirst : (∃ y ∈ k, y ∉ known) → ∃ y ∈ k.insert x, y ∉ known := fun ⟨y, hy, hn⟩ =>
      ⟨y, mem_insert.mpr (Or.inr hy), hn⟩
    by_cases hk : x ∈ k
    · obtain ⟨ps, hmem, heq⟩ := markBody_of_mem hs queue hk hb
      cases heq
      refine ⟨hgrows, hself.imp_right (List.mem_append_left _), fun y hy => ?_, honly,
        fun hnews => ?_⟩
      · rcases List.mem_append.mp hy with hy | hy
        · exact hw.queued y (List.mem_cons_of_mem _ hy)
        · exact .head ((hmem y).mp hy) hx
      · rcases hw.news hnews with hfst | ⟨y, hy, a, ha, hn⟩
        · exact Or.inl (hfirst hfst)
        · rcases List.mem_cons.mp hy with rfl | hy
          · -- A missing ancestor of a known header is one of a parent of it.
            rcases ha.cases_tail with rfl | ⟨p, ha, hp⟩
            · exact Or.inl ⟨_, mem_insert.mpr (Or.inl rfl), hn⟩
            · exact Or.inr ⟨p, List.mem_append_right _ ((hmem p).mpr hp), a, ha, hn⟩
          · exact Or.inr ⟨y, List.mem_append_left _ hy, a, ha, hn⟩
    · rw [markBody_of_not_mem queue hk] at hb
      cases hb
      refine ⟨hgrows, hself, fun y hy => hw.queued y (List.mem_cons_of_mem _ hy), honly,
        fun hnews => ?_⟩
      by_cases hxk : x ∈ known
      · exact absurd (hw.grows x hxk) hk
      · exact Or.inl ⟨x, mem_insert.mpr (Or.inl rfl), hxk⟩

/-- **Marking a header as known.** -/
theorem marked_of_eq (hs : s.WellFormed) (hm : markAsKnownHelper n s known h = .ok known') :
    Marked s known h known' := by
  have hinit : Marking s known h ([h], known) := by
    refine ⟨fun x hx => hx, Or.inr List.mem_cons_self, fun x hx => ?_, fun x hx => Or.inl hx,
      fun ⟨a, ha, hn⟩ => Or.inr ⟨h, List.mem_cons_self, a, ha, hn⟩⟩
    rw [List.mem_singleton.mp hx]
  obtain ⟨⟨queue, k⟩, -, hw, hd⟩ := loop_invariant hm hinit fun w w' hw => hw.step hs
  cases queue with
  | cons x queue =>
    by_cases hk : x ∈ k
    · obtain ⟨ps, -, heq⟩ := markBody_of_mem hs queue hk hd
      cases heq
    · rw [markBody_of_not_mem queue hk] at hd
      cases hd
  | nil =>
    cases hd
    refine ⟨hw.grows, hw.self.resolve_right List.not_mem_nil, hw.only, fun a ha hn => ?_⟩
    exact (hw.news ⟨a, ha, hn⟩).resolve_right fun ⟨x, hx, _⟩ => List.not_mem_nil hx

omit [ECGHeader Header HeaderId] in
lemma mark_of_not_mem (hk : h ∉ known) (hm : markAsKnownHelper n s known h = .ok known') :
    known' = known.insert h := by
  obtain ⟨m, rfl, hd | ⟨w, hw, hr⟩⟩ := loop_cases hm
  · rw [markBody_of_not_mem [] hk] at hd
    cases hd
  · rw [markBody_of_not_mem [] hk] at hw
    cases hw
    obtain ⟨m, rfl, hd | ⟨w, hw, hr⟩⟩ := loop_cases hr
    · cases hd; rfl
    · cases hw

omit [ECGHeader Header HeaderId] in
lemma steady_mark (s : UntypedState HeaderId Header) (known : BTreeSet HeaderId) (h : HeaderId) :
    Steady fun n => markAsKnownHelper n s known h :=
  Steady.loop (b := fun _ => markBody s) (fun _ => steady_const _) _

lemma returns_mark (hs : s.WellFormed) (known : BTreeSet HeaderId) (hc : s.contains h) :
    ∃ known', Returns (fun n => markAsKnownHelper n s known h) known' := by
  refine returns_loop (b := fun _ => markBody s) (fun _ => steady_const _)
    (I := fun w => ∀ x ∈ w.1, s.contains x)
    (InvImage.wf (fun w : List HeaderId × BTreeSet HeaderId => (w.1 : Multiset HeaderId))
      (smaller_wf s.rank)) (fun x hx => by rwa [List.mem_singleton.mp hx]) ?_
  rintro ⟨queue, k⟩ hq
  cases queue with
  | nil => exact Or.inl ⟨k, returns_ok _⟩
  | cons x queue =>
    right
    obtain ⟨ps, hps, hmem⟩ := hs.parents (hq x List.mem_cons_self)
    have htail : ∀ y ∈ queue, s.contains y := fun y hy => hq y (List.mem_cons_of_mem _ hy)
    by_cases hk : x ∈ k
    · refine ⟨(queue ++ ps, k.insert x), ⟨0, by simp [markBody, hk, hps]⟩, fun y hy => ?_, ?_⟩
      · rcases List.mem_append.mp hy with hy | hy
        · exact htail y hy
        · exact hs.closed ((hmem y).mp hy)
      · simpa [InvImage] using smaller_replace s.rank (a := x) (m := (ps : Multiset HeaderId)) queue
          fun y hy => hs.rank_lt_rank ((hmem y).mp hy)
    · refine ⟨(queue, k.insert x), ⟨0, markBody_of_not_mem queue hk⟩, htail, ?_⟩
      simpa [InvImage] using smaller_replace s.rank (a := x) (m := 0) (queue : Multiset HeaderId)
        (by simp)

/-! ### Learning what they know -/

variable {r r' r'' : ECGSyncResponder HeaderId} {src src' : HeaderId → Prop}

/-- A header waits in the send queue. -/
def Queued (r : ECGSyncResponder HeaderId) (h : HeaderId) : Prop :=
  ∃ d, sendEntry d h ∈ r.sendQueue

omit [ECGHeader Header HeaderId] in
lemma theyKnow_iff : r.theyKnow h ↔ h ∈ r.theirKnown ∨ h ∈ r.ourUnknown := by
  simp [ECGSyncResponder.theyKnow]

/-- What the responder holds is in the graph, with the depths it has there. -/
structure InGraph (s : UntypedState HeaderId Header) (r : ECGSyncResponder HeaderId) : Prop where
  known : ∀ h ∈ r.theirKnown, s.contains h
  send : ∀ d h, sendEntry d h ∈ r.sendQueue → s.getHeaderDepth h = some d
  sent : ∀ h ∈ r.sentHaves, s.contains h
  haves : ∀ b d h k, haveEntry b d h k ∈ r.havesQueue → s.getHeaderDepth h = some d

/-- From `r` to `r'` the responder learns only that they know the headers `src`. -/
structure Learns (s : UntypedState HeaderId Header) (src : HeaderId → Prop)
    (r r' : ECGSyncResponder HeaderId) : Prop where
  known : ∀ h ∈ r.theirKnown, h ∈ r'.theirKnown
  knownOnly : ∀ h ∈ r'.theirKnown, h ∈ r.theirKnown ∨
    ∃ t, src t ∧ s.contains t ∧ s.AncestorOrSelf h t
  unknown : ∀ h ∈ r.ourUnknown, h ∈ r'.ourUnknown
  unknownOnly : ∀ h ∈ r'.ourUnknown, h ∈ r.ourUnknown ∨ src h ∧ ¬ s.contains h
  send : ∀ d h, sendEntry d h ∈ r.sendQueue → sendEntry d h ∈ r'.sendQueue
  sendOnly : ∀ d h, sendEntry d h ∈ r'.sendQueue → sendEntry d h ∈ r.sendQueue ∨
    s.getHeaderDepth h = some d
  sentHaves : r'.sentHaves = r.sentHaves
  havesQueue : r'.havesQueue = r.havesQueue

lemma Learns.refl (s : UntypedState HeaderId Header) (src : HeaderId → Prop)
    (r : ECGSyncResponder HeaderId) : Learns s src r r :=
  ⟨fun _ h => h, fun _ h => Or.inl h, fun _ h => h, fun _ h => Or.inl h, fun _ _ h => h,
    fun _ _ h => Or.inl h, rfl, rfl⟩

lemma Learns.trans (h₁ : Learns s src r r') (h₂ : Learns s src r' r'') : Learns s src r r'' where
  known h hh := h₂.known h (h₁.known h hh)
  knownOnly h hh := (h₂.knownOnly h hh).elim (h₁.knownOnly h) Or.inr
  unknown h hh := h₂.unknown h (h₁.unknown h hh)
  unknownOnly h hh := (h₂.unknownOnly h hh).elim (h₁.unknownOnly h) Or.inr
  send d h hh := h₂.send d h (h₁.send d h hh)
  sendOnly d h hh := (h₂.sendOnly d h hh).elim (h₁.sendOnly d h) Or.inr
  sentHaves := h₂.sentHaves.trans h₁.sentHaves
  havesQueue := h₂.havesQueue.trans h₁.havesQueue

lemma Learns.mono (hl : Learns s src r r') (hsrc : ∀ h, src h → src' h) : Learns s src' r r' :=
  { hl with
    knownOnly := fun h hh => (hl.knownOnly h hh).imp_right fun ⟨t, ht⟩ => ⟨t, hsrc t ht.1, ht.2⟩
    unknownOnly := fun h hh => (hl.unknownOnly h hh).imp_right fun ht => ⟨hsrc h ht.1, ht.2⟩ }

lemma Learns.inGraph (hs : s.WellFormed) (hl : Learns s src r r') (hr : InGraph s r) :
    InGraph s r' where
  known h hh := by
    rcases hl.knownOnly h hh with hh | ⟨t, -, ht, ha⟩
    · exact hr.known h hh
    · exact ha.contains hs ht
  send d h hh := (hl.sendOnly d h hh).elim (hr.send d h) id
  sent := by rw [hl.sentHaves]; exact hr.sent
  haves := by rw [hl.havesQueue]; exact hr.haves

lemma Learns.queued (hl : Learns s src r r') (hq : Queued r h) : Queued r' h :=
  hq.imp fun d hd => hl.send d h hd

lemma Learns.theyKnow (hl : Learns s src r r') (hk : r.theyKnow h) : r'.theyKnow h := by
  rw [theyKnow_iff] at hk ⊢
  exact hk.imp (hl.known h) (hl.unknown h)

omit [ECGHeader Header HeaderId] in
lemma mem_enqueue {l : List (ℕ × HeaderId)} {d : ℕ} :
    sendEntry d h ∈ (r.enqueue l).sendQueue ↔ sendEntry d h ∈ r.sendQueue ∨ (d, h) ∈ l := by
  simp only [ECGSyncResponder.enqueue, BinaryHeap.mem_extend, List.mem_map, Prod.exists, sendEntry,
    toLex_inj, Prod.mk.injEq, OrderDual.toDual_inj]
  grind

lemma learns_enqueue {l : List (ℕ × HeaderId)}
    (hl : ∀ d h, (d, h) ∈ l → s.getHeaderDepth h = some d) : Learns s src r (r.enqueue l) :=
  { Learns.refl s src r with
    send := fun _ _ h => mem_enqueue.mpr (Or.inl h)
    sendOnly := fun d h hh => (mem_enqueue.mp hh).imp_right (hl d h) }

/-- They know `t`, as far as the responder can tell from its own graph. -/
structure Heard (s : UntypedState HeaderId Header) (r : ECGSyncResponder HeaderId) (t : HeaderId) :
    Prop where
  known : s.contains t → t ∈ r.theirKnown
  children : s.contains t → ∀ c, s.Parent t c → Queued r c
  unknown : ¬ s.contains t → t ∈ r.ourUnknown

lemma Heard.mono {t : HeaderId} (hl : Learns s src r r') (h : Heard s r t) : Heard s r' t where
  known hc := hl.known t (h.known hc)
  children hc c hp := hl.queued (h.children hc c hp)
  unknown hc := hl.unknown t (h.unknown hc)

omit [ECGHeader Header HeaderId] in
lemma markAsKnown_eq (h' : r.markAsKnown n s h = .ok r') :
    ∃ k, markAsKnownHelper n s r.theirKnown h = .ok k ∧ r' = { r with theirKnown := k } := by
  obtain ⟨k, hk, hr⟩ := bind_eq_ok.mp h'
  cases hr
  exact ⟨k, hk, rfl⟩

lemma markAsKnown_learns (hs : s.WellFormed) (hc : s.contains h)
    (h' : r.markAsKnown n s h = .ok r') : Learns s (· = h) r r' := by
  obtain ⟨k, hk, rfl⟩ := markAsKnown_eq h'
  have hm := marked_of_eq hs hk
  exact { Learns.refl s (· = h) r with
    known := hm.grows
    knownOnly := fun x hx => (hm.only x hx).imp_right fun ha => ⟨h, rfl, hc, ha⟩ }

lemma enqueueChildren_spec (hs : s.WellFormed) {msg : String}
    (h' : r.enqueueChildren s msg h = .ok r') :
    s.contains h ∧ ∃ cs, r' = r.enqueue cs ∧
      ∀ d c, (d, c) ∈ cs ↔ s.Parent h c ∧ s.getHeaderDepth c = some d := by
  obtain ⟨cs, hcs, hr⟩ := bind_eq_ok.mp h'
  cases hr
  rw [orFault_eq_ok] at hcs
  have hc := UntypedState.contains_of_getChildrenWithDepth hcs
  obtain ⟨cs', hcs', hmem⟩ := hs.childrenWithDepth hc
  obtain rfl : cs = cs' := Option.some.inj (hcs.symm.trans hcs')
  exact ⟨hc, cs, rfl, hmem⟩

lemma heard_of_mark (hs : s.WellFormed) {msg : String}
    (h' : (r.markAsKnown n s h >>= fun r => r.enqueueChildren s msg h) = .ok r') :
    Learns s (· = h) r r' ∧ Heard s r' h ∧
      ∀ a, s.AncestorOrSelf a h → a ∉ r.theirKnown → ∃ x ∈ r'.theirKnown, x ∉ r.theirKnown := by
  obtain ⟨r₁, h₁, h₂⟩ := bind_eq_ok.mp h'
  have hl₁ := markAsKnown_learns hs (enqueueChildren_spec hs h₂).1 h₁
  obtain ⟨k, hk, rfl⟩ := markAsKnown_eq h₁
  obtain ⟨hc, cs, rfl, hcs⟩ := enqueueChildren_spec hs h₂
  have hl₂ : Learns s (· = h) { r with theirKnown := k } ({ r with theirKnown := k }.enqueue cs) :=
    learns_enqueue fun d c hdc => ((hcs d c).mp hdc).2
  refine ⟨hl₁.trans hl₂, ⟨fun _ => (marked_of_eq hs hk).self, fun _ c hp => ?_,
    fun hn => absurd hc hn⟩, (marked_of_eq hs hk).news⟩
  obtain ⟨d, hd⟩ := UntypedState.contains_iff_depth.mp hp.contains
  exact ⟨d, mem_enqueue.mpr (Or.inr ((hcs d c).mpr ⟨hp, hd⟩))⟩

lemma handleTheirTip_spec (hs : s.WellFormed) (h' : r.handleTheirTip n s h = .ok r') :
    Learns s (· = h) r r' ∧ Heard s r' h ∧ (s.contains h → ∀ a, s.AncestorOrSelf a h →
      a ∉ r.theirKnown → ∃ x ∈ r'.theirKnown, x ∉ r.theirKnown) := by
  unfold ECGSyncResponder.handleTheirTip at h'
  split_ifs at h' with hc
  · obtain ⟨hl, hh, hnews⟩ := heard_of_mark hs h'
    exact ⟨hl, hh, fun _ => hnews⟩
  · cases h'
    refine ⟨{ Learns.refl s (· = h) r with
      unknown := fun x hx => mem_insert.mpr (Or.inr hx)
      unknownOnly := fun x hx => ?_ }, ⟨fun hn => absurd hn hc, fun hn => absurd hn hc,
        fun _ => ?_⟩, fun hn => absurd hn hc⟩
    · rcases mem_insert.mp hx with rfl | hx
      · exact Or.inr ⟨rfl, hc⟩
      · exact Or.inl hx
    · exact mem_insert.mpr (Or.inl rfl)

lemma getRootNodesWithDepth_spec (hs : s.WellFormed) (d : ℕ)
    (hh : (d, h) ∈ s.getRootNodesWithDepth) : s.getHeaderDepth h = some d := by
  obtain ⟨h, hmem, rfl, rfl⟩ : ∃ x ∈ s.rootNodes, 1 = d ∧ x = h := by
    simpa [UntypedState.getRootNodesWithDepth] using hh
  obtain ⟨info, hinfo, hnil⟩ := hs.roots.mp hmem
  obtain ⟨infos, hm, hd⟩ := hs.depth hinfo
  rw [hnil] at hm
  cases hm
  simp [UntypedState.getHeaderDepth, hinfo, hd, UntypedState.depthFor]

/-- What the responder takes from their tips. -/
structure HearsTips (s : UntypedState HeaderId Header) (tips : List HeaderId)
    (r r' : ECGSyncResponder HeaderId) : Prop where
  learns : Learns s (· ∈ tips) r r'
  heard : ∀ t ∈ tips, Heard s r' t
  roots : tips = [] → ∀ h ∈ s.rootNodes, Queued r' h
  news : ∀ t ∈ tips, s.contains t → ∀ a, s.AncestorOrSelf a t → a ∉ r.theirKnown →
    ∃ x ∈ r'.theirKnown, x ∉ r.theirKnown

/-- **What the responder learns from their tips.** -/
theorem handleTheirTips_spec (hs : s.WellFormed) {tips : List HeaderId}
    (h' : r.handleTheirTips n s tips = .ok r') : HearsTips s tips r r' := by
  unfold ECGSyncResponder.handleTheirTips at h'
  let Said (t : HeaderId) (u : ECGSyncResponder HeaderId) : Prop :=
    Heard s u t ∧ (s.contains t → ∀ a, s.AncestorOrSelf a t → a ∉ r.theirKnown →
      ∃ x ∈ u.theirKnown, x ∉ r.theirKnown)
  have hmono : ∀ t u v, Learns s (· ∈ tips) u v → Said t u → Said t v := fun t u v hl hu =>
    ⟨hu.1.mono hl, fun hc a ha hn => (hu.2 hc a ha hn).imp fun x hx => ⟨hl.known x hx.1, hx.2⟩⟩
  have hstep : ∀ u v, ∀ t ∈ tips, (∀ x ∈ r.theirKnown, x ∈ u.theirKnown) →
      u.handleTheirTip n s t = .ok v → Learns s (· ∈ tips) u v ∧ Said t v := by
    intro u v t ht hu hv
    obtain ⟨hl, hh, hnews⟩ := handleTheirTip_spec hs hv
    refine ⟨hl.mono fun x hx => hx ▸ ht, hh, fun hc a ha hn => ?_⟩
    by_cases hau : a ∈ u.theirKnown
    · exact ⟨a, hl.known a hau, hn⟩
    · obtain ⟨x, hx, hxu⟩ := hnews hc a ha hau
      exact ⟨x, hx, fun hxr => hxu (hu x hxr)⟩
  have hstart : ∀ x ∈ r.theirKnown, x ∈ (if tips.isEmpty then r.enqueue s.getRootNodesWithDepth
      else r).theirKnown := by
    split_ifs <;> exact fun x hx => hx
  obtain ⟨hl, hall⟩ := foldlM_each (R := Learns s (· ∈ tips)) (P := Said)
    (z := if tips.isEmpty then r.enqueue s.getRootNodesWithDepth else r)
    (Learns.refl s _) (fun _ _ _ => Learns.trans) hmono
    (Learns.refl s _ _) h' fun u v t ht hu hv =>
      hstep u v t ht (fun x hx => hu.known x (hstart x hx)) hv
  cases tips with
  | nil =>
    refine ⟨Learns.trans (learns_enqueue fun d h hh => getRootNodesWithDepth_spec hs d hh) hl,
      by simp, fun _ h hh => ?_, by simp⟩
    refine hl.queued ⟨1, mem_enqueue.mpr (Or.inr ?_)⟩
    simpa [UntypedState.getRootNodesWithDepth] using hh
  | cons t tips => exact ⟨hl, fun t ht => (hall t ht).1, by simp, fun t ht => (hall t ht).2⟩

lemma handleClaim_spec (hs : s.WellFormed) {b : Bool} (h' : r.handleClaim n s b h = .ok r') :
    Learns s (fun x => x = h ∧ b = true) r r' ∧ (b = true → Heard s r' h) ∧
      (b = false → (∀ p, s.Parent p h → p ∈ r.theirKnown) → Queued r' h) := by
  unfold ECGSyncResponder.handleClaim at h'
  cases b with
  | true =>
    obtain ⟨hl, hh, -⟩ := heard_of_mark hs h'
    exact ⟨hl.mono fun x hx => ⟨hx, rfl⟩, fun _ => hh, fun hb => by cases hb⟩
  | false =>
    simp only [Bool.false_eq_true, if_false] at h'
    obtain ⟨ps, hps, h'⟩ := bind_eq_ok.mp h'
    rw [orFault_eq_ok] at hps
    have hc := UntypedState.contains_of_getParents hps
    obtain ⟨ps', hps', hmem⟩ := hs.parents hc
    obtain rfl : ps = ps' := Option.some.inj (hps.symm.trans hps')
    by_cases hcond : s.isRootNode h || ps.all fun p => r.theirKnown.contains p
    · rw [if_pos hcond] at h'
      obtain ⟨d, hd, h'⟩ := bind_eq_ok.mp h'
      cases h'
      rw [orFault_eq_ok] at hd
      refine ⟨{ Learns.refl s _ r with
        send := fun x d hx => BinaryHeap.mem_push.mpr (Or.inr hx)
        sendOnly := fun x d' hx => ?_ }, by simp, fun _ _ => ⟨d, BinaryHeap.mem_push.mpr (Or.inl rfl)⟩⟩
      rcases BinaryHeap.mem_push.mp hx with heq | hx
      · have := toLex_inj.mp heq
        simp only [Prod.mk.injEq, OrderDual.toDual_inj] at this
        exact Or.inr (by rw [this.1, this.2]; exact hd)
      · exact Or.inl hx
    · rw [if_neg hcond] at h'
      cases h'
      refine ⟨Learns.refl s _ _, by simp, fun _ hall => absurd ?_ hcond⟩
      rw [Bool.or_eq_true]
      refine Or.inr (List.all_eq_true.mpr fun p hp => ?_)
      exact Std.ExtTreeSet.contains_iff_mem.mpr (hall p ((hmem p).mp hp))

/-- The headers of `r.sentHaves` that a bitmap claims. -/
def Claimed (r : ECGSyncResponder HeaderId) (known : HeaderBitmap) (h : HeaderId) : Prop :=
  ∃ i : ℕ, r.sentHaves[i]? = some h ∧ known[i]? = some true

/-- What the responder takes from a bitmap about the headers it proposed. -/
structure HearsBits (s : UntypedState HeaderId Header) (bits : HeaderBitmap)
    (r r' : ECGSyncResponder HeaderId) : Prop where
  learns : Learns s (Claimed r bits) r r'
  claimed : ∀ (i : ℕ) h, r.sentHaves[i]? = some h → bits[i]? = some true → Heard s r' h
  unclaimed : ∀ (i : ℕ) h, r.sentHaves[i]? = some h → bits[i]? = some false →
    (∀ p, s.Parent p h → p ∈ r.theirKnown) → Queued r' h

/-- **What the responder learns from their bitmap**: each bit is read against the header that
was proposed at its position. -/
theorem handleTheirKnown_spec (hs : s.WellFormed) {bits : HeaderBitmap}
    (h' : r.handleTheirKnown n s bits = .ok r') : HearsBits s bits r r' := by
  unfold ECGSyncResponder.handleTheirKnown at h'
  let Read (a : HeaderId × ℕ) (u : ECGSyncResponder HeaderId) : Prop :=
    (bits[a.2]? = some true → Heard s u a.1) ∧
      (bits[a.2]? = some false → (∀ p, s.Parent p a.1 → p ∈ r.theirKnown) → Queued u a.1)
  have hmono : ∀ a u v, Learns s (Claimed r bits) u v → Read a u → Read a v := fun _ _ _ hl hh =>
    ⟨fun hb => (hh.1 hb).mono hl, fun hb hp => hl.queued (hh.2 hb hp)⟩
  have hstep : ∀ u v, ∀ a ∈ r.sentHaves.zipIdx, Learns s (Claimed r bits) r u →
      (do
        let theyKnow ← orFault (.expect "Unreachable since we're iterating on the headers we sent.")
          bits[a.2]?
        u.handleClaim n s theyKnow a.1) = .ok v → Learns s (Claimed r bits) u v ∧ Read a v := by
    rintro u v ⟨x, i⟩ hx hu hv
    have hi := List.mem_zipIdx_iff_getElem?.mp hx
    obtain ⟨b, hb, hv⟩ := bind_eq_ok.mp hv
    rw [orFault_eq_ok] at hb
    obtain ⟨hl, htrue, hfalse⟩ := handleClaim_spec hs hv
    refine ⟨hl.mono ?_, fun hb' => htrue (Option.some.inj (hb.symm.trans hb')),
      fun hb' hp => hfalse (Option.some.inj (hb.symm.trans hb')) fun p hpp => hu.known p (hp p hpp)⟩
    rintro y ⟨rfl, rfl⟩
    exact ⟨i, hi, hb⟩
  obtain ⟨hl, hall⟩ := foldlM_each (P := Read) (Learns.refl s _) (fun _ _ _ => Learns.trans) hmono
    (Learns.refl s _ r) h' hstep
  have hread : ∀ (i : ℕ) h, r.sentHaves[i]? = some h → Read (h, i) r' := fun i h hi =>
    hall (h, i) (List.mem_zipIdx_iff_getElem?.mpr hi)
  exact ⟨hl, fun i h hi => (hread i h hi).1, fun i h hi => (hread i h hi).2⟩

/-- What the responder learns from an update of its own graph. -/
structure Resolves (s : UntypedState HeaderId Header) (r r' : ECGSyncResponder HeaderId) :
    Prop where
  known : ∀ h ∈ r.theirKnown, h ∈ r'.theirKnown
  knownOnly : ∀ h ∈ r'.theirKnown, h ∈ r.theirKnown ∨
    ∃ t ∈ r.ourUnknown, s.contains t ∧ s.AncestorOrSelf h t
  resolved : ∀ h ∈ r.ourUnknown, s.contains h → h ∈ r'.theirKnown
  unknown : ∀ h, h ∈ r'.ourUnknown ↔ h ∈ r.ourUnknown ∧ ¬ s.contains h
  sendQueue : r'.sendQueue = r.sendQueue
  sentHaves : r'.sentHaves = r.sentHaves
  havesQueue : r'.havesQueue = r.havesQueue

theorem updateOurUnknown_spec (hs : s.WellFormed) (h' : r.updateOurUnknown n s = .ok r') :
    Resolves s r r' := by
  obtain ⟨k, hk, hr⟩ := bind_eq_ok.mp h'
  cases hr
  have hfound : ∀ h, h ∈ r.ourUnknown.toList.filter s.contains ↔ h ∈ r.ourUnknown ∧ s.contains h := by
    simp
  obtain ⟨⟨hgrow, honly⟩, hall⟩ := foldlM_each (P := fun h k => h ∈ k) (z := r.theirKnown)
    (R := fun k k' => (∀ x ∈ k, x ∈ k') ∧ ∀ x ∈ k', x ∈ k ∨
      ∃ t ∈ r.ourUnknown, s.contains t ∧ s.AncestorOrSelf x t)
    (fun _ => ⟨fun _ h => h, fun _ h => Or.inl h⟩)
    (fun _ _ _ h₁ h₂ => ⟨fun x hx => h₂.1 x (h₁.1 x hx), fun x hx =>
      (h₂.2 x hx).elim (h₁.2 x) Or.inr⟩)
    (fun _ _ _ h hx => h.1 _ hx) ⟨fun _ h => h, fun _ h => Or.inl h⟩ hk
    fun u v t ht _ hv => by
      have hm := marked_of_eq hs hv
      obtain ⟨hmem, hc⟩ := (hfound t).mp ht
      exact ⟨⟨hm.grows, fun x hx => (hm.only x hx).imp_right fun ha => ⟨t, hmem, hc, ha⟩⟩, hm.self⟩
  refine ⟨hgrow, honly, fun h hh hc => hall h ((hfound h).mpr ⟨hh, hc⟩), fun h => ?_, rfl, rfl, rfl⟩
  rw [mem_foldl_erase, hfound]
  tauto

/-! ### Enough fuel -/

section Steady

omit [ECGHeader Header HeaderId]

variable (s : UntypedState HeaderId Header) (r : ECGSyncResponder HeaderId) (h : HeaderId)

lemma steady_markAsKnown : Steady fun n => r.markAsKnown n s h :=
  (steady_mark s _ h).bind fun _ => steady_const _

lemma steady_handleTheirTip : Steady fun n => r.handleTheirTip n s h :=
  .ite ((steady_markAsKnown s r h).bind fun _ => steady_const _) (steady_const _)

lemma steady_handleTheirTips (tips : List HeaderId) : Steady fun n => r.handleTheirTips n s tips :=
  Steady.foldlM (fun r h => steady_handleTheirTip s r h) _ _

lemma steady_handleClaim (b : Bool) : Steady fun n => r.handleClaim n s b h :=
  .ite ((steady_markAsKnown s r h).bind fun _ => steady_const _) (steady_const _)

lemma steady_handleTheirKnown (bits : HeaderBitmap) :
    Steady fun n => r.handleTheirKnown n s bits :=
  Steady.foldlM (fun r _ => (steady_const _).bind fun b => steady_handleClaim s r _ b) _ _

lemma steady_updateOurUnknown : Steady fun n => r.updateOurUnknown n s :=
  (Steady.foldlM (fun k h => steady_mark s k h) _ _).bind fun _ => steady_const _

end Steady

lemma returns_markAsKnown (hs : s.WellFormed) (hc : s.contains h) :
    ∃ r', Returns (fun n => r.markAsKnown n s h) r' := by
  obtain ⟨k, hk⟩ := returns_mark hs r.theirKnown hc
  exact ⟨_, hk.bind (steady_mark s _ h) (steady_const _) (returns_ok _)⟩

lemma returns_enqueueChildren (hs : s.WellFormed) (msg : String) (hc : s.contains h) :
    ∃ r', Returns (fun _ => r.enqueueChildren s msg h) r' := by
  obtain ⟨cs, hcs, -⟩ := hs.childrenWithDepth hc
  exact ⟨r.enqueue cs, 0, by simp [ECGSyncResponder.enqueueChildren, hcs]⟩

lemma returns_hear (hs : s.WellFormed) (msg : String) (hc : s.contains h) :
    ∃ r', Returns (fun n => r.markAsKnown n s h >>= fun r => r.enqueueChildren s msg h) r' := by
  obtain ⟨r₁, h₁⟩ := returns_markAsKnown (r := r) hs hc
  obtain ⟨r₂, h₂⟩ := returns_enqueueChildren (r := r₁) hs msg hc
  exact ⟨r₂, h₁.bind (steady_markAsKnown s r h) (steady_const _) h₂⟩

theorem returns_handleTheirTips (hs : s.WellFormed) (tips : List HeaderId) :
    ∃ r', Returns (fun n => r.handleTheirTips n s tips) r' := by
  have hstep : ∀ u : ECGSyncResponder HeaderId, ∀ t ∈ tips, True →
      ∃ v, Returns (fun n => u.handleTheirTip n s t) v ∧ True := by
    intro u t _ _
    by_cases hc : s.contains t
    · obtain ⟨v, hv⟩ := returns_hear (r := u) hs "Unreachable since we have this header." hc
      exact ⟨v, by simpa [ECGSyncResponder.handleTheirTip, hc] using hv, trivial⟩
    · exact ⟨_, by simpa [ECGSyncResponder.handleTheirTip, hc] using returns_ok _, trivial⟩
  obtain ⟨r', h', -⟩ := returns_foldlM (I := fun _ => True)
    (fun r h => steady_handleTheirTip s r h) tips
    (s := if tips.isEmpty then r.enqueue s.getRootNodesWithDepth else r) trivial hstep
  exact ⟨r', h'⟩

lemma returns_handleClaim (hs : s.WellFormed) (b : Bool) (hc : s.contains h) :
    ∃ r', Returns (fun n => r.handleClaim n s b h) r' := by
  cases b with
  | true =>
    obtain ⟨v, hv⟩ := returns_hear (r := r) hs "Unreachable since we sent this header." hc
    exact ⟨v, by simpa [ECGSyncResponder.handleClaim] using hv⟩
  | false =>
    obtain ⟨ps, hps, -⟩ := hs.parents hc
    obtain ⟨d, hd⟩ := UntypedState.contains_iff_depth.mp hc
    unfold ECGSyncResponder.handleClaim
    simp only [Bool.false_eq_true, if_false, hps, orFault_some, ok_bind, hd]
    split_ifs
    · exact ⟨_, returns_ok _⟩
    · exact ⟨_, returns_ok _⟩

theorem returns_handleTheirKnown (hs : s.WellFormed) (hr : InGraph s r)
    (hlen : r.sentHaves.length ≤ maxHaveHeaders) (bits : HeaderBitmap) :
    ∃ r', Returns (fun n => r.handleTheirKnown n s bits) r' := by
  have hstep : ∀ u : ECGSyncResponder HeaderId, ∀ a ∈ r.sentHaves.zipIdx, True →
      ∃ v, Returns (fun n => do
        let theyKnow ← orFault (.expect "Unreachable since we're iterating on the headers we sent.")
          bits[a.2]?
        u.handleClaim n s theyKnow a.1) v ∧ True := by
    rintro u ⟨x, i⟩ hx -
    have hi := List.mem_zipIdx_iff_getElem?.mp hx
    obtain ⟨hlt, -⟩ := List.getElem?_eq_some_iff.mp hi
    have hb : bits[i]? = some bits[i] := Vector.getElem?_eq_getElem (by omega)
    obtain ⟨v, hv⟩ := returns_handleClaim (r := u) hs bits[i]
      (hr.sent x (List.mem_of_getElem? hi))
    exact ⟨v, by simpa only [hb, orFault_some, ok_bind] using hv, trivial⟩
  obtain ⟨r', h', -⟩ := returns_foldlM (I := fun _ => True)
    (fun r a => (steady_const _).bind fun b => steady_handleClaim s r a.1 b) r.sentHaves.zipIdx
    (s := r) trivial hstep
  exact ⟨r', h'⟩

theorem returns_updateOurUnknown (hs : s.WellFormed) :
    ∃ r', Returns (fun n => r.updateOurUnknown n s) r' := by
  obtain ⟨k, hk, -⟩ := returns_foldlM (I := fun _ => True) (fun k h => steady_mark s k h)
    (r.ourUnknown.toList.filter s.contains) (s := r.theirKnown) trivial fun k t ht _ => by
      obtain ⟨k', hk'⟩ := returns_mark hs k (List.mem_filter.mp ht).2
      exact ⟨k', hk', trivial⟩
  exact ⟨_, hk.bind (Steady.foldlM (fun k h => steady_mark s k h) _ _) (steady_const _)
    (returns_ok _)⟩

end Ossa.EcgSync
