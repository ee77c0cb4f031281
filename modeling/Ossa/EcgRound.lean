import Ossa.EcgSyncLoops

/-!
One round of the sync, seen from both sides.

The bitmap of the initiator is about the headers last proposed to it, and what the responder
concludes from tips and bits is right because both sides have the same header behind an id.
-/

namespace Ossa.EcgSync

open Ossa.Loop Ossa.Collections Ossa.Ecg

variable {HeaderId Header : Type} [LinearOrder HeaderId]

/-! ### The bitmap -/

/-- The bits of `bits` that are not set in `bits'` are of headers of the list. -/
structure BitsGrow (s : UntypedState HeaderId Header) (haves : List HeaderId)
    (bits bits' : HeaderBitmap) : Prop where
  keep : ∀ j : ℕ, bits[j]? = some true → bits'[j]? = some true
  only : ∀ j : ℕ, bits'[j]? = some true → bits[j]? = some true ∨
    ∃ h, haves[j]? = some h ∧ s.contains h

variable {s : UntypedState HeaderId Header} {haves : List HeaderId} {bits bits' : HeaderBitmap}

lemma bitsGrow_set {i : ℕ} {h : HeaderId} (hi : i < maxHaveHeaders) (hh : haves[i]? = some h)
    (hc : s.contains h) : BitsGrow s haves bits (bits.set i true) where
  keep j hj := by
    rw [Vector.getElem?_set]
    split_ifs
    · rfl
    · exact hj
  only j hj := by
    rw [Vector.getElem?_set] at hj
    split_ifs at hj with heq
    · exact Or.inr ⟨h, heq ▸ hh, hc⟩
    · exact Or.inl hj

/-- **The bitmap of the initiator**: it says of each proposed header whether the initiator
has it. -/
theorem knownBitmap_spec (h' : ECGSyncInitiator.knownBitmap ⟨haves⟩ s = .ok bits) (i : ℕ)
    (h : HeaderId) (hi : haves[i]? = some h) : bits[i]? = some true ↔ s.contains h := by
  have hstep : ∀ (u v : HeaderBitmap), ∀ a ∈ haves.zipIdx, setKnown s u a = .ok v →
      BitsGrow s haves u v ∧ (s.contains a.1 → v[a.2]? = some true) := by
    rintro u v ⟨x, j⟩ ha hv
    have hj := List.mem_zipIdx_iff_getElem?.mp ha
    rw [setKnown] at hv
    by_cases hc : s.contains x
    · rw [if_pos hc] at hv
      split_ifs at hv with hlt
      cases hv
      exact ⟨bitsGrow_set hlt hj hc, fun _ => by simp [hlt]⟩
    · rw [if_neg hc] at hv
      cases hv
      exact ⟨⟨fun _ h => h, fun _ h => Or.inl h⟩, fun hc' => absurd hc' hc⟩
  obtain ⟨hgrow, hall⟩ := foldlM_each (R := BitsGrow s haves)
    (z := Vector.replicate maxHaveHeaders false)
    (P := fun (a : HeaderId × ℕ) (bits : HeaderBitmap) => s.contains a.1 → bits[a.2]? = some true)
    (fun _ => ⟨fun _ h => h, fun _ h => Or.inl h⟩)
    (fun _ _ _ h₁ h₂ => ⟨fun j hj => h₂.keep j (h₁.keep j hj), fun j hj =>
      (h₂.only j hj).elim (h₁.only j) Or.inr⟩)
    (fun a _ _ hb hP hc => hb.keep a.2 (hP hc))
    ⟨fun _ h => h, fun _ h => Or.inl h⟩ h' fun u v a ha _ hv => hstep u v a ha hv
  constructor
  · intro hbit
    rcases hgrow.only i hbit with hzero | ⟨h'', hh, hc⟩
    · simp [Vector.getElem?_replicate] at hzero
    · rw [hi, Option.some.injEq] at hh
      rwa [hh]
  · exact hall (h, i) (List.mem_zipIdx_iff_getElem?.mpr hi)

lemma exists_knownBitmap (hlen : haves.length ≤ maxHaveHeaders) :
    ∃ bits, ECGSyncInitiator.knownBitmap ⟨haves⟩ s = .ok bits := by
  have hstep : ∀ bits : HeaderBitmap, ∀ a ∈ haves.zipIdx, True →
      ∃ bits', Returns (fun _ => setKnown s bits a) bits' ∧ True := by
    rintro bits ⟨x, j⟩ ha -
    obtain ⟨hlt, -⟩ := List.getElem?_eq_some_iff.mp (List.mem_zipIdx_iff_getElem?.mp ha)
    have hlt' : j < maxHaveHeaders := by omega
    by_cases hc : s.contains x
    · exact ⟨_, ⟨0, by rw [setKnown, if_pos hc, dif_pos hlt']⟩, trivial⟩
    · exact ⟨_, ⟨0, by rw [setKnown, if_neg hc]⟩, trivial⟩
  obtain ⟨bits, ⟨_, hbits⟩, -⟩ := returns_foldlM (I := fun _ => True)
    (f := fun _ (bits : HeaderBitmap) (a : HeaderId × ℕ) => setKnown s bits a)
    (fun _ _ => steady_const _) haves.zipIdx (s := Vector.replicate maxHaveHeaders false) trivial
    hstep
  exact ⟨bits, hbits⟩

/-! ### Agreement -/

variable [ECGHeader Header HeaderId] {i : UntypedState HeaderId Header} {a h p : HeaderId}

/-- Both graphs have the same header behind every id they share. -/
def Agree (s i : UntypedState HeaderId Header) : Prop :=
  ∀ h info info', s.getNode h = some info → i.getNode h = some info' → info.header = info'.header

lemma Agree.parent (ha : Agree s i) (hp : s.Parent p h) (hc : i.contains h) : i.Parent p h := by
  obtain ⟨info, hinfo, hmem⟩ := hp
  obtain ⟨info', hinfo'⟩ := UntypedState.contains_iff_getNode.mp hc
  exact ⟨info', hinfo', ha h info info' hinfo hinfo' ▸ hmem⟩

lemma Agree.ancestor (ha : Agree s i) (hi : i.WellFormed) (hanc : s.AncestorOrSelf a h)
    (hc : i.contains h) : i.contains a := by
  induction hanc using Relation.ReflTransGen.head_induction_on with
  | refl => exact hc
  | head hp _ ih => exact hi.closed (ha.parent hp ih)

/-! ### What a round does -/

variable {n : ℕ} {r r' : ECGSyncResponder HeaderId} {operations : List (Header × RawECGBody)}
  {theirTips : List HeaderId}

/-- **The first round.** -/
theorem runInitial_spec (hs : s.WellFormed) (hr : InGraph s r)
    (h' : r.runInitial n s theirTips = .ok (r', operations)) :
    ∃ r₁, HearsTips s theirTips r r₁ ∧ Prepares s r₁ r' operations := by
  obtain ⟨r₁, h₁, h₂⟩ := bind_eq_ok.mp h'
  have ht := handleTheirTips_spec hs h₁
  exact ⟨r₁, ht, prepareResponse_spec hs (ht.learns.inGraph hs hr) h₂⟩

/-- **A later round.** -/
theorem runRound_spec (hs : s.WellFormed) (hr : InGraph s r)
    (h' : r.runRound n s theirTips bits = .ok (r', operations)) :
    ∃ r₁ r₂, HearsTips s theirTips r r₁ ∧ HearsBits s bits r₁ r₂ ∧ Prepares s r₂ r' operations := by
  obtain ⟨r₁, h₁, h'⟩ := bind_eq_ok.mp h'
  obtain ⟨r₂, h₂, h₃⟩ := bind_eq_ok.mp h'
  have ht := handleTheirTips_spec hs h₁
  have hb := handleTheirKnown_spec hs h₂
  exact ⟨r₁, r₂, ht, hb,
    prepareResponse_spec hs (hb.learns.inGraph hs (ht.learns.inGraph hs hr)) h₃⟩

lemma Resolves.inGraph (hs : s.WellFormed) (hres : Resolves s r r') (hr : InGraph s r) :
    InGraph s r' := by
  refine ⟨fun h hh => ?_, ?_, ?_, ?_⟩
  · rcases hres.knownOnly h hh with hh | ⟨t, -, hc, ha⟩
    · exact hr.known h hh
    · exact ha.contains hs hc
  · rw [hres.sendQueue]; exact hr.send
  · rw [hres.sentHaves]; exact hr.sent
  · rw [hres.havesQueue]; exact hr.haves

/-- **An iteration after an update of the graph.** -/
theorem rerun_spec (hs : s.WellFormed) (hr : InGraph s r)
    (h' : r.rerun n s theirTips = .ok (r', operations)) :
    ∃ r₁ r₂, Resolves s r r₁ ∧ HearsTips s theirTips r₁ r₂ ∧ Prepares s r₂ r' operations := by
  obtain ⟨r₁, h₁, h'⟩ := bind_eq_ok.mp h'
  obtain ⟨r₂, h₂, h₃⟩ := bind_eq_ok.mp h'
  have hres := updateOurUnknown_spec hs h₁
  have ht := handleTheirTips_spec hs h₂
  exact ⟨r₁, r₂, hres, ht, prepareResponse_spec hs (ht.learns.inGraph hs (hres.inGraph hs hr)) h₃⟩

/-! ### Rounds return -/

section Steady

omit [ECGHeader Header HeaderId]

variable (s : UntypedState HeaderId Header) (r : ECGSyncResponder HeaderId)
  (theirTips : List HeaderId)

lemma steady_runInitial : Steady fun n => r.runInitial n s theirTips :=
  (steady_handleTheirTips s r theirTips).bind fun r₁ => steady_prepareResponse s r₁

lemma steady_runRound (bits : HeaderBitmap) : Steady fun n => r.runRound n s theirTips bits :=
  (steady_handleTheirTips s r theirTips).bind fun r₁ =>
    (steady_handleTheirKnown s r₁ bits).bind fun r₂ => steady_prepareResponse s r₂

end Steady

lemma returns_runInitial (hs : s.WellFormed) (hr : InGraph s r) (theirTips : List HeaderId) :
    ∃ w, Returns (fun n => r.runInitial n s theirTips) w := by
  obtain ⟨r₁, h₁⟩ := returns_handleTheirTips (r := r) hs theirTips
  obtain ⟨m, hm⟩ := h₁
  have hr₁ := (handleTheirTips_spec hs hm).learns.inGraph hs hr
  obtain ⟨w, hw⟩ := returns_prepareResponse hs hr₁
  exact ⟨w, Returns.bind (steady_handleTheirTips s r theirTips) (steady_prepareResponse s r₁)
    ⟨m, hm⟩ hw⟩

lemma returns_runRound (hs : s.WellFormed) (hr : InGraph s r)
    (hlen : r.sentHaves.length ≤ maxHaveHeaders) (theirTips : List HeaderId)
    (bits : HeaderBitmap) : ∃ w, Returns (fun n => r.runRound n s theirTips bits) w := by
  obtain ⟨r₁, m, hm⟩ := returns_handleTheirTips (r := r) hs theirTips
  have ht := (handleTheirTips_spec hs hm).learns
  obtain ⟨r₂, m', hm'⟩ := returns_handleTheirKnown (r := r₁) hs (ht.inGraph hs hr)
    (by rw [ht.sentHaves]; exact hlen) bits
  have hr₂ := (handleTheirKnown_spec hs hm').learns.inGraph hs (ht.inGraph hs hr)
  obtain ⟨w, hw⟩ := returns_prepareResponse hs hr₂
  exact ⟨w, Returns.bind (steady_handleTheirTips s r theirTips)
    ((steady_handleTheirKnown s r₁ bits).bind fun r₂ => steady_prepareResponse s r₂) ⟨m, hm⟩
    (Returns.bind (steady_handleTheirKnown s r₁ bits) (steady_prepareResponse s r₂) ⟨m', hm'⟩ hw)⟩

end Ossa.EcgSync
