import Ossa.EcgHistory
import Ossa.EcgRound

/-!
An exchange: the rounds of a sync with a fixed responder graph.

In each round the initiator sends its tips, and from the second round on its bitmap; the
responder answers; and the initiator inserts the operations it received, in their order. The
exchange goes on as long as the responses are not empty.
-/

namespace Ossa.EcgSync

open Ossa.Loop Ossa.Collections Ossa.Ecg

variable {HeaderId Header : Type} [LinearOrder HeaderId] [ECGHeader Header HeaderId]

/-- The two parties between two rounds. -/
structure Exchange (HeaderId Header : Type) [LinearOrder HeaderId] where
  ecg : UntypedState HeaderId Header
  initiator : Option (ECGSyncInitiator HeaderId)
  responder : ECGSyncResponder HeaderId

namespace Exchange

def start (ecg : UntypedState HeaderId Header) : Exchange HeaderId Header := ⟨ecg, none, .new⟩

/-- The responder processes the tips and the bitmap of the initiator. -/
def learn (x : Exchange HeaderId Header) (fuel : ℕ) (s : UntypedState HeaderId Header) :
    Exec (ECGSyncResponder HeaderId) := do
  match x.initiator with
  | none => x.responder.handleTheirTips fuel s x.ecg.tips.toList
  | some initiator => do
    let known ← initiator.knownBitmap x.ecg
    let responder ← x.responder.handleTheirTips fuel s x.ecg.tips.toList
    responder.handleTheirKnown fuel s known

/-- The initiator receives a response. -/
def receive (x : Exchange HeaderId Header)
    (w : ECGSyncResponder HeaderId × List (Header × RawECGBody)) :
    Exchange HeaderId Header × List (Header × RawECGBody) :=
  (⟨insertAll x.ecg w.2, some ⟨w.1.sentHaves⟩, w.1⟩, w.2)

/-- A round, with the operations that are sent in it. -/
def round (x : Exchange HeaderId Header) (fuel : ℕ) (s : UntypedState HeaderId Header) :
    Exec (Exchange HeaderId Header × List (Header × RawECGBody)) := do
  let responder ← x.learn fuel s
  let response ← responder.prepareResponse fuel s
  pure (x.receive response)

end Exchange

/-- The first round of an exchange is the responder's `run_initial`. -/
lemma round_of_none {x : Exchange HeaderId Header} (h : x.initiator = none) (fuel : ℕ)
    (s : UntypedState HeaderId Header) : x.round fuel s =
      x.responder.runInitial fuel s x.ecg.tips.toList >>= fun w => pure (x.receive w) := by
  simp [Exchange.round, Exchange.learn, h, ECGSyncResponder.runInitial]

/-- A later round is the responder's `run_round` on the bitmap of the initiator. -/
lemma round_of_some {x : Exchange HeaderId Header} {initiator : ECGSyncInitiator HeaderId}
    (h : x.initiator = some initiator) (fuel : ℕ) (s : UntypedState HeaderId Header) :
    x.round fuel s = initiator.knownBitmap x.ecg >>= fun known =>
      x.responder.runRound fuel s x.ecg.tips.toList known >>= fun w => pure (x.receive w) := by
  simp [Exchange.round, Exchange.learn, h, ECGSyncResponder.runRound]

/-- The round from `x` against the graph `s` ends in `y` and sends `operations`. -/
def Round (s : UntypedState HeaderId Header) (x y : Exchange HeaderId Header)
    (operations : List (Header × RawECGBody)) : Prop :=
  Returns (fun fuel => x.round fuel s) (y, operations)

/-- The response is empty: the responder tells the initiator to wait. -/
def Quiet (y : Exchange HeaderId Header) (operations : List (Header × RawECGBody)) : Prop :=
  operations = [] ∧ y.responder.sentHaves = []

/-- The states of an exchange from a fresh responder, the latest first. -/
inductive Run (s i : UntypedState HeaderId Header) :
    List (Exchange HeaderId Header) → Exchange HeaderId Header → Prop
  | start : Run s i [] (.start i)
  | round {past x y operations} : Run s i past x → Round s x y operations →
    ¬ Quiet y operations → Run s i (x :: past) y

/-- What holds between any two rounds. -/
structure Going (s : UntypedState HeaderId Header) (x : Exchange HeaderId Header) : Prop where
  wf : x.ecg.WellFormed
  agree : Agree s x.ecg
  inGraph : InGraph s x.responder
  sentLength : x.responder.sentHaves.length ≤ maxHaveHeaders
  fresh : ∀ h ∈ x.responder.sentHaves, x.responder.theyKnow h = false
  initiator : x.initiator = none ∧ x.responder = .new ∨
    x.initiator = some ⟨x.responder.sentHaves⟩
  unknown : ∀ h ∈ x.responder.ourUnknown, ¬ s.contains h ∧ x.ecg.contains h

/-- What a round does: the responder first learns from the initiator, which gives `r`. -/
structure Rounds (s : UntypedState HeaderId Header) (x y : Exchange HeaderId Header)
    (operations : List (Header × RawECGBody)) (r : ECGSyncResponder HeaderId) : Prop where
  learns : Learns s (fun h => x.ecg.contains h) x.responder r
  tips : ∀ t ∈ x.ecg.tips, Heard s r t
  news : ∀ t ∈ x.ecg.tips, s.contains t → ∀ a, s.AncestorOrSelf a t → a ∉ x.responder.theirKnown →
    ∃ h ∈ r.theirKnown, h ∉ x.responder.theirKnown
  claimed : ∀ h ∈ x.responder.sentHaves, x.ecg.contains h → Heard s r h
  unclaimed : ∀ h ∈ x.responder.sentHaves, ¬ x.ecg.contains h →
    (∀ p, s.Parent p h → p ∈ x.responder.theirKnown) → Queued r h
  prepares : Prepares s r y.responder operations
  ecg : y.ecg = insertAll x.ecg operations
  initiator : y.initiator = some ⟨y.responder.sentHaves⟩

variable {s i : UntypedState HeaderId Header} {x y : Exchange HeaderId Header}
  {past : List (Exchange HeaderId Header)} {operations : List (Header × RawECGBody)} {n : ℕ}
  {r : ECGSyncResponder HeaderId} {h p : HeaderId}

/-- On a graph that does not change an update resolves nothing, so that an iteration after it is
a round without a bitmap. -/
lemma Going.rerun (hx : Going s x) (theirTips : List HeaderId) :
    x.responder.rerun n s theirTips = x.responder.runInitial n s theirTips := by
  have hfound : x.responder.ourUnknown.toList.filter s.contains = [] :=
    List.filter_eq_nil_iff.mpr fun h hh => (hx.unknown h (by simpa using hh)).1
  have hsame : x.responder.updateOurUnknown n s = .ok x.responder := by
    rw [ECGSyncResponder.updateOurUnknown, hfound]
    rfl
  rw [ECGSyncResponder.rerun, hsame]
  rfl

lemma learn_spec (hs : s.WellFormed) (hx : Going s x) (h' : x.learn n s = .ok r) :
    Learns s (fun h => x.ecg.contains h) x.responder r ∧ (∀ t ∈ x.ecg.tips, Heard s r t) ∧
      (∀ t ∈ x.ecg.tips, s.contains t → ∀ a, s.AncestorOrSelf a t →
        a ∉ x.responder.theirKnown → ∃ h ∈ r.theirKnown, h ∉ x.responder.theirKnown) ∧
      (∀ h ∈ x.responder.sentHaves, x.ecg.contains h → Heard s r h) ∧
      ∀ h ∈ x.responder.sentHaves, ¬ x.ecg.contains h →
        (∀ p, s.Parent p h → p ∈ x.responder.theirKnown) → Queued r h := by
  have htips : ∀ t, t ∈ x.ecg.tips.toList → x.ecg.contains t := fun t ht =>
    (hx.wf.tips.mp (by simpa using ht)).1
  unfold Exchange.learn at h'
  rcases hx.initiator with ⟨hini, hnew⟩ | hini
  · simp only [hini] at h'
    have ht := handleTheirTips_spec hs h'
    refine ⟨ht.learns.mono htips, fun t hmem => ht.heard t (by simpa using hmem),
      fun t hmem => ht.news t (by simpa using hmem), ?_, ?_⟩
    · simp [hnew, ECGSyncResponder.new]
    · simp [hnew, ECGSyncResponder.new]
  · simp only [hini] at h'
    obtain ⟨bits, hbits, h'⟩ := bind_eq_ok.mp h'
    obtain ⟨r₁, h₁, h₂⟩ := bind_eq_ok.mp h'
    have ht := handleTheirTips_spec hs h₁
    have hb := handleTheirKnown_spec hs h₂
    have hread := knownBitmap_spec hbits
    have hat : ∀ h ∈ x.responder.sentHaves, ∃ j : ℕ, r₁.sentHaves[j]? = some h ∧
        (bits[j]? = some true ↔ x.ecg.contains h) ∧ ∃ b, bits[j]? = some b := by
      intro h hh
      obtain ⟨j, hlt, hj⟩ := List.mem_iff_getElem.mp hh
      have hj' : x.responder.sentHaves[j]? = some h := List.getElem?_eq_some_iff.mpr ⟨hlt, hj⟩
      have hlen := hx.sentLength
      exact ⟨j, by rw [ht.learns.sentHaves]; exact hj', hread j h hj', bits[j],
        Vector.getElem?_eq_getElem (by omega)⟩
    have hclaims : ∀ h, Claimed r₁ bits h → x.ecg.contains h := fun h ⟨j, hj, hbit⟩ => by
      rw [ht.learns.sentHaves] at hj
      exact (hread j h hj).mp hbit
    refine ⟨(ht.learns.mono htips).trans (hb.learns.mono hclaims),
      fun t hmem => (ht.heard t (by simpa using hmem)).mono hb.learns,
      fun t hmem hc a ha hn => ?_, fun h hh hc => ?_, fun h hh hc hall => ?_⟩
    · obtain ⟨z, hz, hzn⟩ := ht.news t (by simpa using hmem) hc a ha hn
      exact ⟨z, hb.learns.known z hz, hzn⟩
    · obtain ⟨j, hj, hbit, -⟩ := hat h hh
      exact hb.claimed j h hj (hbit.mpr hc)
    · obtain ⟨j, hj, hbit, b, hb'⟩ := hat h hh
      have hbfalse : b = false := by
        cases b with
        | false => rfl
        | true => exact absurd (hbit.mp hb') hc
      exact hb.unclaimed j h hj (hbfalse ▸ hb') fun p hp => ht.learns.known p (hall p hp)

lemma round_eq_ok (h' : x.round n s = .ok (y, operations)) :
    ∃ r, x.learn n s = .ok r ∧ r.prepareResponse n s = .ok (y.responder, operations) ∧
      y.ecg = insertAll x.ecg operations ∧ y.initiator = some ⟨y.responder.sentHaves⟩ := by
  obtain ⟨r, hr, h'⟩ := bind_eq_ok.mp h'
  obtain ⟨⟨r', ops⟩, hr', h'⟩ := bind_eq_ok.mp h'
  cases h'
  exact ⟨r, hr, hr', rfl, rfl⟩

/-- **What a round does.** -/
theorem round_spec (hs : s.WellFormed) (hx : Going s x)
    (h' : x.round n s = .ok (y, operations)) :
    ∃ r, x.learn n s = .ok r ∧ Rounds s x y operations r := by
  obtain ⟨r, hr, hp, hecg, hini⟩ := round_eq_ok h'
  obtain ⟨hl, htips, hnews, hclaimed, hunclaimed⟩ := learn_spec hs hx hr
  exact ⟨r, hr, hl, htips, hnews, hclaimed, hunclaimed,
    prepareResponse_spec hs (hl.inGraph hs hx.inGraph) hp, hecg, hini⟩

/-! ### Inserting what was received -/

/-- Operations of headers of the graph `s`. -/
def FromGraph (s : UntypedState HeaderId Header) (operations : List (Header × RawECGBody)) : Prop :=
  ∀ op ∈ operations, ∃ info, s.getNode (getHeaderId op.1) = some info ∧
    info.header = op.1 ∧ info.operations = op.2

/-- What inserting operations of headers of `s` keeps, and which headers it can add. -/
structure Receives (s i i' : UntypedState HeaderId Header)
    (operations : List (Header × RawECGBody)) : Prop where
  wf : i'.WellFormed
  agree : Agree s i'
  grows : i.Grows i'
  only : ∀ h, i'.contains h → i.contains h ∨ h ∈ ids operations

lemma insertAll_concat (i : UntypedState HeaderId Header) (operations : List (Header × RawECGBody))
    (op : Header × RawECGBody) : insertAll i (operations ++ [op]) =
      ((insertAll i operations).insertHeader op.1 op.2).1 := by
  simp [insertAll]

lemma receives_insertAll (hi : i.WellFormed) (ha : Agree s i) (hf : FromGraph s operations) :
    Receives s i (insertAll i operations) operations := by
  induction operations using List.reverseRecOn with
  | nil => exact ⟨hi, ha, fun _ _ h => h, fun _ h => Or.inl h⟩
  | append_singleton operations op ih =>
    obtain ⟨hwf, hagree, hgrows, honly⟩ := ih fun op' h => hf op' (List.mem_append_left _ h)
    obtain ⟨info, hinfo, hheader, -⟩ := hf op (by simp)
    obtain ⟨hg, hnew⟩ := hwf.getNode_insertHeader op.1 op.2
    rw [insertAll_concat]
    refine ⟨hwf.insertHeader op.1 op.2, fun h info₁ info₂ h₁ h₂ => ?_,
      fun h info hh => hg h info (hgrows h info hh), fun h hh => ?_⟩
    · rcases hnew h info₂ h₂ with h₂ | ⟨rfl, heq⟩
      · exact hagree h info₁ info₂ h₁ h₂
      · rw [hinfo] at h₁
        cases h₁
        exact hheader.trans heq.symm
    · obtain ⟨info', hinfo'⟩ := UntypedState.contains_iff_getNode.mp hh
      rcases hnew h info' hinfo' with hh | ⟨rfl, -⟩
      · refine (honly h (UntypedState.contains_iff_getNode.mpr ⟨info', hh⟩)).imp_right fun hm => ?_
        simp only [ids, List.map_append, List.mem_append]
        exact Or.inl hm
      · exact Or.inr (by simp [ids])

lemma insertAll_append (i : UntypedState HeaderId Header)
    (operations operations' : List (Header × RawECGBody)) :
    insertAll i (operations ++ operations') = insertAll (insertAll i operations) operations' := by
  simp [insertAll]

lemma agree_of_records {A B : List Header} (hs : Records s A) (hi : Records i B)
    (hAB : ∀ a ∈ A, ∀ b ∈ B, getHeaderId a = getHeaderId b → a = b) : Agree s i := by
  intro h info info' hinfo hinfo'
  obtain ⟨hA, hid⟩ := hs.mem_of_getNode hinfo
  obtain ⟨hB, hid'⟩ := hi.mem_of_getNode hinfo'
  exact hAB _ hA _ hB (hid.trans hid'.symm)

/-! ### Runs -/

lemma going_start (hi : i.WellFormed) (ha : Agree s i) : Going s (.start i) where
  wf := hi
  agree := ha
  inGraph := ⟨by simp [Exchange.start, ECGSyncResponder.new],
    by simp [Exchange.start, ECGSyncResponder.new], by simp [Exchange.start, ECGSyncResponder.new],
    by simp [Exchange.start, ECGSyncResponder.new]⟩
  sentLength := by simp [Exchange.start, ECGSyncResponder.new]
  fresh := by simp [Exchange.start, ECGSyncResponder.new]
  initiator := Or.inl ⟨rfl, rfl⟩
  unknown := by simp [Exchange.start, ECGSyncResponder.new]

lemma Rounds.receives (hx : Going s x) (hr : Rounds s x y operations r) :
    Receives s x.ecg y.ecg operations := by
  rw [hr.ecg]
  exact receives_insertAll hx.wf hx.agree hr.prepares.nodes

lemma Rounds.going (hx : Going s x) (hr : Rounds s x y operations r) : Going s y where
  wf := (hr.receives hx).wf
  agree := (hr.receives hx).agree
  inGraph := hr.prepares.inGraph
  sentLength := hr.prepares.sentLength
  fresh h hh := (hr.prepares.sent h hh).2
  initiator := Or.inr hr.initiator
  unknown h hh := by
    rw [hr.prepares.unknown] at hh
    rcases hr.learns.unknownOnly h hh with hh | ⟨hc, hn⟩
    · exact ⟨(hx.unknown h hh).1, (hr.receives hx).grows.contains (hx.unknown h hh).2⟩
    · exact ⟨hn, (hr.receives hx).grows.contains hc⟩

/-- Between any two rounds of a run. -/
theorem Run.going (hs : s.WellFormed) (hi : i.WellFormed) (ha : Agree s i) (hrun : Run s i past x) :
    Going s x := by
  induction hrun with
  | start => exact going_start hi ha
  | round _ hround _ ih =>
    obtain ⟨n, hn⟩ := hround
    obtain ⟨r, -, hr⟩ := round_spec hs ih hn
    exact hr.going ih

/-! ### Rounds return -/

section Steady

omit [ECGHeader Header HeaderId]

variable (x : Exchange HeaderId Header) (s : UntypedState HeaderId Header)

lemma steady_learn : Steady fun n => x.learn n s := by
  unfold Exchange.learn
  cases x.initiator with
  | none => exact steady_handleTheirTips s _ _
  | some initiator =>
    exact (steady_const _).bind fun bits => (steady_handleTheirTips s _ _).bind fun r =>
      steady_handleTheirKnown s r bits

end Steady

lemma steady_round (x : Exchange HeaderId Header) (s : UntypedState HeaderId Header) :
    Steady fun n => x.round n s :=
  (steady_learn x s).bind fun r => (steady_prepareResponse s r).bind fun _ => steady_const _

/-- **A round always returns.** -/
theorem returns_round (hs : s.WellFormed) (hx : Going s x) :
    ∃ y operations, Round s x y operations := by
  obtain ⟨r, hr⟩ : ∃ r, Returns (fun n => x.learn n s) r := by
    unfold Exchange.learn
    rcases hx.initiator with ⟨hini, -⟩ | hini
    · simp only [hini]
      exact returns_handleTheirTips hs _
    · simp only [hini]
      obtain ⟨bits, hbits⟩ := exists_knownBitmap (s := x.ecg) hx.sentLength
      obtain ⟨r₁, n, hn⟩ := returns_handleTheirTips (r := x.responder) hs x.ecg.tips.toList
      have ht := (handleTheirTips_spec hs hn).learns
      obtain ⟨r₂, h₂⟩ := returns_handleTheirKnown (r := r₁) hs (ht.inGraph hs hx.inGraph)
        (by rw [ht.sentHaves]; exact hx.sentLength) bits
      simp only [hbits, ok_bind]
      exact ⟨r₂, Returns.bind (steady_handleTheirTips s _ _) (steady_handleTheirKnown s r₁ bits)
        ⟨n, hn⟩ h₂⟩
  obtain ⟨m, hm⟩ := hr
  have hin := (learn_spec hs hx hm).1.inGraph hs hx.inGraph
  obtain ⟨w, hw⟩ := returns_prepareResponse hs hin
  exact ⟨_, w.2, Returns.bind (steady_learn x s)
    ((steady_prepareResponse s r).bind fun _ => steady_const _) ⟨m, hm⟩
    (Returns.bind (steady_prepareResponse s r) (steady_const _) hw (returns_ok _))⟩

/-! ### Two rounds -/

/-- The first two rounds of an exchange. -/
def twoRounds (fuel : ℕ) (s i : UntypedState HeaderId Header) :
    Exec ((Exchange HeaderId Header × List (Header × RawECGBody)) ×
      (Exchange HeaderId Header × List (Header × RawECGBody))) := do
  let first ← (Exchange.start i).round fuel s
  let second ← first.1.round fuel s
  pure (first, second)

section TwoRounds

variable {fuel : ℕ} {first second : Exchange HeaderId Header × List (Header × RawECGBody)}

lemma rounds_of_twoRounds (h : twoRounds fuel s i = .ok (first, second)) :
    Round s (.start i) first.1 first.2 ∧ Round s first.1 second.1 second.2 := by
  obtain ⟨x, hx, h⟩ := bind_eq_ok.mp h
  obtain ⟨y, hy, h⟩ := bind_eq_ok.mp h
  cases h
  exact ⟨⟨fuel, hx⟩, ⟨fuel, hy⟩⟩

end TwoRounds

end Ossa.EcgSync
