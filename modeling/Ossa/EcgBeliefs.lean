import Mathlib.Data.Set.Function
import Ossa.EcgRound

/-!
What a responder believes about the initiator, over a whole session.

The two graphs grow at any time, from any source. The initiator is honest: it sends its tips
and, from the second request on, the bitmap over the `have` it stored. The responder answers
with what it prepares, or waits for an update of its graph when it has nothing to send.
-/

namespace Ossa.EcgSync

open Ossa.Loop Ossa.Collections Ossa.Ecg

variable {HeaderId Header : Type} [LinearOrder HeaderId] [ECGHeader Header HeaderId]

/-- Where a session stands between its two parties. -/
inductive Phase (HeaderId Header : Type)
  | idle
  | requested (tips : List HeaderId) (known : Option HeaderBitmap)
  | subscribed (tips : List HeaderId)
  | responded (haves : List HeaderId) (operations : List (Header × RawECGBody))

/-- A session. `sent` records the operations of every response. -/
structure Session (HeaderId Header : Type) [LinearOrder HeaderId] where
  initiatorEcg : UntypedState HeaderId Header
  responderEcg : UntypedState HeaderId Header
  initiator : Option (ECGSyncInitiator HeaderId)
  responder : ECGSyncResponder HeaderId
  phase : Phase HeaderId Header
  sent : List (List (Header × RawECGBody))

namespace Session

def start : Session HeaderId Header := ⟨.new, .new, none, .new, .idle, []⟩

/-- The request of the initiator: the bitmap, from its second request on. -/
def request (x : Session HeaderId Header) : Exec (Option HeaderBitmap) :=
  match x.initiator with
  | none => .ok none
  | some initiator => do
    let known ← initiator.knownBitmap x.initiatorEcg
    pure (some known)

/-- The responder requests a snapshot of its graph, and handles a request on it. -/
def handle (x : Session HeaderId Header) (fuel : ℕ) (tips : List HeaderId)
    (known : Option HeaderBitmap) :
    Exec (ECGSyncResponder HeaderId × List (Header × RawECGBody)) := do
  let responder ← x.responder.updateOurUnknown fuel x.responderEcg
  match known with
  | none => responder.runInitial fuel x.responderEcg tips
  | some known => responder.runRound fuel x.responderEcg tips known

/-- The responder sends what it prepared, or waits when this is nothing. -/
def answer (x : Session HeaderId Header) (tips : List HeaderId)
    (responder : ECGSyncResponder HeaderId) (operations : List (Header × RawECGBody)) :
    Session HeaderId Header :=
  if operations.isEmpty && responder.sentHaves.isEmpty then
    { x with responder, phase := .subscribed tips }
  else
    { x with
      responder
      phase := .responded responder.sentHaves operations
      sent := x.sent ++ [operations] }

/-- The ids of all operations sent. -/
def sentIds (x : Session HeaderId Header) : List HeaderId := ids x.sent.flatten

end Session

/-- One step of a session. Headers come from `U`. -/
inductive Step (U : Set Header) : Session HeaderId Header → Session HeaderId Header → Prop
  | initiatorGrows (x) {header : Header} (operations : RawECGBody) : header ∈ U →
    Step U x { x with initiatorEcg := (x.initiatorEcg.insertHeader header operations).1 }
  | responderGrows (x) {header : Header} (operations : RawECGBody) : header ∈ U →
    Step U x { x with responderEcg := (x.responderEcg.insertHeader header operations).1 }
  | request {x known} : x.phase = .idle → x.request = .ok known →
    Step U x { x with phase := .requested x.initiatorEcg.tips.toList known }
  | respond {x tips known responder operations} : x.phase = .requested tips known →
    Returns (fun fuel => x.handle fuel tips known) (responder, operations) →
    Step U x (x.answer tips responder operations)
  | update {x tips responder operations} : x.phase = .subscribed tips →
    Returns (fun fuel => x.responder.rerun fuel x.responderEcg tips) (responder, operations) →
    Step U x (x.answer tips responder operations)
  | receive {x haves operations} : x.phase = .responded haves operations →
    Step U x { x with phase := .idle, initiator := some ⟨haves⟩ }

/-- The sessions reachable from a fresh responder. -/
def Reachable (U : Set Header) (x : Session HeaderId Header) : Prop :=
  Relation.ReflTransGen (Step U) .start x

/-- The responder of a session has heard the tips of the initiator, on an updated graph. -/
def HearsTipsOf (x : Session HeaderId Header) (tips : List HeaderId)
    (r : ECGSyncResponder HeaderId) : Prop :=
  ∃ r₀, Returns (fun n => x.responder.updateOurUnknown n x.responderEcg) r₀ ∧
    Returns (fun n => r₀.handleTheirTips n x.responderEcg tips) r

/-- The responder of a session has heard the tips and the bitmap of the initiator. -/
inductive Hears (x : Session HeaderId Header) : ECGSyncResponder HeaderId → Prop
  | first {tips r} : x.phase = .requested tips none → HearsTipsOf x tips r → Hears x r
  | later {tips bits r r'} : x.phase = .requested tips (some bits) → HearsTipsOf x tips r →
    Returns (fun n => r.handleTheirKnown n x.responderEcg bits) r' → Hears x r'
  | update {tips r} : x.phase = .subscribed tips → HearsTipsOf x tips r → Hears x r

/-! ### The invariant -/

/-- A well-formed graph whose headers are from `U`. -/
structure Consistent (U : Set Header) (s : UntypedState HeaderId Header) : Prop where
  wf : s.WellFormed
  mem : ∀ h info, s.getNode h = some info → info.header ∈ U

variable {U : Set Header} {s i : UntypedState HeaderId Header} {header : Header}
  {operations : RawECGBody}

lemma Consistent.new : Consistent U (.new : UntypedState HeaderId Header) :=
  ⟨UntypedState.wellFormed_new, fun h info hi => by
    simp [UntypedState.getNode, UntypedState.new] at hi⟩

lemma Consistent.insertHeader (hs : Consistent U s) (hU : header ∈ U) :
    Consistent U (s.insertHeader header operations).1 := by
  refine ⟨hs.wf.insertHeader header operations, fun h info hi => ?_⟩
  rcases (hs.wf.getNode_insertHeader header operations).2 h info hi with hi | ⟨-, rfl⟩
  · exact hs.mem h info hi
  · exact hU

lemma Consistent.agree (hU : Set.InjOn (getHeaderId : Header → HeaderId) U) (hs : Consistent U s)
    (hi : Consistent U i) : Agree s i := by
  intro h info info' hinfo hinfo'
  exact hU (hs.mem h info hinfo) (hi.mem h info' hinfo')
    ((hs.wf.ids hinfo).trans (hi.wf.ids hinfo').symm)

/-- What the responder believes about the initiator: who is believed to know a header has it
or was sent it. -/
structure Believes (i : UntypedState HeaderId Header) (sent : List HeaderId)
    (r : ECGSyncResponder HeaderId) : Prop where
  known : ∀ h ∈ r.theirKnown, i.contains h ∨ h ∈ sent
  unknown : ∀ h ∈ r.ourUnknown, i.contains h

variable {sent : List HeaderId} {r r' : ECGSyncResponder HeaderId} {src : HeaderId → Prop}

omit [ECGHeader Header HeaderId] in
lemma Believes.mono {i' : UntypedState HeaderId Header} (hg : i.Grows i') (hb : Believes i sent r) :
    Believes i' sent r :=
  ⟨fun h hh => (hb.known h hh).imp_left hg.contains, fun h hh => hg.contains (hb.unknown h hh)⟩

lemma Believes.learns (ha : Agree s i) (hi : i.WellFormed) (hsrc : ∀ t, src t → i.contains t)
    (hl : Learns s src r r') (hb : Believes i sent r) : Believes i sent r' where
  known h hh := by
    rcases hl.knownOnly h hh with hh | ⟨t, ht, -, hanc⟩
    · exact hb.known h hh
    · exact Or.inl (ha.ancestor hi hanc (hsrc t ht))
  unknown h hh := by
    rcases hl.unknownOnly h hh with hh | ⟨ht, -⟩
    · exact hb.unknown h hh
    · exact hsrc h ht

lemma Believes.resolves (ha : Agree s i) (hi : i.WellFormed) (hres : Resolves s r r')
    (hb : Believes i sent r) : Believes i sent r' where
  known h hh := by
    rcases hres.knownOnly h hh with hh | ⟨t, ht, -, hanc⟩
    · exact hb.known h hh
    · exact Or.inl (ha.ancestor hi hanc (hb.unknown t ht))
  unknown h hh := hb.unknown h ((hres.unknown h).mp hh).1

lemma Believes.prepares {operations : List (Header × RawECGBody)} (hp : Prepares s r r' operations)
    (hb : Believes i sent r) : Believes i (sent ++ ids operations) r' where
  known h hh := by
    rw [List.mem_append]
    rcases (hp.known h).mp hh with hh | hh
    · exact (hb.known h hh).imp_right Or.inl
    · exact Or.inr (Or.inr hh)
  unknown h hh := hb.unknown h (hp.unknown ▸ hh)

/-- What is in flight is about the initiator's own graph and the responder's last `have`. -/
def InFlight (x : Session HeaderId Header) : Prop :=
  match x.phase with
  | .idle => ∀ initiator ∈ x.initiator, initiator.haves = x.responder.sentHaves
  | .requested tips known => (∀ t ∈ tips, x.initiatorEcg.contains t) ∧
    ∀ bits ∈ known, x.initiator = some ⟨x.responder.sentHaves⟩ ∧ ∃ i, i.Grows x.initiatorEcg ∧
      ECGSyncInitiator.knownBitmap ⟨x.responder.sentHaves⟩ i = .ok bits
  | .subscribed tips => ∀ t ∈ tips, x.initiatorEcg.contains t
  | .responded haves _ => haves = x.responder.sentHaves

/-- The responder's beliefs are sound, and nothing was sent twice. -/
structure Sound (U : Set Header) (x : Session HeaderId Header) : Prop where
  initiator : Consistent U x.initiatorEcg
  responder : Consistent U x.responderEcg
  inGraph : InGraph x.responderEcg x.responder
  sentLength : x.responder.sentHaves.length ≤ maxHaveHeaders
  believes : Believes x.initiatorEcg x.sentIds x.responder
  sentKnown : ∀ h ∈ x.sentIds, h ∈ x.responder.theirKnown
  nodup : x.sentIds.Nodup
  inFlight : InFlight x

lemma sound_start : Sound U (.start : Session HeaderId Header) where
  initiator := .new
  responder := .new
  inGraph := ⟨by simp [Session.start, ECGSyncResponder.new],
    by simp [Session.start, ECGSyncResponder.new], by simp [Session.start, ECGSyncResponder.new],
    by simp [Session.start, ECGSyncResponder.new]⟩
  sentLength := by simp [Session.start, ECGSyncResponder.new]
  believes := ⟨by simp [Session.start, ECGSyncResponder.new],
    by simp [Session.start, ECGSyncResponder.new]⟩
  sentKnown := by simp [Session.start, Session.sentIds, ids]
  nodup := by simp [Session.start, Session.sentIds, ids]
  inFlight := by simp [InFlight, Session.start]

variable {x y : Session HeaderId Header} {tips : List HeaderId}
  {operations' : List (Header × RawECGBody)}

omit [ECGHeader Header HeaderId] in
lemma InGraph.mono {t : UntypedState HeaderId Header} (hg : s.Grows t) (hr : InGraph s r) :
    InGraph t r where
  known h hh := hg.contains (hr.known h hh)
  send d h hh := hg.depth (hr.send d h hh)
  sent h hh := hg.contains (hr.sent h hh)
  haves b d h k hh := hg.depth (hr.haves b d h k hh)

omit [ECGHeader Header HeaderId] in
lemma InFlight.mono {i' : UntypedState HeaderId Header} (hg : x.initiatorEcg.Grows i')
    (hx : InFlight x) : InFlight { x with initiatorEcg := i' } := by
  unfold InFlight at hx ⊢
  cases hph : x.phase with
  | idle => simpa [hph] using hx
  | requested tips known =>
    simp only [hph] at hx ⊢
    refine ⟨fun t ht => hg.contains (hx.1 t ht), fun bits hb => ?_⟩
    obtain ⟨hini, i, hi, hbits⟩ := hx.2 bits hb
    exact ⟨hini, i, fun h info hh => hg h info (hi h info hh), hbits⟩
  | subscribed tips =>
    simp only [hph] at hx ⊢
    exact fun t ht => hg.contains (hx t ht)
  | responded haves operations => simpa [hph] using hx

lemma HearsTipsOf.spec (hs : x.responderEcg.WellFormed) (hr : HearsTipsOf x tips r) :
    ∃ r₀, Resolves x.responderEcg x.responder r₀ ∧ HearsTips x.responderEcg tips r₀ r := by
  obtain ⟨r₀, ⟨n, h₀⟩, m, h⟩ := hr
  exact ⟨r₀, updateOurUnknown_spec hs h₀, handleTheirTips_spec hs h⟩

lemma HearsTipsOf.inGraph (hx : Sound U x) (hr : HearsTipsOf x tips r) :
    InGraph x.responderEcg r := by
  obtain ⟨r₀, hres, htips⟩ := hr.spec hx.responder.wf
  exact htips.learns.inGraph hx.responder.wf (hres.inGraph hx.responder.wf hx.inGraph)

lemma HearsTipsOf.sentHaves (hs : x.responderEcg.WellFormed) (hr : HearsTipsOf x tips r) :
    r.sentHaves = x.responder.sentHaves := by
  obtain ⟨r₀, hres, htips⟩ := hr.spec hs
  exact htips.learns.sentHaves.trans hres.sentHaves

lemma HearsTipsOf.grows (hx : Sound U x) (hr : HearsTipsOf x tips r) :
    (∀ h, Queued x.responder h → Queued r h) ∧
      (∀ h ∈ x.responder.theirKnown, h ∈ r.theirKnown) ∧
      ∀ h, x.responder.theyKnow h = true → r.theyKnow h = true := by
  obtain ⟨r₀, hres, htips⟩ := hr.spec hx.responder.wf
  have hl := htips.learns
  refine ⟨fun h hq => hl.queued (by rwa [Queued, hres.sendQueue]),
    fun h hh => hl.known h (hres.known h hh), fun h hk => hl.theyKnow ?_⟩
  rw [theyKnow_iff] at hk ⊢
  rcases hk with hk | hk
  · exact Or.inl (hres.known h hk)
  · by_cases hc : x.responderEcg.contains h
    · exact Or.inl (hres.resolved h hk hc)
    · exact Or.inr ((hres.unknown h).mpr ⟨hk, hc⟩)

lemma HearsTipsOf.believes (hU : Set.InjOn (getHeaderId : Header → HeaderId) U) (hx : Sound U x)
    (htips : ∀ t ∈ tips, x.initiatorEcg.contains t) (hr : HearsTipsOf x tips r) :
    Believes x.initiatorEcg x.sentIds r := by
  have ha := Consistent.agree hU hx.responder hx.initiator
  obtain ⟨r₀, hres, hhears⟩ := hr.spec hx.responder.wf
  exact (hx.believes.resolves ha hx.initiator.wf hres).learns ha hx.initiator.wf htips hhears.learns

lemma Hears.inGraph (hx : Sound U x) (hr : Hears x r) : InGraph x.responderEcg r := by
  cases hr with
  | first _ hr => exact hr.inGraph hx
  | later _ hr₁ hr =>
    obtain ⟨m, hr⟩ := hr
    exact (handleTheirKnown_spec hx.responder.wf hr).learns.inGraph hx.responder.wf (hr₁.inGraph hx)
  | update _ hr => exact hr.inGraph hx

lemma Hears.grows (hx : Sound U x) (hr : Hears x r) :
    (∀ h, Queued x.responder h → Queued r h) ∧
      (∀ h ∈ x.responder.theirKnown, h ∈ r.theirKnown) ∧
      ∀ h, x.responder.theyKnow h = true → r.theyKnow h = true := by
  cases hr with
  | first _ hr => exact hr.grows hx
  | later _ hr₁ hr =>
    obtain ⟨m, hr⟩ := hr
    have hl := (handleTheirKnown_spec hx.responder.wf hr).learns
    obtain ⟨hqueued, hknown, htheyKnow⟩ := hr₁.grows hx
    exact ⟨fun h hq => hl.queued (hqueued h hq), fun h hh => hl.known h (hknown h hh),
      fun h hk => hl.theyKnow (htheyKnow h hk)⟩
  | update _ hr => exact hr.grows hx

/-- **What the responder hears keeps its beliefs sound.** -/
lemma Hears.believes (hU : Set.InjOn (getHeaderId : Header → HeaderId) U) (hx : Sound U x)
    (hr : Hears x r) : Believes x.initiatorEcg x.sentIds r := by
  have hs := hx.responder.wf
  have hfl := hx.inFlight
  cases hr with
  | first hph hr =>
    simp only [InFlight, hph] at hfl
    exact hr.believes hU hx hfl.1
  | @later tips bits r₁ r hph hr₁ hr =>
    obtain ⟨m, hr⟩ := hr
    simp only [InFlight, hph] at hfl
    obtain ⟨htips, hbits⟩ := hfl
    have hclaims : ∀ t, Claimed r₁ bits t → x.initiatorEcg.contains t := fun t ⟨j, hj, hbit⟩ => by
      rw [hr₁.sentHaves hs] at hj
      obtain ⟨-, i, hg, hi⟩ := hbits bits rfl
      exact hg.contains ((knownBitmap_spec hi j t hj).mp hbit)
    exact (hr₁.believes hU hx htips).learns (Consistent.agree hU hx.responder hx.initiator)
      hx.initiator.wf hclaims (handleTheirKnown_spec hs hr).learns
  | update hph hr =>
    simp only [InFlight, hph] at hfl
    exact hr.believes hU hx hfl

omit [ECGHeader Header HeaderId] in
lemma hears_of_respond {tips : List HeaderId} {known : Option HeaderBitmap}
    {w : ECGSyncResponder HeaderId × List (Header × RawECGBody)}
    (hph : x.phase = .requested tips known) (h' : Returns (fun n => x.handle n tips known) w) :
    ∃ r, Hears x r ∧ Returns (fun n => r.prepareResponse n x.responderEcg) w := by
  obtain ⟨n, h'⟩ := h'
  obtain ⟨r₀, h₀, h'⟩ := bind_eq_ok.mp h'
  cases known with
  | none =>
    obtain ⟨r, h₁, h'⟩ := bind_eq_ok.mp h'
    exact ⟨r, .first hph ⟨r₀, ⟨n, h₀⟩, n, h₁⟩, n, h'⟩
  | some bits =>
    obtain ⟨r₁, h₁, h'⟩ := bind_eq_ok.mp h'
    obtain ⟨r, h₂, h'⟩ := bind_eq_ok.mp h'
    exact ⟨r, .later hph ⟨r₀, ⟨n, h₀⟩, n, h₁⟩ ⟨n, h₂⟩, n, h'⟩

omit [ECGHeader Header HeaderId] in
lemma hears_of_update {tips : List HeaderId}
    {w : ECGSyncResponder HeaderId × List (Header × RawECGBody)}
    (hph : x.phase = .subscribed tips)
    (h' : Returns (fun n => x.responder.rerun n x.responderEcg tips) w) :
    ∃ r, Hears x r ∧ Returns (fun n => r.prepareResponse n x.responderEcg) w := by
  obtain ⟨n, h'⟩ := h'
  obtain ⟨r₀, h₀, h'⟩ := bind_eq_ok.mp h'
  obtain ⟨r, h₁, h'⟩ := bind_eq_ok.mp h'
  exact ⟨r, .update hph ⟨r₀, ⟨n, h₀⟩, n, h₁⟩, n, h'⟩

@[simp] lemma sentIds_answer : (x.answer tips r operations').sentIds =
    x.sentIds ++ ids operations' := by
  unfold Session.answer
  split_ifs with hempty
  · rw [Bool.and_eq_true, List.isEmpty_iff] at hempty
    simp [Session.sentIds, hempty.1, ids]
  · simp [Session.sentIds, ids]

/-- **An answer keeps the beliefs sound**, whatever the responder learned before it. -/
theorem Sound.answer (hx : Sound U x) (htips : ∀ t ∈ tips, x.initiatorEcg.contains t)
    (hmono : ∀ h ∈ x.responder.theirKnown, h ∈ r.theirKnown)
    (hb : Believes x.initiatorEcg x.sentIds r)
    (hp : Prepares x.responderEcg r r' operations') : Sound U (x.answer tips r' operations') := by
  have hi : (x.answer tips r' operations').initiatorEcg = x.initiatorEcg := by
    unfold Session.answer; split_ifs <;> rfl
  have hs : (x.answer tips r' operations').responderEcg = x.responderEcg := by
    unfold Session.answer; split_ifs <;> rfl
  have hr : (x.answer tips r' operations').responder = r' := by
    unfold Session.answer; split_ifs <;> rfl
  refine ⟨hi ▸ hx.initiator, hs ▸ hx.responder, ?_, ?_, ?_, fun h hh => ?_, ?_, ?_⟩
  · rw [hs, hr]; exact hp.inGraph
  · rw [hr]; exact hp.sentLength
  · rw [hi, hr, sentIds_answer]; exact hb.prepares hp
  · rw [hr, hp.known]
    rw [sentIds_answer, List.mem_append] at hh
    exact hh.imp_left fun hh => hmono h (hx.sentKnown h hh)
  · rw [sentIds_answer, List.nodup_append]
    refine ⟨hx.nodup, hp.nodup, fun a ha b hb hab => ?_⟩
    have hfresh := hp.fresh b hb
    rw [Bool.eq_false_iff, ne_eq, theyKnow_iff] at hfresh
    exact hfresh (Or.inl (hmono b (hab ▸ hx.sentKnown a ha)))
  · unfold Session.answer
    split_ifs
    · exact htips
    · rfl

/-- **Every step keeps the beliefs sound.** -/
theorem Sound.step (hU : Set.InjOn (getHeaderId : Header → HeaderId) U) (hx : Sound U x)
    (hstep : Step U x y) : Sound U y := by
  have ha := Consistent.agree hU hx.responder hx.initiator
  have hwf := hx.initiator.wf
  have hs := hx.responder.wf
  cases hstep with
  | @initiatorGrows header operations hmem =>
    have hg := (hwf.getNode_insertHeader header operations).1
    exact { hx with
      initiator := hx.initiator.insertHeader hmem
      believes := hx.believes.mono hg
      inFlight := hx.inFlight.mono hg }
  | @responderGrows header operations hmem =>
    exact { hx with
      responder := hx.responder.insertHeader hmem
      inGraph := hx.inGraph.mono (hs.getNode_insertHeader header operations).1 }
  | @request known hph hreq =>
    have hidle := hx.inFlight
    simp only [InFlight, hph] at hidle
    refine { hx with inFlight := ⟨fun t ht => ?_, fun bits hbits => ?_⟩ }
    · exact (hwf.tips.mp (by simpa using ht)).1
    · cases hini : x.initiator with
      | none =>
        rw [Session.request, hini] at hreq
        cases hreq
        cases hbits
      | some initiator =>
        rw [Session.request, hini] at hreq
        obtain ⟨bits', hbits', hreq⟩ := bind_eq_ok.mp hreq
        cases hreq
        cases hbits
        have hhaves := hidle initiator hini
        rw [← hhaves]
        exact ⟨rfl, x.initiatorEcg, fun _ _ h => h, hbits'⟩
  | @respond tips known responder operations hph hret =>
    obtain ⟨r, hears, n, hp⟩ := hears_of_respond hph hret
    have hfl := hx.inFlight
    simp only [InFlight, hph] at hfl
    exact hx.answer hfl.1 (hears.grows hx).2.1 (hears.believes hU hx)
      (prepareResponse_spec hs (hears.inGraph hx) hp)
  | @update tips responder operations hph hret =>
    obtain ⟨r, hears, n, hp⟩ := hears_of_update hph hret
    have htips := hx.inFlight
    simp only [InFlight, hph] at htips
    exact hx.answer htips (hears.grows hx).2.1 (hears.believes hU hx)
      (prepareResponse_spec hs (hears.inGraph hx) hp)
  | @receive haves operations hph =>
    have hhaves := hx.inFlight
    simp only [InFlight, hph] at hhaves
    refine { hx with inFlight := fun initiator hini => ?_ }
    cases hini
    exact hhaves

lemma sound_of_reachable (hU : Set.InjOn (getHeaderId : Header → HeaderId) U)
    (hx : Reachable U x) : Sound U x := by
  induction hx with
  | refl => exact sound_start
  | tail _ hstep ih => exact ih.step hU hstep

/-- **The responder's beliefs are sound and nothing is sent twice**: in every reachable session
the bitmap in flight was computed over the very list that is read when it is handled, who is
believed to know a header has it or was sent it, and no header was sent twice. -/
theorem beliefs_sound (hU : Set.InjOn (getHeaderId : Header → HeaderId) U)
    (hx : Reachable U x) :
    (∀ tips bits, x.phase = .requested tips (some bits) → ∀ r₁, HearsTipsOf x tips r₁ →
      x.initiator = some ⟨r₁.sentHaves⟩ ∧ ∃ i, i.Grows x.initiatorEcg ∧
        ECGSyncInitiator.knownBitmap ⟨r₁.sentHaves⟩ i = .ok bits) ∧
    (∀ h ∈ x.responder.theirKnown, x.initiatorEcg.contains h ∨ h ∈ ids x.sent.flatten) ∧
    (∀ h ∈ x.responder.ourUnknown, x.initiatorEcg.contains h) ∧
    (ids x.sent.flatten).Nodup := by
  have hs := sound_of_reachable hU hx
  refine ⟨fun tips bits hph r₁ hr₁ => ?_, hs.believes.known, hs.believes.unknown, hs.nodup⟩
  have hfl := hs.inFlight
  simp only [InFlight, hph] at hfl
  rw [hr₁.sentHaves hs.responder.wf]
  exact hfl.2 bits rfl

/-! The responder has a merge, and headers that it proposes; both graphs grow before the second
request. -/

section Merge

open V0

/-- Two roots, a merge of them, and a header above each. -/
def mergedHeaders : List TestHeader := [⟨1, []⟩, ⟨2, []⟩, ⟨3, [1, 2]⟩, ⟨4, [3]⟩, ⟨5, [2]⟩]

def mergedSet : Set TestHeader := { header | header ∈ mergedHeaders }

/-- The first request of an initiator that has one of the roots. -/
def mergedRequested : Session ℕ TestHeader :=
  { Session.start with
    initiatorEcg := (UntypedState.new.insertHeader ⟨1, []⟩ []).1
    responderEcg := ((((UntypedState.new.insertHeader ⟨1, []⟩ []).1.insertHeader
      ⟨2, []⟩ []).1.insertHeader ⟨3, [1, 2]⟩ []).1.insertHeader ⟨5, [2]⟩ []).1
    phase := .requested [1] none }

def mergedAnswer : ECGSyncResponder ℕ × List (TestHeader × RawECGBody) :=
  value (mergedRequested.handle 20 [1] none) (by decide)

lemma mergedAnswer_eq : mergedRequested.handle 20 [1] none = .ok mergedAnswer := eq_ok_value _

/-- The response has arrived. -/
def mergedReceived : Session ℕ TestHeader :=
  { mergedRequested with
    responder := mergedAnswer.1
    initiator := some ⟨mergedAnswer.1.sentHaves⟩
    phase := .idle
    sent := [mergedAnswer.2] }

/-- Before the second request the initiator gets the other root, and the responder a header. -/
def mergedGrown : Session ℕ TestHeader :=
  { mergedReceived with
    initiatorEcg := (mergedReceived.initiatorEcg.insertHeader ⟨2, []⟩ []).1
    responderEcg := (mergedReceived.responderEcg.insertHeader ⟨4, [3]⟩ []).1 }

def mergedBitmap : HeaderBitmap :=
  value (ECGSyncInitiator.knownBitmap ⟨mergedAnswer.1.sentHaves⟩ mergedGrown.initiatorEcg)
    (by decide)

def mergedAgain : Session ℕ TestHeader :=
  { mergedGrown with phase := .requested mergedGrown.initiatorEcg.tips.toList (some mergedBitmap) }

lemma injOn_mergedSet : Set.InjOn (getHeaderId : TestHeader → ℕ) mergedSet := by
  have hall : ∀ a ∈ mergedHeaders, ∀ b ∈ mergedHeaders, getHeaderId a = getHeaderId b → a = b := by
    decide
  exact fun a ha b hb => hall a ha b hb

lemma reachable_mergedAgain : Reachable mergedSet mergedAgain := by
  have hmem : ∀ header ∈ mergedHeaders, header ∈ mergedSet := fun _ h => h
  have hbits : mergedGrown.request = .ok (some mergedBitmap) :=
    congrArg (· >>= fun known => pure (some known)) (eq_ok_value (x := ECGSyncInitiator.knownBitmap
      ⟨mergedAnswer.1.sentHaves⟩ mergedGrown.initiatorEcg) (by decide))
  have hanswer : mergedRequested.answer [1] mergedAnswer.1 mergedAnswer.2 =
      { mergedRequested with
        responder := mergedAnswer.1
        phase := .responded mergedAnswer.1.sentHaves mergedAnswer.2
        sent := [mergedAnswer.2] } := if_neg (by decide)
  have h₁ : Reachable mergedSet mergedRequested :=
    (((((Relation.ReflTransGen.refl.tail (.initiatorGrows _ [] (hmem ⟨1, []⟩ (by decide)))).tail
      (.responderGrows _ [] (hmem ⟨1, []⟩ (by decide)))).tail
      (.responderGrows _ [] (hmem ⟨2, []⟩ (by decide)))).tail
      (.responderGrows _ [] (hmem ⟨3, [1, 2]⟩ (by decide)))).tail
      (.responderGrows _ [] (hmem ⟨5, [2]⟩ (by decide)))).tail (.request rfl rfl)
  have h₂ : Reachable mergedSet (mergedRequested.answer [1] mergedAnswer.1 mergedAnswer.2) :=
    h₁.tail (.respond rfl ⟨20, mergedAnswer_eq⟩)
  rw [hanswer] at h₂
  have h₃ : Reachable mergedSet mergedReceived := h₂.tail (.receive rfl)
  have h₄ := h₃.tail (.initiatorGrows mergedReceived [] (hmem ⟨2, []⟩ (by decide)))
  have h₅ : Reachable mergedSet mergedGrown :=
    h₄.tail (.responderGrows _ [] (hmem ⟨4, [3]⟩ (by decide)))
  exact h₅.tail (.request rfl hbits)

/-- The tips of the second request are heard. -/
def heardTips (x : Session ℕ TestHeader) (tips : List ℕ) : Exec (ECGSyncResponder ℕ) := do
  let r ← x.responder.updateOurUnknown 20 x.responderEcg
  r.handleTheirTips 20 x.responderEcg tips

lemma hearsTipsOf_of_ok {x : Session ℕ TestHeader} {tips : List ℕ} {r : ECGSyncResponder ℕ}
    (h : heardTips x tips = .ok r) : HearsTipsOf x tips r := by
  obtain ⟨r₀, h₀, h₁⟩ := bind_eq_ok.mp h
  exact ⟨r₀, ⟨20, h₀⟩, 20, h₁⟩

lemma mergedHeard_isOk :
    (heardTips mergedAgain mergedGrown.initiatorEcg.tips.toList).isOk = true := by decide

/-- The second request, with its bitmap, and the merge that was sent before. -/
theorem beliefs_sound_merged : ∃ r₁,
    HearsTipsOf mergedAgain mergedGrown.initiatorEcg.tips.toList r₁ ∧ r₁.sentHaves = [5, 2] ∧
      mergedAgain.initiator = some ⟨r₁.sentHaves⟩ ∧ 3 ∈ ids mergedAgain.sent.flatten := by
  obtain ⟨hbits, hknown, -⟩ := beliefs_sound injOn_mergedSet reachable_mergedAgain
  have hears := hearsTipsOf_of_ok (eq_ok_value mergedHeard_isOk)
  obtain ⟨hini, -⟩ := hbits _ _ rfl _ hears
  exact ⟨_, hears, by decide, hini, (hknown 3 (by decide)).resolve_left (by decide)⟩

end Merge

end Ossa.EcgSync
