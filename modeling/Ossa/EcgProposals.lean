import Mathlib.Data.Multiset.Bind
import Ossa.EcgBeliefs
import Ossa.EcgHistory

/-!
Which headers are proposed, and how often.

The walk of `prepare_sent_haves` goes up from the entries of the haves queue and forgets where
it has been: a header is proposed once for each way that leads to it, if its distance along
that way is a power of two or if it is a root. The list of a call is part of all these
proposals, and is all of them unless the bound of the list is reached.
-/

namespace Ossa.EcgSync

open Ossa.Loop Ossa.Collections Ossa.Ecg

variable {HeaderId Header : Type} [LinearOrder HeaderId] [ECGHeader Header HeaderId]

/-- The proposals on all ways up from a header, through headers they do not know. -/
def proposals (s : UntypedState HeaderId Header) (theyKnow : HeaderId → Bool) :
    ℕ → ℕ → HeaderId → ℕ → List HeaderId
  | 0, _, _, _ => []
  | n + 1, depth, headerId, distance =>
    if theyKnow headerId then []
    else (if isPowerOfTwo distance || depth = 1 then [headerId] else []) ++
      ((s.getParentsWithDepth headerId).getD []).flatMap fun p =>
        proposals s theyKnow n p.1 p.2 (distance + 1)

/-- The proposals of an entry of the haves queue. A way is no longer than the graph is large. -/
def entryProposals (s : UntypedState HeaderId Header) (theyKnow : HeaderId → Bool)
    (e : Bool ×ₗ ℕ ×ₗ HeaderId ×ₗ ℕ) : List HeaderId :=
  proposals s theyKnow s.dependencyGraph.nodes.length (ofLex (ofLex e).2).1 (haveHeader e)
    (ofLex (ofLex (ofLex e).2).2).2

/-- What `prepare_sent_haves` proposes if its list is not bounded. -/
def allProposals (s : UntypedState HeaderId Header) (theyKnow : HeaderId → Bool)
    (queue : BinaryHeap (Bool ×ₗ ℕ ×ₗ HeaderId ×ₗ ℕ)) : Multiset HeaderId :=
  queue.entries.bind fun e => entryProposals s theyKnow e

variable {s : UntypedState HeaderId Header} {theyKnow : HeaderId → Bool} {h : HeaderId}
  {n m d k : ℕ} {r r' : ECGSyncResponder HeaderId}

lemma proposals_eq (hs : s.WellFormed) (hc : s.contains h) (hn : s.rank h < n) (hnm : n ≤ m) :
    proposals s theyKnow m d h k = proposals s theyKnow n d h k := by
  induction n generalizing m d h k with
  | zero => omega
  | succ n ih =>
    obtain ⟨m, rfl⟩ : ∃ l, m = l + 1 := ⟨m - 1, by omega⟩
    obtain ⟨ps, hps, hmem⟩ := hs.parentsWithDepth hc
    have hparents : ∀ p ∈ ps, proposals s theyKnow m p.1 p.2 (k + 1) =
        proposals s theyKnow n p.1 p.2 (k + 1) := by
      rintro ⟨d', p⟩ hp
      have hparent := ((hmem d' p).mp hp).1
      have hrank := hs.rank_lt_rank hparent
      exact ih (hs.closed hparent) (by dsimp only; omega) (by omega)
    rw [proposals, proposals, hps, Option.getD_some, List.flatMap_congr hparents]

lemma rank_lt_length (hs : s.WellFormed) (hc : s.contains h) :
    s.rank h < s.dependencyGraph.nodes.length := by
  obtain ⟨info, hinfo⟩ := UntypedState.contains_iff_getNode.mp hc
  have hlt := (List.getElem?_eq_some_iff.mp (hs.index hinfo)).1
  simpa [UntypedState.rank, hinfo] using hlt

/-- **The proposals of an entry** are its own, and those of the entries of its parents. -/
lemma entryProposals_eq (hs : s.WellFormed) {ps : List (ℕ × HeaderId)} (b : Bool)
    (hps : s.getParentsWithDepth h = some ps) :
    entryProposals s theyKnow (haveEntry b d h k) = if theyKnow h then []
      else (if isPowerOfTwo k || d = 1 then [h] else []) ++
        ps.flatMap fun p => entryProposals s theyKnow (haveEntry false p.1 p.2 (k + 1)) := by
  have hc := UntypedState.contains_of_getParentsWithDepth hps
  have hlt := rank_lt_length hs hc
  obtain ⟨ps', hps', hmem⟩ := hs.parentsWithDepth hc
  obtain rfl : ps = ps' := Option.some.inj (hps.symm.trans hps')
  obtain ⟨n, hn⟩ : ∃ n, s.dependencyGraph.nodes.length = n + 1 := ⟨_, (Nat.sub_add_cancel
    (by omega : 1 ≤ s.dependencyGraph.nodes.length)).symm⟩
  have hparents : ∀ p ∈ ps, proposals s theyKnow n p.1 p.2 (k + 1) =
      entryProposals s theyKnow (haveEntry false p.1 p.2 (k + 1)) := by
    rintro ⟨d', p⟩ hp
    have hparent := ((hmem d' p).mp hp).1
    have hrank := hs.rank_lt_rank hparent
    exact (proposals_eq hs (hs.closed hparent) (by omega) (by omega)).symm
  change proposals s theyKnow s.dependencyGraph.nodes.length d h k = _
  rw [hn, proposals, hps, Option.getD_some, List.flatMap_congr hparents]

/-! ### The walk -/

omit [ECGHeader Header HeaderId] in
lemma allProposals_of_pop {queue queue' : BinaryHeap (Bool ×ₗ ℕ ×ₗ HeaderId ×ₗ ℕ)}
    {e : Bool ×ₗ ℕ ×ₗ HeaderId ×ₗ ℕ} (hpop : queue.pop = some (e, queue')) :
    allProposals s theyKnow queue =
      (entryProposals s theyKnow e : Multiset HeaderId) + allProposals s theyKnow queue' := by
  rw [allProposals, BinaryHeap.entries_of_pop hpop, Multiset.cons_bind, allProposals]

omit [ECGHeader Header HeaderId] in
lemma allProposals_extend (queue : BinaryHeap (Bool ×ₗ ℕ ×ₗ HeaderId ×ₗ ℕ))
    (l : List (Bool ×ₗ ℕ ×ₗ HeaderId ×ₗ ℕ)) :
    allProposals s theyKnow (queue.extend l) = allProposals s theyKnow queue +
      (l.flatMap (entryProposals s theyKnow) : Multiset HeaderId) := by
  rw [allProposals, BinaryHeap.entries_extend, Multiset.add_bind, allProposals, Multiset.coe_bind]

open ECGSyncResponder in
lemma propose_proposals (hs : s.WellFormed) (b : Bool) (hc : s.contains h)
    (h' : propose r s d h k = .ok r') :
    r'.theirKnown = r.theirKnown ∧ r'.ourUnknown = r.ourUnknown ∧
      (r'.sentHaves : Multiset HeaderId) + allProposals s r.theyKnow r'.havesQueue =
        r.sentHaves + (entryProposals s r.theyKnow (haveEntry b d h k) +
          allProposals s r.theyKnow r.havesQueue) := by
  obtain ⟨ps, hps, -⟩ := hs.parentsWithDepth hc
  rw [entryProposals_eq hs b hps]
  unfold propose at h'
  by_cases hk : r.theyKnow h = true
  · simp only [hk, if_true] at h'
    cases h'
    refine ⟨rfl, rfl, ?_⟩
    rw [if_pos hk, Multiset.coe_nil, zero_add]
  · simp only [hk] at h'
    obtain ⟨ps', hps', h'⟩ := bind_eq_ok.mp h'
    rw [orFault_eq_ok, hps] at hps'
    cases hps'
    cases h'
    refine ⟨rfl, rfl, ?_⟩
    rw [if_neg hk, allProposals_extend, List.flatMap_map, ← Multiset.coe_add]
    split_ifs
    · rw [← Multiset.coe_add]
      ac_rfl
    · rw [Multiset.coe_nil, zero_add]
      ac_rfl

/-- The walk so far has proposed a part of the proposals from `r`, and the rest is to come. -/
structure Proposes (s : UntypedState HeaderId Header) (r u : ECGSyncResponder HeaderId) :
    Prop where
  theirKnown : u.theirKnown = r.theirKnown
  ourUnknown : u.ourUnknown = r.ourUnknown
  pending : ∀ h, Pending u h → s.contains h
  proposals : (u.sentHaves : Multiset HeaderId) + allProposals s r.theyKnow u.havesQueue =
    allProposals s r.theyKnow r.havesQueue

open ECGSyncResponder in
lemma Proposes.step {u u' : ECGSyncResponder HeaderId} (hs : s.WellFormed) (hu : Proposes s r u)
    {f : Flow (ECGSyncResponder HeaderId) (ECGSyncResponder HeaderId)}
    (hb : havesBody s u = .ok f) (hf : f = .next u' ∨ f = .done u') : Proposes s r u' := by
  have hknow : r.theyKnow = u.theyKnow := funext fun x => by
    simp only [theyKnow, hu.theirKnown, hu.ourUnknown]
  have hpending : ∀ x, Pending u' x → s.contains x := by
    intro x hx
    rcases havesBody_cases hs hb with ⟨-, rfl⟩ | ⟨b, d, h, k, v, hv, rfl⟩
    · rcases hf with hf | hf <;> cases hf
      exact hu.pending x hx
    · have hv' : v = u' := by
        split_ifs at hf <;> rcases hf with hf | hf <;> cases hf <;> rfl
      obtain ⟨b', d', k', hx⟩ := hx
      rcases hv.queuedOnly b' d' x k' (hv' ▸ hx) with hx | hx
      · exact hu.pending x ⟨b', d', k', hx⟩
      · exact UntypedState.contains_iff_depth.mpr ⟨d', hx⟩
  unfold havesBody at hb
  cases hpop : u.havesQueue.pop with
  | none =>
    simp only [hpop] at hb
    cases hb
    rcases hf with hf | hf <;> cases hf
    exact hu
  | some top =>
    obtain ⟨e, queue⟩ := top
    obtain ⟨b, d, h, k, rfl⟩ := haveEntry_eta e
    simp only [hpop] at hb
    obtain ⟨v, hv, hb⟩ := bind_eq_ok.mp hb
    have hv' : v = u' := by
      cases hb
      split_ifs at hf <;> rcases hf with hf | hf <;> cases hf <;> rfl
    subst hv'
    have hc : s.contains h :=
      hu.pending h ⟨b, d, k, (BinaryHeap.mem_of_pop hpop).mpr (Or.inl rfl)⟩
    obtain ⟨hknown, hunknown, hsum⟩ := propose_proposals hs b hc hv
    refine ⟨hknown.trans hu.theirKnown, hunknown.trans hu.ourUnknown, hpending, ?_⟩
    rw [← hu.proposals, hknow, allProposals_of_pop hpop]
    exact hsum

/-- **The list of proposals** is a part of all proposals, and all of them if it is not full. -/
theorem prepareSentHaves_proposals (hs : s.WellFormed) (hr : InGraph s r)
    (h' : r.prepareSentHaves n s = .ok r') :
    (r'.sentHaves : Multiset HeaderId) ≤ allProposals s r.theyKnow r.havesQueue ∧
      (r'.sentHaves.length < maxHaveHeaders →
        (r'.sentHaves : Multiset HeaderId) = allProposals s r.theyKnow r.havesQueue) := by
  have hinit : Proposes s r { r with sentHaves := [] } :=
    ⟨rfl, rfl, fun h ⟨b, d, k, hh⟩ => UntypedState.contains_iff_depth.mpr ⟨d, hr.haves b d h k hh⟩,
      by rw [Multiset.coe_nil, zero_add]⟩
  obtain ⟨u, -, hu, hdone⟩ := loop_invariant h' hinit fun u v hu hv => hu.step hs hv (Or.inl rfl)
  have hend := hu.step hs hdone (Or.inr rfl)
  refine ⟨hend.proposals ▸ Multiset.le_add_right _ _, fun hlt => ?_⟩
  have hempty : r'.havesQueue.entries = 0 := Multiset.eq_zero_of_forall_notMem
    ((prepareSentHaves_spec hs hr.haves h').2 hlt)
  have hsum := hend.proposals
  rwa [allProposals, hempty, Multiset.zero_bind, add_zero] at hsum

/-! ### The calls of a session -/

variable {U : Set Header} {x : Session HeaderId Header}

/-- The state in which the responder of a session calls `prepare_sent_haves`. -/
def Prepared (x : Session HeaderId Header) (r : ECGSyncResponder HeaderId) : Prop :=
  ∃ r₀ r₁ operations, Hears x r₀ ∧ r₀.prepareOurTips x.responderEcg = .ok r₁ ∧
    Returns (fun n => r₁.prepareOperations n x.responderEcg) (r, operations)

lemma Prepared.inGraph (hx : Sound U x) (hr : Prepared x r) : InGraph x.responderEcg r := by
  obtain ⟨r₀, r₁, operations, hears, htips, n, hops⟩ := hr
  have hs := hx.responder.wf
  have hr₀ := hears.inGraph hx
  obtain ⟨he, -⟩ := prepareOurTips_spec htips
  obtain ⟨hd, -⟩ := prepareOperations_spec hs hops
  refine ⟨fun h hh => ?_, fun d h hh => ?_, ?_, fun b d h k hh => ?_⟩
  · rcases (hd.known h).mp hh with hh | hh
    · exact hr₀.known h (he.theirKnown ▸ hh)
    · obtain ⟨op, hop, rfl⟩ := List.mem_map.mp hh
      obtain ⟨info, hinfo, -⟩ := hd.nodes op hop
      exact UntypedState.contains_iff_getNode.mpr ⟨info, hinfo⟩
  · rcases hd.sendOnly d h hh with hh | hh
    · exact hr₀.send d h (he.sendQueue ▸ hh)
    · exact hh
  · rw [hd.sentHaves, he.sentHaves]
    exact hr₀.sent
  · rw [hd.havesQueue] at hh
    exact (he.queuedOnly b d h k hh).elim (hr₀.haves b d h k) And.right

omit [ECGHeader Header HeaderId] in
/-- A response ends with a call of `prepare_sent_haves`. -/
lemma Hears.prepared {operations : List (Header × RawECGBody)} (hr : Hears x r)
    (h' : Returns (fun n => r.prepareResponse n x.responderEcg) (r', operations)) :
    ∃ u, Prepared x u ∧ Returns (fun n => u.prepareSentHaves n x.responderEcg) r' := by
  obtain ⟨n, h'⟩ := h'
  obtain ⟨r₁, h₁, h'⟩ := bind_eq_ok.mp h'
  obtain ⟨⟨u, ops⟩, h₂, h'⟩ := bind_eq_ok.mp h'
  obtain ⟨r₃, h₃, heq⟩ := bind_eq_ok.mp h'
  cases heq
  exact ⟨u, ⟨r, r₁, _, hr, h₁, n, h₂⟩, n, h₃⟩

/-- **Each call of `prepare_sent_haves` returns a bounded list of useful headers**, without
repetitions if no two ways up propose the same header; and only then, if the list is not full. -/
theorem prepareSentHaves_once (hU : Set.InjOn (getHeaderId : Header → HeaderId) U)
    (hx : Reachable U x) (hr : Prepared x r) :
    ∃ r', Returns (fun n => r.prepareSentHaves n x.responderEcg) r' ∧
      r'.sentHaves.length ≤ maxHaveHeaders ∧
      (∀ h ∈ r'.sentHaves, x.responderEcg.contains h ∧ h ∉ r'.theirKnown ∧ h ∉ r'.ourUnknown) ∧
      ((allProposals x.responderEcg r.theyKnow r.havesQueue).Nodup → r'.sentHaves.Nodup) ∧
      (r'.sentHaves.length < maxHaveHeaders → r'.sentHaves.Nodup →
        (allProposals x.responderEcg r.theyKnow r.havesQueue).Nodup) := by
  have hsound := sound_of_reachable hU hx
  have hs := hsound.responder.wf
  have hin := hr.inGraph hsound
  obtain ⟨r', n, h'⟩ := returns_prepareSentHaves hs fun h ⟨b, d, k, hh⟩ =>
    UntypedState.contains_iff_depth.mpr ⟨d, hin.haves b d h k hh⟩
  obtain ⟨hw, -⟩ := prepareSentHaves_spec hs hin.haves h'
  obtain ⟨hle, heq⟩ := prepareSentHaves_proposals hs hin h'
  refine ⟨r', ⟨n, h'⟩, hw.length, fun h hh => ?_, fun hnodup => ?_, fun hlt hnodup => ?_⟩
  · obtain ⟨hc, hk⟩ := hw.sent h hh
    rw [← hw.theyKnow, Bool.eq_false_iff, ne_eq, theyKnow_iff, not_or] at hk
    exact ⟨hc, hk⟩
  · exact Multiset.coe_nodup.mp (Multiset.nodup_of_le hle hnodup)
  · rw [← heq hlt]
    exact Multiset.coe_nodup.mpr hnodup

/-! ### A merge -/

section Merge

open V0

/-- The graph of the responder grows by headers of `U`. -/
lemma reachable_insertAll (hx : Reachable U x) {calls : List (Header × RawECGBody)}
    (hcalls : ∀ call ∈ calls, call.1 ∈ U) :
    Reachable U { x with responderEcg := insertAll x.responderEcg calls } := by
  induction calls generalizing x with
  | nil => exact hx
  | cons call calls ih =>
    have hgrow := Relation.ReflTransGen.tail hx
      (.responderGrows x call.2 (hcalls call List.mem_cons_self))
    exact ih hgrow fun c hc => hcalls c (List.mem_cons_of_mem _ hc)

/-- A root of the initiator, and the root of the responder with two branches that merge. -/
def knownHeaders : List TestHeader := [⟨9, []⟩, ⟨1, []⟩, ⟨2, [1]⟩, ⟨3, [1]⟩, ⟨4, [2, 3]⟩]

def knownSet : Set TestHeader := { header | header ∈ knownHeaders }

lemma injOn_knownSet : Set.InjOn (getHeaderId : TestHeader → ℕ) knownSet := by
  have hall : ∀ a ∈ knownHeaders, ∀ b ∈ knownHeaders,
      getHeaderId a = getHeaderId b → a = b := by decide
  exact fun a ha b hb => hall a ha b hb

/-- The initiator, with one header, has sent its first request to a responder with `headers`. -/
def asked (headers : List TestHeader) : Session ℕ TestHeader :=
  { Session.start with
    initiatorEcg := (UntypedState.new.insertHeader ⟨9, []⟩ []).1
    responderEcg := insertAll .new (headers.map fun header => (header, []))
    phase := .requested [9] none }

lemma reachable_asked {headers : List TestHeader} (h : ∀ header ∈ headers, header ∈ knownHeaders) :
    Reachable knownSet (asked headers) := by
  have hcalls : ∀ call ∈ headers.map fun header => (header, ([] : RawECGBody)),
      call.1 ∈ knownSet := by
    intro call hcall
    obtain ⟨header, hmem, rfl⟩ := List.mem_map.mp hcall
    exact h header hmem
  have hgrow := reachable_insertAll (U := knownSet) (x := .start) .refl hcalls
  have hini := hgrow.tail (.initiatorGrows _ [] (show ⟨9, []⟩ ∈ knownSet by
    exact List.mem_cons_self))
  exact hini.tail (.request rfl rfl)

/-- The state of the responder at its call of `prepare_sent_haves`. -/
def askedHears (headers : List TestHeader) : Exec (ECGSyncResponder ℕ × List (TestHeader × RawECGBody)) := do
  let r ← (asked headers).responder.updateOurUnknown 8 (asked headers).responderEcg
  let r ← r.handleTheirTips 8 (asked headers).responderEcg [9]
  let r ← r.prepareOurTips (asked headers).responderEcg
  r.prepareOperations 8 (asked headers).responderEcg

lemma prepared_asked {headers : List TestHeader} {w : ECGSyncResponder ℕ × List (TestHeader × RawECGBody)}
    (h : askedHears headers = .ok w) : Prepared (asked headers) w.1 := by
  obtain ⟨r₀, h₀, h⟩ := bind_eq_ok.mp h
  obtain ⟨r₁, h₁, h⟩ := bind_eq_ok.mp h
  obtain ⟨r₂, h₂, h⟩ := bind_eq_ok.mp h
  exact ⟨r₁, r₂, w.2, .first rfl ⟨r₀, ⟨8, h₀⟩, 8, h₁⟩, h₂, 8, h⟩

/-- Of a root with one child, each is proposed once. -/
theorem prepareSentHaves_once_chain : ∃ r', r'.sentHaves.Nodup ∧
    Returns (fun n => (value (askedHears [⟨1, []⟩, ⟨2, [1]⟩]) (by decide)).1.prepareSentHaves n
      (asked [⟨1, []⟩, ⟨2, [1]⟩]).responderEcg) r' := by
  have hreach : Reachable knownSet (asked [⟨1, []⟩, ⟨2, [1]⟩]) := reachable_asked (by decide)
  obtain ⟨r', hret, -, -, hnodup, -⟩ := prepareSentHaves_once injOn_knownSet hreach
    (prepared_asked (eq_ok_value (x := askedHears [⟨1, []⟩, ⟨2, [1]⟩]) (by decide)))
  exact ⟨r', hnodup (by decide), hret⟩

lemma merge_isOk : (askedHears knownHeaders.tail).isOk = true := by decide

/-- The root below a merge is proposed twice. -/
theorem root_proposed_twice : ∃ r r', Reachable knownSet (asked knownHeaders.tail) ∧
    Prepared (asked knownHeaders.tail) r ∧
    Returns (fun n => r.prepareSentHaves n (asked knownHeaders.tail).responderEcg) r' ∧
    r'.sentHaves = [4, 3, 2, 1, 1] ∧ ¬ r'.sentHaves.Nodup := by
  refine ⟨_, value ((value _ merge_isOk).1.prepareSentHaves 16
    (asked knownHeaders.tail).responderEcg) (by decide), reachable_asked (by decide),
    prepared_asked (eq_ok_value merge_isOk), ⟨16, eq_ok_value _⟩, by decide, by decide⟩

end Merge

end Ossa.EcgSync
