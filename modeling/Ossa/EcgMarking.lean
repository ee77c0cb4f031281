import Ossa.EcgHistory
import Ossa.EcgSyncLoops

/-!
The invariant of the headers marked as known: with a header go all its ancestors.

`mark_as_known_helper` takes the answer of `insert` for the opposite of what it is, so it walks
up from headers that were known before and stops at the new ones. It keeps the invariant
exactly when the parents of the header it is given are known already.
-/

namespace Ossa.EcgSync

open Ossa.Loop Ossa.Collections Ossa.Ecg

variable {HeaderId Header : Type} [LinearOrder HeaderId] [ECGHeader Header HeaderId]

/-- The documented invariant: the known headers are closed under parents. -/
def Closed (s : UntypedState HeaderId Header) (known : BTreeSet HeaderId) : Prop :=
  ∀ p h, s.Parent p h → h ∈ known → p ∈ known

/-- What marking `h` should do: it and all its ancestors become known. -/
def MarksAll (s : UntypedState HeaderId Header) (known : BTreeSet HeaderId) (h : HeaderId)
    (known' : BTreeSet HeaderId) : Prop :=
  ∀ x, x ∈ known' ↔ x ∈ known ∨ s.AncestorOrSelf x h

variable {s s' : UntypedState HeaderId Header} {known known' : BTreeSet HeaderId} {h a : HeaderId}
variable {n : ℕ} {r r' : ECGSyncResponder HeaderId}

lemma Closed.ancestor (hk : Closed s known) (ha : s.AncestorOrSelf a h) (hh : h ∈ known) :
    a ∈ known := by
  induction ha using Relation.ReflTransGen.head_induction_on with
  | refl => exact hh
  | head hp _ ih => exact hk _ _ hp ih

lemma mark_of_mem (hs : s.WellFormed) (hk : Closed s known) (hh : h ∈ known)
    (hm : markAsKnownHelper n s known h = .ok known') : ∀ x, x ∈ known' ↔ x ∈ known := by
  have hmarked := marked_of_eq hs hm
  intro x
  exact ⟨fun hx => (hmarked.only x hx).elim id fun ha => hk.ancestor ha hh, hmarked.grows x⟩

/-- **Marking stops at a new header**, so it does what it should if the parents are known. -/
theorem marksAll_iff (hs : s.WellFormed) (hk : Closed s known)
    (hm : markAsKnownHelper n s known h = .ok known') :
    MarksAll s known h known' ↔ ∀ p, s.Parent p h → p ∈ known := by
  by_cases hh : h ∈ known
  · refine ⟨fun _ p hp => hk p h hp hh, fun _ x => ?_⟩
    rw [mark_of_mem hs hk hh hm]
    exact ⟨Or.inl, fun hx => hx.elim id fun ha => hk.ancestor ha hh⟩
  · have heq := mark_of_not_mem hh hm
    subst heq
    constructor
    · intro hall p hp
      rcases mem_insert.mp ((hall p).mpr (Or.inr (.single hp))) with rfl | hmem
      · exact absurd (hs.rank_lt_rank hp) (lt_irrefl _)
      · exact hmem
    · intro hparents x
      rw [mem_insert]
      constructor
      · rintro (rfl | hx)
        · exact Or.inr .refl
        · exact Or.inl hx
      · rintro (hx | ha)
        · exact Or.inr hx
        · rcases ha.cases_tail with rfl | ⟨p, hap, hp⟩
          · exact Or.inl rfl
          · exact Or.inr (hk.ancestor hap (hparents p hp))

/-- So the invariant is kept under the same condition. -/
lemma Closed.mark (hs : s.WellFormed) (hk : Closed s known)
    (hm : markAsKnownHelper n s known h = .ok known') (hparents : ∀ p, s.Parent p h → p ∈ known) :
    Closed s known' := by
  have hall := (marksAll_iff hs hk hm).mpr hparents
  intro p x hp hx
  refine (hall p).mpr (((hall x).mp hx).imp (hk p x hp) fun ha => ?_)
  exact .head hp ha

/-! ### The steps of a responder -/

/-- The state after one iteration of a loop that returns its state. -/
def flowState {σ : Type} : Flow σ σ → σ
  | .next t => t
  | .done t => t

/-- One iteration of one of the loops of the responder. -/
inductive Move (HeaderId : Type)
  /-- They have no tips, so all root nodes are shared. -/
  | share
  | hear (tip : HeaderId)
  | claim (theyKnow : Bool) (headerId : HeaderId)
  | resolve (headerId : HeaderId)
  | ourTip (headerId : HeaderId)
  | operation
  | clear
  | propose

namespace Move

/-- `update_our_unknown`, for one header. -/
def resolveNext (n : ℕ) (s : UntypedState HeaderId Header) (r : ECGSyncResponder HeaderId)
    (headerId : HeaderId) : Exec (ECGSyncResponder HeaderId) :=
  if s.contains headerId then do
    let theirKnown ← markAsKnownHelper n s r.theirKnown headerId
    pure { r with theirKnown, ourUnknown := r.ourUnknown.erase headerId }
  else .ok r

def next (n : ℕ) (s : UntypedState HeaderId Header) (r : ECGSyncResponder HeaderId) :
    Move HeaderId → Exec (ECGSyncResponder HeaderId)
  | share => .ok (r.enqueue s.getRootNodesWithDepth)
  | hear tip => r.handleTheirTip n s tip
  | claim theyKnow headerId => r.handleClaim n s theyKnow headerId
  | resolve headerId => resolveNext n s r headerId
  | ourTip headerId => r.prepareOurTip s headerId
  | operation => do
    let f ← ECGSyncResponder.operationsBody n s (r, [])
    pure (flowState f).1
  | clear => .ok { r with sentHaves := [] }
  | propose => do
    let f ← ECGSyncResponder.havesBody s r
    pure (flowState f)

/-- The header that a step marks as known. -/
def marks (s : UntypedState HeaderId Header) (r : ECGSyncResponder HeaderId) :
    Move HeaderId → Option HeaderId
  | hear tip => if s.contains tip then some tip else none
  | claim theyKnow headerId => if theyKnow then some headerId else none
  | resolve headerId => if s.contains headerId then some headerId else none
  | operation => r.sendQueue.pop.bind fun e =>
    if r.theyKnow (ofLex e.1).2 then none else some (ofLex e.1).2
  | _ => none

end Move

omit [ECGHeader Header HeaderId] in
lemma theirKnown_enqueueChildren {msg : String} (h' : r.enqueueChildren s msg h = .ok r') :
    r'.theirKnown = r.theirKnown := by
  obtain ⟨cs, -, heq⟩ := bind_eq_ok.mp h'
  cases heq
  rfl

omit [ECGHeader Header HeaderId] in
lemma theirKnown_deliver {operations : List (Header × RawECGBody)}
    {w : ECGSyncResponder HeaderId × List (Header × RawECGBody)}
    (h' : r.deliver n s operations h = .ok w) :
    (r.theyKnow h = true ∧ w.1.theirKnown = r.theirKnown) ∨
      (r.theyKnow h = false ∧ s.contains h ∧
        markAsKnownHelper n s r.theirKnown h = .ok w.1.theirKnown) := by
  unfold ECGSyncResponder.deliver at h'
  by_cases hk : r.theyKnow h = true
  · simp only [hk, if_true] at h'
    cases h'
    exact Or.inl ⟨hk, rfl⟩
  · simp only [hk, Bool.false_eq_true, if_false] at h'
    obtain ⟨node, hnode, h'⟩ := bind_eq_ok.mp h'
    obtain ⟨r₁, hr₁, heq⟩ := bind_eq_ok.mp h'
    cases heq
    obtain ⟨k, hmark, rfl⟩ := markAsKnown_eq hr₁
    have hc := UntypedState.contains_iff_getNode.mpr ⟨node, orFault_eq_ok.mp hnode⟩
    exact Or.inr ⟨Bool.eq_false_iff.mpr hk, hc, hmark⟩

omit [ECGHeader Header HeaderId] in
lemma theirKnown_propose {depth distance : ℕ} (h' : r.propose s depth h distance = .ok r') :
    r'.theirKnown = r.theirKnown := by
  unfold ECGSyncResponder.propose at h'
  by_cases hk : r.theyKnow h = true
  · simp only [hk, if_true] at h'
    cases h'
    rfl
  · simp only [hk, Bool.false_eq_true, if_false] at h'
    obtain ⟨ps, -, heq⟩ := bind_eq_ok.mp h'
    cases heq
    rfl

omit [ECGHeader Header HeaderId] in
lemma theirKnown_havesBody {f : Flow (ECGSyncResponder HeaderId) (ECGSyncResponder HeaderId)}
    (h' : r.havesBody s = .ok f) : (flowState f).theirKnown = r.theirKnown := by
  unfold ECGSyncResponder.havesBody at h'
  cases hpop : r.havesQueue.pop with
  | none =>
    simp only [hpop] at h'
    cases h'
    rfl
  | some e =>
    obtain ⟨entry, queue⟩ := e
    simp only [hpop] at h'
    obtain ⟨r₁, h₁, heq⟩ := bind_eq_ok.mp h'
    cases heq
    rw [show r.theirKnown = r₁.theirKnown from (theirKnown_propose h₁).symm]
    split_ifs <;> rfl

omit [ECGHeader Header HeaderId] in
lemma theirKnown_operationsBody {operations : List (Header × RawECGBody)}
    {f : Flow (ECGSyncResponder HeaderId × List (Header × RawECGBody))
      (ECGSyncResponder HeaderId × List (Header × RawECGBody))}
    (h' : ECGSyncResponder.operationsBody n s (r, operations) = .ok f) :
    (Move.operation.marks s r = none ∧ (flowState f).1.theirKnown = r.theirKnown) ∨
      ∃ x, Move.operation.marks s r = some x ∧ s.contains x ∧
        markAsKnownHelper n s r.theirKnown x = .ok (flowState f).1.theirKnown := by
  unfold ECGSyncResponder.operationsBody at h'
  cases hpop : r.sendQueue.pop with
  | none =>
    simp only [hpop] at h'
    cases h'
    exact Or.inl ⟨by simp [Move.marks, hpop], rfl⟩
  | some e =>
    obtain ⟨entry, queue⟩ := e
    simp only [hpop] at h'
    obtain ⟨⟨r₁, operations'⟩, h₁, h'⟩ := bind_eq_ok.mp h'
    obtain ⟨r₂, h₂, heq⟩ := bind_eq_ok.mp h'
    have hknown : (flowState f).1.theirKnown = r₁.theirKnown := by
      rw [← theirKnown_enqueueChildren h₂]
      cases heq
      split_ifs <;> rfl
    rw [hknown]
    rcases theirKnown_deliver h₁ with ⟨hk, heq'⟩ | ⟨hk, hc, hmark⟩
    · exact Or.inl ⟨by simp only [Move.marks, hpop, Option.bind_some]; exact if_pos hk, heq'⟩
    · refine Or.inr ⟨_, ?_, hc, hmark⟩
      simp only [Move.marks, hpop, Option.bind_some]
      exact if_neg (by rw [show r.theyKnow _ = false from hk]; simp)

omit [ECGHeader Header HeaderId] in
/-- **A step marks the one header it is about**, or leaves the known headers alone. -/
theorem Move.next_known {m : Move HeaderId} (h' : m.next n s r = .ok r') :
    (m.marks s r = none ∧ r'.theirKnown = r.theirKnown) ∨ ∃ x, m.marks s r = some x ∧
      s.contains x ∧ markAsKnownHelper n s r.theirKnown x = .ok r'.theirKnown := by
  cases m with
  | share => cases h'; exact Or.inl ⟨rfl, rfl⟩
  | hear tip =>
    simp only [next, ECGSyncResponder.handleTheirTip] at h'
    split_ifs at h' with hc
    · obtain ⟨r₁, h₁, h₂⟩ := bind_eq_ok.mp h'
      obtain ⟨k, hmark, rfl⟩ := markAsKnown_eq h₁
      rw [theirKnown_enqueueChildren h₂]
      exact Or.inr ⟨tip, if_pos hc, hc, hmark⟩
    · cases h'
      exact Or.inl ⟨if_neg hc, rfl⟩
  | claim b x =>
    cases b with
    | true =>
      obtain ⟨r₁, h₁, h₂⟩ := bind_eq_ok.mp h'
      obtain ⟨k, hmark, rfl⟩ := markAsKnown_eq h₁
      obtain ⟨cs, hcs, -⟩ := bind_eq_ok.mp h₂
      have hc := UntypedState.contains_of_getChildrenWithDepth (orFault_eq_ok.mp hcs)
      rw [theirKnown_enqueueChildren h₂]
      exact Or.inr ⟨x, rfl, hc, hmark⟩
    | false =>
      refine Or.inl ⟨rfl, ?_⟩
      obtain ⟨ps, -, h'⟩ := bind_eq_ok.mp h'
      split_ifs at h' with hsend
      · obtain ⟨d, -, heq⟩ := bind_eq_ok.mp h'
        cases heq
        rfl
      · cases h'
        rfl
  | resolve x =>
    simp only [next, resolveNext] at h'
    split_ifs at h' with hc
    · obtain ⟨k, hmark, heq⟩ := bind_eq_ok.mp h'
      cases heq
      exact Or.inr ⟨x, if_pos hc, hc, hmark⟩
    · cases h'
      exact Or.inl ⟨if_neg hc, rfl⟩
  | ourTip x =>
    obtain ⟨d, -, heq⟩ := bind_eq_ok.mp h'
    cases heq
    exact Or.inl ⟨rfl, rfl⟩
  | operation =>
    obtain ⟨f, hf, heq⟩ := bind_eq_ok.mp h'
    cases heq
    exact theirKnown_operationsBody hf
  | clear => cases h'; exact Or.inl ⟨rfl, rfl⟩
  | propose =>
    obtain ⟨f, hf, heq⟩ := bind_eq_ok.mp h'
    cases heq
    exact Or.inl ⟨rfl, theirKnown_havesBody hf⟩

/-- The states of a responder that are reached by steps that meet a condition, on a graph that
grows. -/
inductive Answering (C : UntypedState HeaderId Header → ECGSyncResponder HeaderId →
    Move HeaderId → Prop) : UntypedState HeaderId Header → ECGSyncResponder HeaderId → Prop
  | start {s : UntypedState HeaderId Header} : s.WellFormed → Answering C s .new
  | grow {s s' : UntypedState HeaderId Header} {r : ECGSyncResponder HeaderId} :
    Answering C s r → s'.WellFormed → s.Grows s' → Answering C s' r
  | move {s : UntypedState HeaderId Header} {r r' : ECGSyncResponder HeaderId} {n : ℕ}
    {m : Move HeaderId} : Answering C s r → C s r m → m.next n s r = .ok r' → Answering C s r'

/-- The step marks no header with a parent that is not known yet. -/
def ParentsKnown (s : UntypedState HeaderId Header) (r : ECGSyncResponder HeaderId)
    (m : Move HeaderId) : Prop :=
  ∀ x, m.marks s r = some x → ∀ p, s.Parent p x → p ∈ r.theirKnown

/-- What holds of the known headers in a run. -/
structure KnownClosed (s : UntypedState HeaderId Header) (r : ECGSyncResponder HeaderId) : Prop where
  wf : s.WellFormed
  closed : Closed s r.theirKnown
  inGraph : ∀ x ∈ r.theirKnown, s.contains x

lemma KnownClosed.grow (hI : KnownClosed s r) (hs' : s'.WellFormed) (hg : s.Grows s') :
    KnownClosed s' r := by
  refine ⟨hs', fun p x hp hx => ?_, fun x hx => hg.contains (hI.inGraph x hx)⟩
  obtain ⟨info, hinfo⟩ := UntypedState.contains_iff_getNode.mp (hI.inGraph x hx)
  obtain ⟨info', hinfo', hmem⟩ := hp
  obtain rfl : info = info' := Option.some.inj ((hg x info hinfo).symm.trans hinfo')
  exact hI.closed p x ⟨info, hinfo, hmem⟩ hx

lemma KnownClosed.move {m : Move HeaderId} (hI : KnownClosed s r) (hm : ParentsKnown s r m)
    (h' : m.next n s r = .ok r') : KnownClosed s r' := by
  rcases m.next_known h' with ⟨-, heq⟩ | ⟨x, hx, hc, hmark⟩
  · exact ⟨hI.wf, heq ▸ hI.closed, heq ▸ hI.inGraph⟩
  · refine ⟨hI.wf, hI.closed.mark hI.wf hmark (hm x hx), fun y hy => ?_⟩
    rcases (marked_of_eq hI.wf hmark).only y hy with hy | ha
    · exact hI.inGraph y hy
    · exact UntypedState.AncestorOrSelf.contains hI.wf ha hc

theorem Answering.knownClosed (hrun : Answering ParentsKnown s r) : KnownClosed s r := by
  induction hrun with
  | start hs =>
    have hnone : ∀ {x : HeaderId}, x ∉ (ECGSyncResponder.new : ECGSyncResponder HeaderId).theirKnown := by
      simp [ECGSyncResponder.new]
    exact ⟨hs, fun _ _ _ hx => absurd hx hnone, fun _ hx => absurd hx hnone⟩
  | grow _ hs' hg ih => exact ih.grow hs' hg
  | move _ hm h' ih => exact ih.move hm h'

/-! ### The rounds are made of these steps -/

/-- The responder gets from one state to another by steps on one graph. -/
abbrev Moves (s : UntypedState HeaderId Header) :=
  Relation.ReflTransGen fun r r' : ECGSyncResponder HeaderId =>
    ∃ (n : ℕ) (m : Move HeaderId), m.next n s r = .ok r'

lemma Answering.moves {C : UntypedState HeaderId Header → ECGSyncResponder HeaderId →
    Move HeaderId → Prop} (hC : ∀ s r m, C s r m) (hrun : Answering C s r) (h : Moves s r r') :
    Answering C s r' := by
  induction h with
  | refl => exact hrun
  | tail _ hm ih =>
    obtain ⟨n, m, h'⟩ := hm
    exact ih.move (hC _ _ m) h'

section Moves

omit [ECGHeader Header HeaderId]

lemma moves_foldlM {α : Type} {f : ECGSyncResponder HeaderId → α → Exec (ECGSyncResponder HeaderId)}
    {l : List α} (h' : l.foldlM f r = .ok r')
    (hstep : ∀ r r' a, f r a = .ok r' → Moves s r r') : Moves s r r' :=
  foldlM_invariant (I := Moves s r) h' .refl fun t t' a _ ht h => ht.trans (hstep t t' a h)

lemma moves_handleTheirTips {tips : List HeaderId} (h' : r.handleTheirTips n s tips = .ok r') :
    Moves s r r' := by
  have hhear : ∀ {r₁}, tips.foldlM (fun self headerId => self.handleTheirTip n s headerId) r₁ =
      .ok r' → Moves s r₁ r' := fun h =>
    moves_foldlM h fun _ _ tip h => .single ⟨n, .hear tip, h⟩
  unfold ECGSyncResponder.handleTheirTips at h'
  dsimp only at h'
  split_ifs at h' with he
  · exact .head ⟨n, .share, rfl⟩ (hhear h')
  · exact hhear h'

lemma moves_handleTheirKnown {bits : HeaderBitmap} (h' : r.handleTheirKnown n s bits = .ok r') :
    Moves s r r' := by
  refine moves_foldlM h' fun t t' a h => ?_
  obtain ⟨b, -, h⟩ := bind_eq_ok.mp h
  exact .single ⟨n, .claim b a.1, h⟩

lemma moves_prepareOurTips (h' : r.prepareOurTips s = .ok r') : Moves s r r' :=
  moves_foldlM h' fun _ _ x h => .single ⟨0, .ourTip x, h⟩

lemma moves_resolve {l : List HeaderId} (r : ECGSyncResponder HeaderId)
    (known unknown : BTreeSet HeaderId) (hl : ∀ x ∈ l, s.contains x)
    (hm : l.foldlM (markAsKnownHelper n s) known = .ok known') :
    Moves s { r with theirKnown := known, ourUnknown := unknown }
      { r with theirKnown := known', ourUnknown := l.foldl Std.ExtTreeSet.erase unknown } := by
  induction l generalizing known unknown with
  | nil => cases hm; exact .refl
  | cons x l ih =>
    rw [List.foldlM_cons] at hm
    obtain ⟨k, hk, hm⟩ := bind_eq_ok.mp hm
    refine .head ⟨n, .resolve x, ?_⟩ (ih _ _ (fun y hy => hl y (List.mem_cons_of_mem _ hy)) hm)
    simp only [Move.next, Move.resolveNext, if_pos (hl x List.mem_cons_self), hk, ok_bind,
      pure_eq_ok]

lemma moves_updateOurUnknown (h' : r.updateOurUnknown n s = .ok r') : Moves s r r' := by
  obtain ⟨k, hk, heq⟩ := bind_eq_ok.mp h'
  cases heq
  exact moves_resolve r r.theirKnown r.ourUnknown (fun x hx => (List.mem_filter.mp hx).2) hk

lemma deliver_nil {operations : List (Header × RawECGBody)}
    {w : ECGSyncResponder HeaderId × List (Header × RawECGBody)}
    (h' : r.deliver n s operations h = .ok w) : ∃ l, r.deliver n s [] h = .ok (w.1, l) := by
  unfold ECGSyncResponder.deliver at h' ⊢
  by_cases hk : r.theyKnow h = true
  · simp only [hk, if_true] at h' ⊢
    cases h'
    exact ⟨[], rfl⟩
  · simp only [hk, Bool.false_eq_true, if_false] at h' ⊢
    obtain ⟨node, hnode, h'⟩ := bind_eq_ok.mp h'
    obtain ⟨r₁, hr₁, heq⟩ := bind_eq_ok.mp h'
    cases heq
    rw [hnode, ok_bind, hr₁]
    exact ⟨_, rfl⟩

lemma operation_next {w : ECGSyncResponder HeaderId × List (Header × RawECGBody)}
    {f : Flow (ECGSyncResponder HeaderId × List (Header × RawECGBody))
      (ECGSyncResponder HeaderId × List (Header × RawECGBody))}
    (h' : ECGSyncResponder.operationsBody n s w = .ok f) :
    Move.next n s w.1 .operation = .ok (flowState f).1 := by
  obtain ⟨r, operations⟩ := w
  show (ECGSyncResponder.operationsBody n s (r, []) >>= fun f => pure (flowState f).1) = _
  unfold ECGSyncResponder.operationsBody at h' ⊢
  cases hpop : r.sendQueue.pop with
  | none =>
    simp only [hpop] at h' ⊢
    cases h'
    rfl
  | some e =>
    obtain ⟨entry, queue⟩ := e
    simp only [hpop] at h' ⊢
    obtain ⟨⟨r₁, operations'⟩, h₁, h'⟩ := bind_eq_ok.mp h'
    obtain ⟨r₂, h₂, heq⟩ := bind_eq_ok.mp h'
    obtain ⟨l, hl⟩ := deliver_nil h₁
    cases heq
    simp only [hl, ok_bind, h₂, pure_eq_ok]
    split_ifs <;> rfl

lemma moves_prepareOperations {w : ECGSyncResponder HeaderId × List (Header × RawECGBody)}
    (h' : r.prepareOperations n s = .ok w) : Moves s r w.1 := by
  have hstep : ∀ {t f}, ECGSyncResponder.operationsBody n s t = .ok f →
      Moves s t.1 (flowState f).1 := fun {t f} h => .single ⟨n, .operation, operation_next h⟩
  obtain ⟨t, -, ht, hd⟩ := loop_invariant
    (I := fun w : ECGSyncResponder HeaderId × List (Header × RawECGBody) => Moves s r w.1) h' .refl
    fun t t' ht h => ht.trans (hstep h)
  exact ht.trans (hstep hd)

lemma moves_prepareSentHaves (h' : r.prepareSentHaves n s = .ok r') : Moves s r r' := by
  have hclear : Moves s r { r with sentHaves := [] } := .single ⟨n, .clear, rfl⟩
  have hstep : ∀ {t f}, ECGSyncResponder.havesBody s t = .ok f → Moves s t (flowState f) :=
    fun {t f} h => .single ⟨n, .propose, by rw [Move.next, h]; rfl⟩
  obtain ⟨t, -, ht, hd⟩ := loop_invariant (I := Moves s r) h' hclear
    fun t t' ht h => ht.trans (hstep h)
  exact ht.trans (hstep hd)

lemma moves_prepareResponse {w : ECGSyncResponder HeaderId × List (Header × RawECGBody)}
    (h' : r.prepareResponse n s = .ok w) : Moves s r w.1 := by
  obtain ⟨r₁, h₁, h'⟩ := bind_eq_ok.mp h'
  obtain ⟨⟨r₂, operations⟩, h₂, h'⟩ := bind_eq_ok.mp h'
  obtain ⟨r₃, h₃, heq⟩ := bind_eq_ok.mp h'
  cases heq
  exact (moves_prepareOurTips h₁).trans
    ((moves_prepareOperations h₂).trans (moves_prepareSentHaves h₃))

/-- **Each round is made of steps**, so its result is reached by them. -/
theorem moves_runInitial {tips : List HeaderId}
    {w : ECGSyncResponder HeaderId × List (Header × RawECGBody)}
    (h' : r.runInitial n s tips = .ok w) : Moves s r w.1 := by
  obtain ⟨r₁, h₁, h'⟩ := bind_eq_ok.mp h'
  exact (moves_handleTheirTips h₁).trans (moves_prepareResponse h')

theorem moves_runRound {tips : List HeaderId} {bits : HeaderBitmap}
    {w : ECGSyncResponder HeaderId × List (Header × RawECGBody)}
    (h' : r.runRound n s tips bits = .ok w) : Moves s r w.1 := by
  obtain ⟨r₁, h₁, h'⟩ := bind_eq_ok.mp h'
  obtain ⟨r₂, h₂, h'⟩ := bind_eq_ok.mp h'
  exact (moves_handleTheirTips h₁).trans
    ((moves_handleTheirKnown h₂).trans (moves_prepareResponse h'))

theorem moves_rerun {tips : List HeaderId}
    {w : ECGSyncResponder HeaderId × List (Header × RawECGBody)}
    (h' : r.rerun n s tips = .ok w) : Moves s r w.1 := by
  obtain ⟨r₁, h₁, h'⟩ := bind_eq_ok.mp h'
  obtain ⟨r₂, h₂, h'⟩ := bind_eq_ok.mp h'
  exact (moves_updateOurUnknown h₁).trans
    ((moves_handleTheirTips h₂).trans (moves_prepareResponse h'))

end Moves

/-- **When marking is right**: on a set that is closed under parents, marking `h` ends with `h`
and all its ancestors added if and only if the parents of `h` were known. So a responder whose
steps all mark headers with known parents only has all ancestors of what it knows. -/
theorem marking_right_iff (hs : s.WellFormed) (hk : Closed s known) (hc : s.contains h) :
    (∃ known', Returns (fun n => markAsKnownHelper n s known h) known' ∧
      (MarksAll s known h known' ↔ ∀ p, s.Parent p h → p ∈ known)) ∧
    ∀ (t : UntypedState HeaderId Header) (r : ECGSyncResponder HeaderId),
      Answering ParentsKnown t r → Closed t r.theirKnown := by
  constructor
  · obtain ⟨known', n, hn⟩ := returns_mark hs known hc
    exact ⟨known', ⟨n, hn⟩, marksAll_iff hs hk hn⟩
  · intro t r hrun
    exact hrun.knownClosed.closed

/-! A child whose parent is not known yet. -/

section Child

open V0

/-- A root and its child. -/
def childGraph : UntypedState ℕ TestHeader := insertAll .new [(⟨1, []⟩, []), (⟨2, [1]⟩, [])]

lemma childGraph_parent : childGraph.Parent 1 2 := ⟨_, rfl, by decide⟩

theorem marking_right_iff_child : ∃ known',
    Returns (fun n => markAsKnownHelper n childGraph ∅ 2) known' ∧
      ¬ MarksAll childGraph ∅ 2 known' := by
  have hclosed : Closed childGraph ∅ := fun _ _ _ hx => absurd hx (by simp)
  have hc : childGraph.contains 2 := by decide
  obtain ⟨⟨known', hr, hiff⟩, -⟩ := marking_right_iff (records_insertAll _).wf hclosed hc
  refine ⟨known', hr, fun hall => ?_⟩
  exact absurd (hiff.mp hall 1 childGraph_parent) (by simp)

lemma child_isOk : (ECGSyncResponder.new.runInitial 8 childGraph [2]).isOk = true := by decide

/-- **The invariant is broken**: marking a child leaves its parent out, and a responder that
is told of the child knows a header without its ancestors. -/
theorem marking_leaves_ancestors_out :
    (¬ ∀ (s : UntypedState ℕ TestHeader) (known known' : BTreeSet ℕ) (h : ℕ), s.WellFormed →
      Closed s known → s.contains h →
        Returns (fun n => markAsKnownHelper n s known h) known' → MarksAll s known h known') ∧
    ¬ ∀ (s : UntypedState ℕ TestHeader) (r : ECGSyncResponder ℕ),
      Answering (fun _ _ _ => True) s r → Closed s r.theirKnown := by
  constructor
  · intro hall
    have hmark : Returns (fun n => markAsKnownHelper n childGraph ∅ 2) ((∅ : BTreeSet ℕ).insert 2) :=
      ⟨2, rfl⟩
    have hclosed : Closed childGraph ∅ := fun _ _ _ hx => absurd hx (by simp)
    have hc : childGraph.contains 2 := by decide
    have hone := (hall _ _ _ _ (records_insertAll _).wf hclosed hc hmark 1).mpr
      (Or.inr (.single childGraph_parent))
    exact absurd hone (by decide)
  · intro hall
    have hstart : Answering (fun _ _ _ => True) childGraph .new :=
      .start (records_insertAll _).wf
    have hrun := hstart.moves (fun _ _ _ => trivial) (moves_runInitial (eq_ok_value child_isOk))
    exact absurd (hall _ _ hrun 1 2 childGraph_parent (by decide)) (by decide)

end Child

end Ossa.EcgSync
