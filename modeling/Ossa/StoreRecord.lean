import Ossa.Record
import Ossa.StoreConverge

/-!
Stores of records.

The store of a record is a store of each of its fields: the operations on a field lead to the
value of the field, whatever is done to the others. So two stores with the same headers agree on
every field whose operations commute. They agree on a register unless one of its writes overtakes
another.
-/

namespace Ossa.Store

open Ossa.Loop Ossa.Util Ossa.Collections Ossa.Ecg Ossa.Crdt Ossa.Linearize

variable {StoreId H HeaderId Header Body T Op T' Op' : Type} [LinearOrder HeaderId]
  [ECGHeader Header HeaderId]

/-! ### A part of a state -/

section Part

variable [CRDT T Op (OperationId HeaderId)] [CRDT T' Op' (OperationId HeaderId)]

/-- Part `f` of a state follows the operations that `sel` selects. -/
def Follows (HeaderId : Type) [CRDT T Op (OperationId HeaderId)]
    [CRDT T' Op' (OperationId HeaderId)] (f : T → T') (sel : List Op → List Op') : Prop :=
  ∀ (st : CausalState (OperationId HeaderId)) ops t t', ops.foldlM (CRDT.apply st) t = .ok t' →
    (sel ops).foldlM (CRDT.apply st) (f t) = .ok (f t')

variable {OT : OssaType StoreId H HeaderId Body T Op} {OT' : OssaType StoreId H HeaderId Body T' Op'}
  {initial latest : T} {ecg : UntypedState HeaderId Header} {log : List (Header × Body)}
  {graphs : List (UntypedState HeaderId Header)}

/-- **A part of a state** is what the operations selected for it lead to. -/
theorem Replays.part (h : Replays OT initial ecg latest log graphs) {f : T → T'}
    {sel : List Op → List Op'} (hf : Follows HeaderId f sel)
    (hto : OT'.bodyToVec = OT.bodyToVec) (hfrom : OT'.bodyFromSlice = OT.bodyFromSlice)
    (hops : ∀ e ∈ log, OT'.operations e.2 (getHeaderId e.1) =
      sel (OT.operations e.2 (getHeaderId e.1))) :
    Replays OT' (f initial) ecg (f latest) log graphs where
  records := h.records
  bodies e he := by
    obtain ⟨info, hinfo, hheader, hstored⟩ := h.bodies e he
    refine ⟨info, hinfo, hheader, ?_⟩
    rwa [OssaType.Stored, hto, hfrom]
  length := h.length
  prefixes := h.prefixes
  fold := by
    have hmem : ∀ x ∈ log.zip graphs, x.1 ∈ log := fun x hx => (List.of_mem_zip hx).1
    have hfold := h.fold
    generalize log.zip graphs = entries at hmem hfold
    clear h
    induction entries generalizing initial with
    | nil =>
      cases hfold
      rfl
    | cons x entries ih =>
      obtain ⟨t, ht, hrest⟩ := bind_eq_ok.mp hfold
      refine bind_eq_ok.mpr ⟨f t, ?_, ih (fun y hy => hmem y (List.mem_cons_of_mem x hy)) hrest⟩
      rw [applyEntry, foldlM_timed] at ht
      rw [applyEntry, foldlM_timed, hops x.1 (hmem x List.mem_cons_self)]
      exact hf _ _ _ _ ht

end Part

/-! ### The fields of a record -/

section Fields

variable {ι : Type} [DecidableEq ι] {F O : ι → Type} [∀ i, CRDT (F i) (O i) (OperationId HeaderId)]

/-- The type of one field: it has the bodies of the record, and their operations on the field. -/
structure IsField (OT : OssaType StoreId H HeaderId Body (Record F) (RecordOp O)) (i : ι)
    (FT : OssaType StoreId H HeaderId Body (F i) (O i)) : Prop where
  bodyToVec : FT.bodyToVec = OT.bodyToVec
  bodyFromSlice : FT.bodyFromSlice = OT.bodyFromSlice
  operations (body : Body) (h : HeaderId) :
    FT.operations body h = (OT.operations body h).filterMap (RecordOp.at? i)

variable {OT : OssaType StoreId H HeaderId Body (Record F) (RecordOp O)} {initial latest : Record F}
  {ecg : UntypedState HeaderId Header} {log : List (Header × Body)}
  {graphs : List (UntypedState HeaderId Header)}

omit [LinearOrder HeaderId] in
lemma follows_field (i : ι) :
    Follows HeaderId (fun r : Record F => r.field i)
      (List.filterMap (RecordOp.at? i)) :=
  fun _ _ _ _ h => foldlM_record_eq_ok.mp h i

/-- **Each field** is what the operations on it lead to. -/
theorem Replays.field (h : Replays OT initial ecg latest log graphs) {i : ι}
    {FT : OssaType StoreId H HeaderId Body (F i) (O i)} (hi : IsField OT i FT) :
    Replays FT (initial.field i) ecg (latest.field i) log graphs :=
  h.part (follows_field i) hi.bodyToVec hi.bodyFromSlice fun _ _ => hi.operations _ _

variable [Hash H] [DecidableEq H] [DecidableEq StoreId]

/-- **A store of a record is a store of each field**: in every run, the state of a field is a causal
fold over the operations on it, and two stores with the same headers agree on a field if its
concurrent operations commute and ask for nothing but the order of applied ones, whatever the
other fields are. -/
theorem recordStore_fieldwise (OT : OssaType StoreId H HeaderId Body (Record F) (RecordOp O))
    (FT : ∀ i, OssaType StoreId H HeaderId Body (F i) (O i)) (initial : Record F)
    (hfields : ∀ i, IsField OT i (FT i)) :
    (∀ (h h' : Handler StoreId H HeaderId Header (Record F)) cmds, SyncRun OT initial h h' cmds →
      ∃ ecg latest log graphs, h'.store.stateMachine.replica = some (ecg, latest) ∧
        ∀ i, AppliedOnce (FT i) (initial.field i) ecg (latest.field i) log graphs) ∧
    ((∀ body, OT.bodyFromSlice (OT.bodyToVec body) = some body) →
      ∀ i, Commutes Header (FT i) (initial.field i) → CausallyLocal Header (FT i) (initial.field i) →
      ∀ (h₁ h₁' h₂ h₂' : Handler StoreId H HeaderId Header (Record F)) cmds₁ cmds₂,
        SyncRun OT initial h₁ h₁' cmds₁ → SyncRun OT initial h₂ h₂' cmds₂ →
        ∀ ecg₁ ecg₂ latest₁ latest₂, h₁'.store.stateMachine.replica = some (ecg₁, latest₁) →
          h₂'.store.stateMachine.replica = some (ecg₂, latest₂) → SameHeaders ecg₁ ecg₂ →
          latest₁.field i = latest₂.field i) := by
  constructor
  · intro h h' cmds hrun
    obtain ⟨⟨ecg, latest⟩, hw, log, graphs, hreplays⟩ := hrun.replayed
    exact ⟨ecg, latest, log, graphs, hw, fun i => (hreplays.field (hfields i)).appliedOnce⟩
  · intro hserde i hcomm hlocal h₁ h₁' h₂ h₂' cmds₁ cmds₂ hrun₁ hrun₂ ecg₁ ecg₂ latest₁ latest₂
      hs₁ hs₂ hsame
    obtain ⟨w₁, hw₁, log₁, graphs₁, hreplays₁⟩ := hrun₁.replayed
    obtain ⟨w₂, hw₂, log₂, graphs₂, hreplays₂⟩ := hrun₂.replayed
    cases hs₁.symm.trans hw₁
    cases hs₂.symm.trans hw₂
    refine (hreplays₁.field (hfields i)).latest_eq (hreplays₂.field (hfields i)) hsame ?_ hcomm hlocal
    rw [(hfields i).bodyToVec, (hfields i).bodyFromSlice]
    exact hserde

end Fields

/-! ### Registers -/

/-- The operations that a graph stores. -/
def storedOps (OT : OssaType StoreId H HeaderId Body T Op) (ecg : UntypedState HeaderId Header) :
    List Op :=
  (entries ecg).flatMap fun e => ((OT.bodyFromSlice e.2.2).map (OT.operations · e.1)).getD []

/-- Writes with the times that a batch gives them: their header, and one position after the
other. -/
structure Stamped {A : Type} (headerId : HeaderId) (writes : List (LWW (OperationId HeaderId) A)) :
    Prop where
  headerId : ∀ o ∈ writes, o.time.headerId = some headerId
  positions : writes.Pairwise fun a b => a.time.operationPosition < b.time.operationPosition

section Register

variable {A : Type}
  {RT : OssaType StoreId H HeaderId Body (LWW (OperationId HeaderId) A) (LWW (OperationId HeaderId) A)}
  {initial latest latest' : LWW (OperationId HeaderId) A} {ecg ecg' : UntypedState HeaderId Header}
  {log log' : List (Header × Body)} {graphs graphs' : List (UntypedState HeaderId Header)}

omit [ECGHeader Header HeaderId] in
lemma apply_lww_congr {st st' : CausalState (OperationId HeaderId)}
    {x y : LWW (OperationId HeaderId) A}
    (hxy : st.happensBefore x.time y.time = st'.happensBefore x.time y.time)
    (hyx : st.happensBefore y.time x.time = st'.happensBefore y.time x.time) :
    CRDT.apply st x y = CRDT.apply st' x y := by
  have hcmp : compareWithTiebreak st x.time y.time = compareWithTiebreak st' x.time y.time := by
    rw [compareWithTiebreak, compareWithTiebreak, hxy, hyx]
  simp only [CRDT.apply, hcmp]

lemma foldlM_lww_mem {α : Type} {st : CausalState (OperationId HeaderId)}
    {x r : LWW (OperationId HeaderId) A} {f : α → LWW (OperationId HeaderId) A} {l : List α}
    (h : l.foldlM (fun t o => CRDT.apply st t (f o)) x = .ok r) : r = x ∨ ∃ o ∈ l, r = f o := by
  induction l generalizing x with
  | nil => exact Or.inl (Except.ok.inj h).symm
  | cons o l ih =>
    obtain ⟨y, hy, hrest⟩ := bind_eq_ok.mp h
    have hor : y = x ∨ y = f o := by
      obtain ⟨c, -, hc⟩ := bind_eq_ok.mp hy
      cases c with
      | lt => exact Or.inr (Except.ok.inj hc).symm
      | gt => exact Or.inl (Except.ok.inj hc).symm
      | eq => cases hc
    rcases ih hrest with rfl | ⟨o', ho', rfl⟩
    · rcases hor with rfl | rfl
      · exact Or.inl rfl
      · exact Or.inr ⟨o, List.mem_cons_self, rfl⟩
    · exact Or.inr ⟨o', List.mem_cons_of_mem o ho', rfl⟩

lemma causallyLocal_lww (hstamped : ∀ body h, Stamped h (RT.operations body h))
    (hinit : initial.time.headerId = none) : CausallyLocal Header RT initial := by
  rintro ecg p x q ⟨log, -, hperm, -⟩ st hst t ht
  have hown : ∀ y ∈ p ++ x :: q, y.op.time.headerId = some y.headerId := by
    intro y hy
    obtain ⟨e, -, hye⟩ := List.mem_flatMap.mp (hperm.mem_iff.mp hy)
    obtain ⟨o, ho, rfl⟩ := List.mem_map.mp hye
    exact (hstamped e.2 (getHeaderId e.1)).headerId o.1 (List.fst_mem_of_mem_zipIdx ho)
  have hx : TimeOf (p ++ [x]) x.op.time := fun h hh =>
    ⟨x, by simp, Option.some.inj ((hown x (by simp)).symm.trans hh)⟩
  have ht' : TimeOf (p ++ [x]) t.time := by
    intro h hh
    rcases foldlM_lww_mem (f := Timed.op) ht with rfl | ⟨y, hy, rfl⟩
    · rw [hinit] at hh
      cases hh
    · exact ⟨y, List.mem_append_left _ hy,
        Option.some.inj ((hown y (List.mem_append_left _ hy)).symm.trans hh)⟩
  exact apply_lww_congr (hst _ _ ht' hx) (hst _ _ hx ht')

omit [LinearOrder HeaderId] in
lemma exists_of_mem_history {OT : OssaType StoreId H HeaderId Body T Op} {x : Timed HeaderId Op}
    (hx : x ∈ history OT log) : ∃ e ∈ log, getHeaderId e.1 = x.headerId ∧
      (OT.operations e.2 x.headerId)[x.position]? = some x.op := by
  obtain ⟨e, he, hxe⟩ := List.mem_flatMap.mp hx
  obtain ⟨⟨op, n⟩, ho, rfl⟩ := List.mem_map.mp hxe
  exact ⟨e, he, rfl, List.mem_zipIdx_iff_getElem?.mp ho⟩

lemma opBefore_iff (h : Replays RT initial ecg latest log graphs)
    (hstamped : ∀ body h, Stamped h (RT.operations body h)) {x y : Timed HeaderId _}
    (hx : x ∈ history RT log) (hy : y ∈ history RT log) :
    OpBefore (toCausalState ecg) x.op y.op ↔ x.Before ecg y := by
  obtain ⟨e, he, hex, hpx⟩ := exists_of_mem_history hx
  obtain ⟨e', he', hey, hpy⟩ := exists_of_mem_history hy
  have htx := (hstamped e.2 x.headerId).headerId x.op (List.mem_of_getElem? hpx)
  have hty := (hstamped e'.2 y.headerId).headerId y.op (List.mem_of_getElem? hpy)
  have hknown : ∀ {z : Timed HeaderId (LWW (OperationId HeaderId) A)}, z ∈ history RT log →
      z.op.time.headerId = some z.headerId → Known ecg z.op.time := fun hz htz k hk => by
    rw [← Option.some.inj (htz.symm.trans hk)]
    exact h.contains_iff.mpr (headerId_of_mem_history hz)
  rw [OpBefore, precedes_iff h.records.wf (hknown hx htx) (hknown hy hty), before_iff h.records.wf,
    HappensBefore, Timed.Before, htx, hty, Option.some.injEq]
  refine or_congr (and_congr_right fun heq => ?_) (by simp)
  -- both stand in the same body
  obtain rfl : e = e' := List.inj_on_of_nodup_map h.nodup he he' (hex.trans (heq.trans hey.symm))
  rw [← heq] at hpy
  obtain ⟨hlx, hgx⟩ := List.getElem?_eq_some_iff.mp hpx
  obtain ⟨hly, hgy⟩ := List.getElem?_eq_some_iff.mp hpy
  have hmono := List.pairwise_iff_getElem.mp (hstamped e.2 x.headerId).positions
  rw [← hgx, ← hgy]
  constructor
  · intro hlt
    rcases lt_trichotomy x.position y.position with hpos | hpos | hpos
    · exact hpos
    · simp only [hpos, lt_irrefl] at hlt
    · exact absurd hlt (hmono _ _ hly hlx hpos).not_gt
  · exact hmono _ _ hlx hly

lemma nodup_times (h : Replays RT initial ecg latest log graphs)
    (hstamped : ∀ body h, Stamped h (RT.operations body h)) :
    (((history RT log).map Timed.op).map LWW.time).Nodup := by
  rw [List.map_map, List.nodup_iff_pairwise_ne, List.pairwise_map]
  refine List.pairwise_flatMap.mpr ⟨fun e _ => ?_, ?_⟩
  · have hpositions := (hstamped e.2 (getHeaderId e.1)).positions
    rw [← List.zipIdx_map_fst 0 (RT.operations e.2 (getHeaderId e.1)), List.pairwise_map] at hpositions
    exact List.pairwise_map.mpr (hpositions.imp fun hlt heq =>
      hlt.ne (congrArg OperationId.operationPosition heq))
  · refine (List.pairwise_map.mp h.nodup).imp fun {e e'} hne x hx y hy heq => hne ?_
    obtain ⟨o, ho, rfl⟩ := List.mem_map.mp hx
    obtain ⟨o', ho', rfl⟩ := List.mem_map.mp hy
    have ht := (hstamped e.2 _).headerId o.1 (List.fst_mem_of_mem_zipIdx ho)
    have ht' := (hstamped e'.2 _).headerId o'.1 (List.fst_mem_of_mem_zipIdx ho')
    exact Option.some.inj (ht.symm.trans ((congrArg OperationId.headerId heq).trans ht'))

lemma Replays.foldlM_history_of_records (h' : Replays RT initial ecg' latest' log' graphs')
    (hlocal : CausallyLocal Header RT initial) (hrecords : Records ecg (log.map Prod.fst))
    (hsub : ∀ header ∈ log'.map Prod.fst, header ∈ log.map Prod.fst) :
    (history RT log').foldlM (applyTimed (toCausalState ecg)) initial = .ok latest' := by
  have hknown : ∀ a, TimeOf (history RT log') a → Known ecg' a := fun a ha x hx => by
    obtain ⟨y, hy, rfl⟩ := ha x hx
    exact h'.contains_iff.mpr (headerId_of_mem_history hy)
  exact (hlocal.foldlM_eq (.history h'.records) fun a b ha hb => happensBefore_eq_of_records
    h'.records hrecords hsub (hknown a ha) (hknown b hb)).trans (h'.foldlM_history hlocal)

/-- Two stores of a register with the same headers have the same register, unless a write
overtakes. -/
theorem Replays.register_eq (h : Replays RT initial ecg latest log graphs)
    (h' : Replays RT initial ecg' latest' log' graphs') (hsame : SameHeaders ecg ecg')
    (hserde : ∀ body, RT.bodyFromSlice (RT.bodyToVec body) = some body)
    (hstamped : ∀ body h, Stamped h (RT.operations body h))
    (hinit : initial.time.headerId = none)
    (hover : ¬ Overtakes (toCausalState ecg) ((history RT log).map Timed.op)) :
    latest = latest' := by
  have hlocal : CausallyLocal Header RT initial := causallyLocal_lww hstamped hinit
  have hperm := h.perm h' hsame hserde
  have hhistory : (history RT log).Perm (history RT log') := hperm.flatMap_right (timed RT)
  have hsub : ∀ header ∈ log'.map Prod.fst, header ∈ log.map Prod.fst := fun header =>
    (hperm.map Prod.fst).mem_iff.mpr
  have hfold := h.foldlM_history hlocal
  have hfold' : (history RT log').foldlM (applyTimed (toCausalState ecg)) initial = .ok latest' :=
    h'.foldlM_history_of_records hlocal h.records hsub
  -- an order of the history is an order of its writes
  have hrespects : ∀ {l : List (Timed HeaderId (LWW (OperationId HeaderId) A))},
      l.Perm (history RT log) → Respects (Timed.Before ecg) l →
        Respects (OpBefore (toCausalState ecg)) (l.map Timed.op) := fun hl hr =>
    List.pairwise_map.mpr (hr.imp_of_mem fun hx hy hnot hbefore =>
      hnot ((opBefore_iff h hstamped (hl.mem_iff.mp hy) (hl.mem_iff.mp hx)).mp hbefore))
  have hown : ∀ o ∈ (history RT log).map Timed.op,
      ∃ k, o.time.headerId = some k ∧ ecg.contains k := by
    intro o ho
    obtain ⟨x, hx, rfl⟩ := List.mem_map.mp ho
    obtain ⟨e, -, -, hpx⟩ := exists_of_mem_history hx
    exact ⟨_, (hstamped e.2 x.headerId).headerId x.op (List.mem_of_getElem? hpx),
      h.contains_iff.mpr (headerId_of_mem_history hx)⟩
  have hfirst : ∀ o ∈ (history RT log).map Timed.op,
      Precedes (toCausalState ecg) initial.time o.time := by
    intro o ho
    obtain ⟨k, hk, -⟩ := hown o ho
    show happensBefore ecg initial.time o.time = .ok true
    simp [happensBefore, hinit, hk]
  have hconverges := (lww_converges_iff h.records.wf initial _ (nodup_times h hstamped) hown
    hfirst).mpr hover
  obtain ⟨r, hr, hr'⟩ := hconverges.1 _ _ (.refl _) (hhistory.symm.map Timed.op)
    (hrespects (.refl _) (respects_history h.records))
    (hrespects hhistory.symm (respects_of_perm h.records h'.records hsub))
  rw [List.foldlM_map] at hr hr'
  calc latest = r := Except.ok.inj (hfold.symm.trans hr)
    _ = latest' := Except.ok.inj (hr'.symm.trans hfold')

end Register

/-! ### A record of registers -/

section Registers

variable {ι : Type} [DecidableEq ι] {A : ι → Type}

/-- A record of registers, such as a recipe. -/
abbrev Registers (HeaderId : Type) (A : ι → Type) : Type :=
  Record fun i => LWW (OperationId HeaderId) (A i)

abbrev RegistersOp (HeaderId : Type) (A : ι → Type) : Type :=
  RecordOp fun i => LWW (OperationId HeaderId) (A i)

/-- The writes that a graph stores for field `i`. -/
def storedWrites (OT : OssaType StoreId H HeaderId Body (Registers HeaderId A) (RegistersOp HeaderId A))
    (ecg : UntypedState HeaderId Header) (i : ι) : List (LWW (OperationId HeaderId) (A i)) :=
  (storedOps OT ecg).filterMap (RecordOp.at? i)

/-- The writes that a graph stores for field `i` have the times that a batch gives them. -/
def StampedAt (OT : OssaType StoreId H HeaderId Body (Registers HeaderId A) (RegistersOp HeaderId A))
    (ecg : UntypedState HeaderId Header) (i : ι) : Prop :=
  ∀ h info body, ecg.getNode h = some info → OT.bodyFromSlice info.operations = some body →
    Stamped h ((OT.operations body h).filterMap (RecordOp.at? i))

open Classical in
/-- Field `i` by itself, with the writes of those bodies that have such times. -/
noncomputable def registerType
    (OT : OssaType StoreId H HeaderId Body (Registers HeaderId A) (RegistersOp HeaderId A)) (i : ι) :
    OssaType StoreId H HeaderId Body (LWW (OperationId HeaderId) (A i))
      (LWW (OperationId HeaderId) (A i)) where
  into := OT.into
  toVec _ := []
  fromSlice _ := none
  bodyToVec := OT.bodyToVec
  bodyFromSlice := OT.bodyFromSlice
  operations body h :=
    if Stamped h ((OT.operations body h).filterMap (RecordOp.at? i)) then
      (OT.operations body h).filterMap (RecordOp.at? i)
    else []

variable {OT : OssaType StoreId H HeaderId Body (Registers HeaderId A) (RegistersOp HeaderId A)}
  {initial latest : Registers HeaderId A} {ecg : UntypedState HeaderId Header}
  {log : List (Header × Body)} {graphs : List (UntypedState HeaderId Header)} {i : ι}

omit [LinearOrder HeaderId] [ECGHeader Header HeaderId] in
lemma stamped_registerType (body : Body) (h : HeaderId) :
    Stamped h ((registerType OT i).operations body h) := by
  dsimp only [registerType]
  split_ifs with hs
  · exact hs
  · exact ⟨fun o ho => absurd ho List.not_mem_nil, List.Pairwise.nil⟩

lemma Replays.stored {OT : OssaType StoreId H HeaderId Body T Op} [CRDT T Op (OperationId HeaderId)]
    {initial latest : T} (h : Replays OT initial ecg latest log graphs)
    (hserde : ∀ body, OT.bodyFromSlice (OT.bodyToVec body) = some body) {e : Header × Body}
    (he : e ∈ log) : ∃ info, ecg.getNode (getHeaderId e.1) = some info ∧
      OT.bodyFromSlice info.operations = some e.2 := by
  obtain ⟨info, hinfo, -, hraw | hraw⟩ := h.bodies e he
  · exact ⟨info, hinfo, hraw ▸ hserde e.2⟩
  · exact ⟨info, hinfo, hraw⟩

lemma Replays.register (h : Replays OT initial ecg latest log graphs)
    (hserde : ∀ body, OT.bodyFromSlice (OT.bodyToVec body) = some body)
    (hstamped : StampedAt OT ecg i) :
    Replays (registerType OT i) (initial.field i) ecg (latest.field i) log graphs := by
  refine h.part (follows_field i) rfl rfl fun e he => if_pos ?_
  obtain ⟨info, hinfo, hbody⟩ := h.stored hserde he
  exact hstamped _ info e.2 hinfo hbody

lemma Replays.mem_storedWrites (h : Replays OT initial ecg latest log graphs)
    (hserde : ∀ body, OT.bodyFromSlice (OT.bodyToVec body) = some body)
    (hstamped : StampedAt OT ecg i) {o : LWW (OperationId HeaderId) (A i)}
    (ho : o ∈ (history (registerType OT i) log).map Timed.op) : o ∈ storedWrites OT ecg i := by
  obtain ⟨x, hx, rfl⟩ := List.mem_map.mp ho
  obtain ⟨e, he, hid, hpx⟩ := exists_of_mem_history hx
  obtain ⟨info, hinfo, hbody⟩ := h.stored hserde he
  have hops : (registerType OT i).operations e.2 x.headerId =
      (OT.operations e.2 x.headerId).filterMap (RecordOp.at? i) :=
    if_pos (hid ▸ hstamped _ info e.2 hinfo hbody)
  obtain ⟨op, hop, hat⟩ := List.mem_filterMap.mp (hops ▸ List.mem_of_getElem? hpx)
  refine List.mem_filterMap.mpr ⟨op, List.mem_flatMap.mpr ⟨(x.headerId, info.header, info.operations),
    mem_entries.mpr ?_, ?_⟩, hat⟩
  · rw [← hid, hinfo]
    rfl
  · rw [hbody]
    exact hop

omit [DecidableEq ι] [ECGHeader Header HeaderId] in
lemma overtakes_mono {B : Type} {st : CausalState (OperationId HeaderId)}
    {l l' : List (LWW (OperationId HeaderId) B)} (h : Overtakes st l) (hsub : ∀ o ∈ l, o ∈ l') :
    Overtakes st l' := by
  obtain ⟨a, ha, b, hb, c, hc, hrest⟩ := h
  exact ⟨a, hsub a ha, b, hsub b hb, c, hsub c hc, hrest⟩

variable [Hash H] [DecidableEq H] [DecidableEq StoreId]

/-- **Two stores of registers** with the same headers agree on every register in which no write
overtakes another, whatever happens in the others: in any two runs, and for any order in which
the headers came. -/
theorem registers_agree
    (OT : OssaType StoreId H HeaderId Body (Registers HeaderId A) (RegistersOp HeaderId A))
    (hserde : ∀ body, OT.bodyFromSlice (OT.bodyToVec body) = some body)
    (initial : Registers HeaderId A) (h₁ h₁' h₂ h₂' : Handler StoreId H HeaderId Header _)
    (cmds₁ cmds₂ : List (Environment × Command H HeaderId Header Body))
    (hrun₁ : SyncRun OT initial h₁ h₁' cmds₁) (hrun₂ : SyncRun OT initial h₂ h₂' cmds₂)
    (ecg₁ ecg₂ : UntypedState HeaderId Header) (latest₁ latest₂ : Registers HeaderId A)
    (hs₁ : h₁'.store.stateMachine.replica = some (ecg₁, latest₁))
    (hs₂ : h₂'.store.stateMachine.replica = some (ecg₂, latest₂))
    (hsame : SameHeaders ecg₁ ecg₂) (i : ι) (hinit : (initial.field i).time.headerId = none)
    (hstamped : StampedAt OT ecg₁ i)
    (hover : ¬ Overtakes (toCausalState ecg₁) (storedWrites OT ecg₁ i)) :
    latest₁.field i = latest₂.field i := by
  obtain ⟨w₁, hw₁, log₁, graphs₁, hreplays₁⟩ := hrun₁.replayed
  obtain ⟨w₂, hw₂, log₂, graphs₂, hreplays₂⟩ := hrun₂.replayed
  cases hs₁.symm.trans hw₁
  cases hs₂.symm.trans hw₂
  -- the second graph stores the same bodies
  have hstamped₂ : StampedAt OT ecg₂ i := by
    intro h info body hinfo hbody
    have hnode := hsame h
    rw [hinfo, Option.map_some, Option.map_eq_some_iff] at hnode
    obtain ⟨info', hinfo', heq⟩ := hnode
    exact hstamped h info' body hinfo' ((Prod.mk.inj heq).2 ▸ hbody)
  exact (hreplays₁.register hserde hstamped).register_eq (hreplays₂.register hserde hstamped₂) hsame
    hserde stamped_registerType hinit fun h =>
      hover (overtakes_mono h fun o ho => hreplays₁.mem_storedWrites hserde hstamped ho)

end Registers

/-! ### Two stores with two fields -/

section Pair

open V0

local instance pairHash : Hash UInt8 := tableHash counterTable

/-- What is at least 4 is for one field, and what is below for the other. -/
def isLarge (b : UInt8) : Bool := 4 ≤ b

def addOp (b : UInt8) : RecordOp fun _ : Bool => ℕ := ⟨isLarge b, b.toNat⟩

def countersType : OssaType UInt8 UInt8 ℕ (List UInt8) (Record fun _ : Bool => Counter)
    (RecordOp fun _ : Bool => ℕ) where
  into h := h
  toVec _ := []
  fromSlice _ := none
  bodyToVec body := body
  bodyFromSlice raw := some raw
  operations body _ := body.map addOp

/-- One of the two counters. -/
def oneCounterType (i : Bool) : OssaType UInt8 UInt8 ℕ (List UInt8) Counter ℕ where
  into h := h
  toVec _ := []
  fromSlice _ := none
  bodyToVec body := body
  bodyFromSlice raw := some raw
  operations body _ := (body.filter fun b => isLarge b = i).map UInt8.toNat

def registersType : OssaType UInt8 UInt8 ℕ (List UInt8) (Registers ℕ fun _ : Bool => ℕ)
    (RegistersOp ℕ fun _ : Bool => ℕ) where
  into h := h
  toVec _ := []
  fromSlice _ := none
  bodyToVec body := body
  bodyFromSlice raw := some raw
  operations body h := body.zipIdx.map fun o => ⟨isLarge o.1, ⟨some h, (UInt8.ofNat o.2).toFin⟩, o.1.toNat⟩

/-- A store that begins to sync. -/
def pairStore {F : Bool → Type} (initial : Record F) : Handler UInt8 UInt8 ℕ TestHeader (Record F) :=
  ⟨.ofStateMachine (.syncing counterMetadata ⟨[0]⟩ [7] .new initial), []⟩

def zeroCounters : Record fun _ : Bool => Counter := ⟨fun _ => ⟨0⟩⟩

def blanks : Registers ℕ fun _ : Bool => ℕ := ⟨fun _ => blank⟩

lemma counters_isOk : ((pairStore zeroCounters).run countersType sumCommands).isOk = true := by
  decide +kernel

lemma countersPeer_isOk :
    ((pairStore zeroCounters).run countersType sumPeerCommands).isOk = true := by
  decide +kernel

lemma registers_isOk : ((pairStore blanks).run registersType sumCommands).isOk = true := by
  decide +kernel

lemma registersPeer_isOk : ((pairStore blanks).run registersType sumPeerCommands).isOk = true := by
  decide +kernel

/-- The headers of a store that syncs. -/
def entriesOf {T : Type} (h : Handler UInt8 UInt8 ℕ TestHeader T) :
    Option (List (ℕ × TestHeader × RawECGBody)) :=
  h.store.stateMachine.replica.map fun w => entries w.1

/-- Its headers, and the two fields of its state. -/
def fieldsOf {F : Bool → Type} (h : Handler UInt8 UInt8 ℕ TestHeader (Record F)) :
    Option (List (ℕ × TestHeader × RawECGBody) × F true × F false) :=
  h.store.stateMachine.replica.map fun w => (entries w.1, w.2.field true, w.2.field false)

lemma counters_fields : fieldsOf (value _ counters_isOk) = some (sumEntries, ⟨9⟩, ⟨4⟩) := by
  decide +kernel

lemma countersPeer_entries : entriesOf (value _ countersPeer_isOk) = some sumEntries := by
  decide +kernel

lemma registers_entries : entriesOf (value _ registers_isOk) = some sumEntries := by
  decide +kernel

lemma registersPeer_entries : entriesOf (value _ registersPeer_isOk) = some sumEntries := by
  decide +kernel

lemma at?_addOp (i : Bool) (b : UInt8) :
    (addOp b).at? i = if isLarge b = i then some b.toNat else none := by
  split_ifs with hb
  · subst hb
    exact RecordOp.at?_self _ _
  · exact RecordOp.at?_of_ne hb _

lemma isField_counter (i : Bool) : IsField countersType i (oneCounterType i) := by
  refine ⟨rfl, rfl, fun body h => ?_⟩
  change (body.filter fun b => isLarge b = i).map UInt8.toNat =
    (body.map addOp).filterMap (RecordOp.at? i)
  induction body with
  | nil => rfl
  | cons b body ih =>
    by_cases hb : isLarge b = i <;> simp [at?_addOp, hb, ih]

/-- The two counters of the first store, and that those of the second one are the same. -/
theorem recordStore_fieldwise_counters : ∃ h₁ h₂ ecg₁ ecg₂ latest₁ latest₂ log graphs,
    (pairStore zeroCounters).run countersType sumCommands = .ok h₁ ∧
    (pairStore zeroCounters).run countersType sumPeerCommands = .ok h₂ ∧
    h₁.store.stateMachine.replica = some (ecg₁, latest₁) ∧
    h₂.store.stateMachine.replica = some (ecg₂, latest₂) ∧
    AppliedOnce (oneCounterType true) ⟨0⟩ ecg₁ ⟨9⟩ log graphs ∧
    AppliedOnce (oneCounterType false) ⟨0⟩ ecg₁ ⟨4⟩ log graphs ∧
    ∀ i, latest₁.field i = latest₂.field i := by
  obtain ⟨⟨ecg₁, latest₁⟩, hs₁, hfields⟩ := Option.map_eq_some_iff.mp counters_fields
  obtain ⟨he₁, hlarge, hsmall⟩ : entries ecg₁ = sumEntries ∧ latest₁.field true = ⟨9⟩ ∧
      latest₁.field false = ⟨4⟩ := by simpa using hfields
  obtain ⟨⟨ecg₂, latest₂⟩, hs₂, he₂⟩ := Option.map_eq_some_iff.mp countersPeer_entries
  have hrun₁ := eq_ok_value counters_isOk
  have hrun₂ := eq_ok_value countersPeer_isOk
  have hcomm : ∀ i, Commutes TestHeader (oneCounterType i) (zeroCounters.field i) := fun i =>
    commutes_of_forall fun st t o o' => by simp [CRDT.apply, Nat.add_right_comm]
  have hlocal : ∀ i, CausallyLocal TestHeader (oneCounterType i) (zeroCounters.field i) := fun i =>
    causallyLocal_of_forall fun _ _ _ _ => rfl
  have hsync₁ : SyncRun countersType zeroCounters (pairStore zeroCounters) _ sumCommands :=
    ⟨rfl, by decide, hrun₁⟩
  have hsync₂ : SyncRun countersType zeroCounters (pairStore zeroCounters) _ sumPeerCommands :=
    ⟨rfl, by decide, hrun₂⟩
  obtain ⟨ecg, latest, log, graphs, hs, happlied⟩ :=
    (recordStore_fieldwise countersType oneCounterType zeroCounters isField_counter).1 _ _ _ hsync₁
  cases hs₁.symm.trans hs
  exact ⟨_, _, ecg₁, ecg₂, latest₁, latest₂, log, graphs, hrun₁, hrun₂, hs₁, hs₂,
    hlarge ▸ happlied true, hsmall ▸ happlied false, fun i =>
    (recordStore_fieldwise countersType oneCounterType zeroCounters isField_counter).2
      (fun _ => rfl) i (hcomm i) (hlocal i) _ _ _ _ _ _ hsync₁ hsync₂ _ _ _ _ hs₁ hs₂
      (sameHeaders_of_entries (he₁.trans he₂.symm))⟩

lemma not_overtakes_of_length {A : Type} {st : CausalState (OperationId ℕ)}
    {l : List (LWW (OperationId ℕ) A)} (h : l.length ≤ 2) : ¬ Overtakes st l := by
  rintro ⟨a, ha, b, hb, c, hc, -, -, -, hbc, hca⟩
  match l, h with
  | [], _ => cases ha
  | [x], _ =>
    rw [List.mem_singleton.mp hb, List.mem_singleton.mp hc] at hbc
    exact lt_irrefl _ hbc
  | [x, y], _ =>
    simp only [List.mem_cons, List.not_mem_nil, or_false] at ha hb hc
    grind

theorem registers_agree_pair : ∃ h₁ h₂ ecg₁ ecg₂ latest₁ latest₂,
    (pairStore blanks).run registersType sumCommands = .ok h₁ ∧
    (pairStore blanks).run registersType sumPeerCommands = .ok h₂ ∧
    h₁.store.stateMachine.replica = some (ecg₁, latest₁) ∧
    h₂.store.stateMachine.replica = some (ecg₂, latest₂) ∧ ∀ i, latest₁.field i = latest₂.field i := by
  obtain ⟨⟨ecg₁, latest₁⟩, hs₁, he₁⟩ := Option.map_eq_some_iff.mp registers_entries
  obtain ⟨⟨ecg₂, latest₂⟩, hs₂, he₂⟩ := Option.map_eq_some_iff.mp registersPeer_entries
  have hrun₁ := eq_ok_value registers_isOk
  have hrun₂ := eq_ok_value registersPeer_isOk
  refine ⟨_, _, ecg₁, ecg₂, latest₁, latest₂, hrun₁, hrun₂, hs₁, hs₂, fun i => ?_⟩
  have hstamped : StampedAt registersType ecg₁ i := by
    intro h info body hinfo hbody
    cases hbody
    have hmem : (h, info.header, info.operations) ∈ entries ecg₁ := by
      rw [mem_entries, hinfo]
      rfl
    rw [he₁] at hmem
    simp only [sumEntries, List.mem_cons, List.not_mem_nil, or_false, Prod.mk.injEq] at hmem
    obtain ⟨rfl, -, hops⟩ | ⟨rfl, -, hops⟩ | ⟨rfl, -, hops⟩ := hmem
    all_goals
      rw [hops]
      constructor <;> cases i <;> decide
  have hover : ¬ Overtakes (toCausalState ecg₁) (storedWrites registersType ecg₁ i) := by
    refine not_overtakes_of_length ?_
    rw [storedWrites, storedOps, he₁]
    cases i <;> decide
  exact registers_agree registersType (fun _ => rfl) blanks _ _ _ _ _ _ ⟨rfl, by decide, hrun₁⟩
    ⟨rfl, by decide, hrun₂⟩ _ _ _ _ hs₁ hs₂ (sameHeaders_of_entries (he₁.trans he₂.symm)) i rfl
    hstamped hover

end Pair

end Ossa.Store
