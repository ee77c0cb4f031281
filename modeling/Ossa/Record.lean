import Mathlib.Logic.Function.Basic
import Ossa.EcgBody

/-!
The records of `ossa-crdt-derive/lib.rs`.

A struct of CRDTs is a CRDT: an operation is one of some field, and changes that field only. So a
run of a record is a run of each of its fields over the operations of this field. A record
converges as soon as its fields do.
-/

namespace Ossa.Crdt

open Ossa.Loop Ossa.Linearize

variable {ι : Type}

/-- A struct that derives `CRDT`. -/
@[ext]
structure Record (T : ι → Type) where
  field : ∀ i, T i

/-- Its operations, with one variant for each field. -/
structure RecordOp (Op : ι → Type) where
  variant : ι
  op : Op variant

variable {T Op : ι → Type} {Time HeaderId : Type}

section Time

variable [∀ i, ConcretizeTime (Op i) HeaderId] [∀ i, ConcretizeTime (T i) HeaderId]

instance : ConcretizeTime (RecordOp Op) HeaderId where
  Serialized := RecordOp fun i => Serialized (Op i) HeaderId
  concretizeTime src currentHeader := ⟨src.variant, concretizeTime src.op currentHeader⟩

instance : ConcretizeTime (Record T) HeaderId where
  Serialized := Record fun i => Serialized (T i) HeaderId
  concretizeTime src currentHeader := ⟨fun i => concretizeTime (src.field i) currentHeader⟩

end Time

variable [DecidableEq ι]

/-- The struct with one field changed. -/
def Record.set (r : Record T) (i : ι) (v : T i) : Record T := ⟨Function.update r.field i v⟩

@[simp] lemma Record.set_self (r : Record T) (i : ι) (v : T i) : (r.set i v).field i = v :=
  Function.update_self i v r.field

lemma Record.set_of_ne (r : Record T) {i j : ι} (h : i ≠ j) (v : T j) :
    (r.set j v).field i = r.field i := Function.update_of_ne h v r.field

instance [∀ i, CRDT (T i) (Op i) Time] : CRDT (Record T) (RecordOp Op) Time where
  apply st self op := do
    let v ← CRDT.apply st (self.field op.variant) op.op
    pure (self.set op.variant v)

/-- The operation on field `i` that this one is, if it is one. -/
def RecordOp.at? (i : ι) (o : RecordOp Op) : Option (Op i) :=
  if h : o.variant = i then some (h ▸ o.op) else none

@[simp] lemma RecordOp.at?_self (i : ι) (op : Op i) : (RecordOp.mk i op).at? i = some op :=
  dif_pos rfl

lemma RecordOp.at?_of_ne {i j : ι} (h : j ≠ i) (op : Op j) : (RecordOp.mk j op).at? i = none :=
  dif_neg h

lemma at?_concretizeTime [∀ i, ConcretizeTime (Op i) HeaderId] (i : ι)
    (o : RecordOp fun i => Serialized (Op i) HeaderId) (h : HeaderId) :
    (concretizeTime o h : RecordOp Op).at? i =
      (o.at? i).map fun op => concretizeTime op h := by
  obtain ⟨j, op⟩ := o
  by_cases hj : j = i
  · subst hj
    rw [RecordOp.at?_self]
    exact RecordOp.at?_self j (concretizeTime op h)
  · rw [RecordOp.at?_of_ne hj]
    exact RecordOp.at?_of_ne hj (concretizeTime op h)

/-! ### A run of a record is a run of each field -/

section Run

variable [∀ i, CRDT (T i) (Op i) Time] {st : CausalState Time} {r r' : Record T}

lemma apply_record_eq_ok {i : ι} {op : Op i} : CRDT.apply st r (RecordOp.mk i op) = .ok r' ↔
    ∃ v, CRDT.apply st (r.field i) op = .ok v ∧ r' = r.set i v := by
  constructor
  · intro h
    obtain ⟨v, hv, heq⟩ := bind_eq_ok.mp h
    exact ⟨v, hv, (Except.ok.inj heq).symm⟩
  · rintro ⟨v, hv, rfl⟩
    exact bind_eq_ok.mpr ⟨v, hv, rfl⟩

/-- **Each field sees its own operations only**, and the record fails where one of them does. -/
theorem foldlM_record_eq_ok {l : List (RecordOp Op)} :
    l.foldlM (CRDT.apply st) r = .ok r' ↔
      ∀ i, (l.filterMap (RecordOp.at? i)).foldlM (CRDT.apply st) (r.field i) =
        .ok (r'.field i) := by
  induction l generalizing r with
  | nil =>
    constructor
    · intro h i
      rw [Except.ok.inj h]
      rfl
    · intro h
      exact congrArg Except.ok (Record.ext (funext fun i => Except.ok.inj (h i)))
  | cons o l ih =>
    obtain ⟨j, op⟩ := o
    -- the operation of field `j` is the first there, and none anywhere else
    have hown : ((⟨j, op⟩ :: l).filterMap (RecordOp.at? j)) = op :: l.filterMap (RecordOp.at? j) :=
      List.filterMap_cons_some (RecordOp.at?_self j op)
    have hother : ∀ i, i ≠ j →
        ((⟨j, op⟩ :: l).filterMap (RecordOp.at? i)) = l.filterMap (RecordOp.at? i) := fun i hi =>
      List.filterMap_cons_none (RecordOp.at?_of_ne hi.symm op)
    constructor
    · intro h i
      obtain ⟨r₁, hr₁, hl⟩ := bind_eq_ok.mp h
      obtain ⟨v, hv, rfl⟩ := apply_record_eq_ok.mp hr₁
      have hi := ih.mp hl i
      by_cases hij : i = j
      · subst hij
        rw [hown, List.foldlM_cons, hv, ok_bind]
        rwa [Record.set_self] at hi
      · rw [hother i hij]
        rwa [Record.set_of_ne r hij] at hi
    · intro h
      have hj := h j
      rw [hown, List.foldlM_cons] at hj
      obtain ⟨v, hv, hrest⟩ := bind_eq_ok.mp hj
      refine bind_eq_ok.mpr ⟨_, apply_record_eq_ok.mpr ⟨v, hv, rfl⟩, ih.mpr fun i => ?_⟩
      by_cases hij : i = j
      · subst hij
        rwa [Record.set_self]
      · rw [Record.set_of_ne r hij, ← hother i hij]
        exact h i

end Run

/-! ### A record converges if its fields do -/

/-- An operation on field `i`, issued at the same time. -/
def issuedAt (i : ι) (x : Issued Time (RecordOp Op)) : Option (Issued Time (Op i)) :=
  (x.op.at? i).map (Issued.mk x.time)

/-- The operations on field `i`. -/
def fieldOps (i : ι) (l : List (Issued Time (RecordOp Op))) : List (Issued Time (Op i)) :=
  l.filterMap (issuedAt i)

section Converge

variable {i : ι} {ops l p : List (Issued Time (RecordOp Op))} {before : Time → Time → Prop}
  {x y : Issued Time (RecordOp Op)}

lemma time_issuedAt {u : Issued Time (Op i)} (h : issuedAt i x = some u) : u.time = x.time := by
  obtain ⟨op, -, rfl⟩ := Option.map_eq_some_iff.mp h
  rfl

lemma respects_fieldOps (h : Respects (IssuedBefore before) l) :
    Respects (IssuedBefore before) (fieldOps i l) := by
  refine h.filterMap (issuedAt i) fun x y hxy u hu w hw => ?_
  rw [IssuedBefore, time_issuedAt hu, time_issuedAt hw]
  exact hxy

lemma map_op_fieldOps :
    (fieldOps i l).map Issued.op = (l.map Issued.op).filterMap (RecordOp.at? i) := by
  rw [fieldOps, List.map_filterMap, List.filterMap_map]
  congr 1
  ext x : 1
  cases h : x.op.at? i <;> simp [issuedAt, h]

variable [∀ i, CRDT (T i) (Op i) Time] {st : CausalState Time} {r r' : Record T}

omit [DecidableEq ι] in
lemma applyAll_eq {A O : Type} [CRDT A O Time] {a : A} {l : List (Issued Time O)} :
    applyAll st a l = (l.map Issued.op).foldlM (CRDT.apply st) a :=
  (List.foldlM_map ..).symm

lemma applyAll_record_eq_ok :
    applyAll st r l = .ok r' ↔ ∀ i, applyAll st (r.field i) (fieldOps i l) = .ok (r'.field i) := by
  simp only [applyAll_eq, map_op_fieldOps]
  exact foldlM_record_eq_ok

lemma fieldOps_swap (hfields : ∀ i, Commutes st before (r.field i) (fieldOps i ops))
    {q : List (Issued Time (RecordOp Op))} (hp : (p ++ x :: y :: q).Perm ops)
    (hr : Respects (IssuedBefore before) (p ++ x :: y :: q)) (hxy : ¬ before x.time y.time)
    (hyx : ¬ before y.time x.time) (i : ι) :
    applyAll st (r.field i) (fieldOps i (p ++ [x, y])) =
      applyAll st (r.field i) (fieldOps i (p ++ [y, x])) := by
  have hp' := hp.filterMap (issuedAt i)
  have hr' := respects_fieldOps (i := i) hr
  simp only [fieldOps, List.filterMap_append] at hp' hr' ⊢
  cases hx : issuedAt i x with
  | none => simp [List.filterMap_cons, hx]
  | some u =>
    cases hy : issuedAt i y with
    | none => simp [hx, hy]
    | some w =>
      simp only [List.filterMap_cons, hx, hy, List.filterMap_nil] at hp' hr' ⊢
      refine (hfields i).swap _ u w _ hp' hr' ?_ ?_
      · rwa [time_issuedAt hx, time_issuedAt hy]
      · rwa [time_issuedAt hx, time_issuedAt hy]

lemma commutes_record (hfields : ∀ i, Commutes st before (r.field i) (fieldOps i ops)) :
    Commutes st before r ops := by
  have happlies : ∀ l, l.Perm ops → Respects (IssuedBefore before) l →
      ∃ r', applyAll st r l = .ok r' := by
    intro l hl hr
    have hfield : ∀ i, ∃ v, applyAll st (r.field i) (fieldOps i l) = .ok v := fun i =>
      (hfields i).applies _ (hl.filterMap _) (respects_fieldOps hr)
    choose v hv using hfield
    exact ⟨⟨v⟩, applyAll_record_eq_ok.mpr hv⟩
  refine ⟨happlies, fun p x y q hp hr hxy hyx => ?_⟩
  -- what applies along the whole history applies along a part of it
  obtain ⟨r₁, hr₁⟩ := happlies _ hp hr
  rw [List.append_cons p x, List.append_cons _ y, List.append_assoc p, applyAll_append] at hr₁
  obtain ⟨r', hr', -⟩ := bind_eq_ok.mp hr₁
  have hswapped : applyAll st r (p ++ [y, x]) = .ok r' := applyAll_record_eq_ok.mpr fun i => by
    rw [← fieldOps_swap hfields hp hr hxy hyx i]
    exact applyAll_record_eq_ok.mp hr' i
  exact hr'.trans hswapped.symm

omit [∀ i, CRDT (T i) (Op i) Time] in
lemma exists_order (hirr : ∀ x ∈ ops, ¬ IssuedBefore before x x)
    (htrans : ∀ x ∈ ops, ∀ y ∈ ops, ∀ z ∈ ops, IssuedBefore before x y →
      IssuedBefore before y z → IssuedBefore before x z)
    {m : List (Issued Time (Op i))} (hm : m.Perm (fieldOps i ops))
    (hr : Respects (IssuedBefore before) m) :
    ∃ l, l.Perm ops ∧ Respects (IssuedBefore before) l ∧ fieldOps i l = m := by
  obtain ⟨l₀, hl₀, hr₀⟩ := exists_respects ops hirr htrans
  have hswaps := swaps_of_perm ((hl₀.filterMap (issuedAt i)).trans hm.symm)
    (respects_fieldOps hr₀) hr
  obtain ⟨l, hl, hrl, hsel⟩ := exists_extension hswaps (fun x y u w hu hw hxy => by
      rwa [IssuedBefore, time_issuedAt hu, time_issuedAt hw])
    (fun x hx y hy z hz => htrans x (hl₀.mem_iff.mp hx) y (hl₀.mem_iff.mp hy) z
      (hl₀.mem_iff.mp hz)) hr₀ rfl
  exact ⟨l, hl.trans hl₀, hrl, hsel⟩

lemma commutes_field (hirr : ∀ x ∈ ops, ¬ IssuedBefore before x x)
    (htrans : ∀ x ∈ ops, ∀ y ∈ ops, ∀ z ∈ ops, IssuedBefore before x y →
      IssuedBefore before y z → IssuedBefore before x z)
    (h : Commutes st before r ops) (i : ι) :
    Commutes st before (r.field i) (fieldOps i ops) := by
  refine ⟨fun m hm hr => ?_, fun p u w q hm hr huw hwu => ?_⟩
  · obtain ⟨l, hl, hrl, rfl⟩ := exists_order hirr htrans hm hr
    obtain ⟨r', hr'⟩ := h.applies l hl hrl
    exact ⟨_, applyAll_record_eq_ok.mp hr' i⟩
  · obtain ⟨l, hl, hrl, hsel⟩ := exists_order hirr htrans hm hr
    -- what other fields do between the two can be done before and after them
    obtain ⟨p', q', x, y, hx, hy, rfl, rfl, hperm, hr'⟩ := exists_adjacent hrl hsel
      (fun x hx y hy z hz => htrans x (hl.mem_iff.mp hx) y (hl.mem_iff.mp hy) z (hl.mem_iff.mp hz))
      fun x y hx hy => by
        rw [time_issuedAt hx, time_issuedAt hy] at huw
        exact huw
    rw [time_issuedAt hx, time_issuedAt hy] at huw hwu
    have hswap := h.swap p' y x q' (hperm.trans hl) hr' hwu huw
    obtain ⟨r₁, hr₁⟩ := h.applies _ (hperm.trans hl) hr'
    rw [List.append_cons p' y, List.append_cons _ x, List.append_assoc p', applyAll_append] at hr₁
    obtain ⟨r', hr', -⟩ := bind_eq_ok.mp hr₁
    have hyx := applyAll_record_eq_ok.mp hr' i
    have hxy := applyAll_record_eq_ok.mp (hswap ▸ hr') i
    simp only [fieldOps, List.filterMap_append, List.filterMap_cons, hx, hy,
      List.filterMap_nil] at hyx hxy
    exact hxy.trans hyx.symm

/-- **A record is its fields side by side.** A run of operations leads to a record if and only if,
for each field, the operations on it alone lead to the value it has there. So the operations
commute if and only if those of each field do. -/
theorem record_fieldwise (st : CausalState Time) (before : Time → Time → Prop) (r : Record T)
    (ops : List (Issued Time (RecordOp Op))) (hirr : ∀ x ∈ ops, ¬ IssuedBefore before x x)
    (htrans : ∀ x ∈ ops, ∀ y ∈ ops, ∀ z ∈ ops, IssuedBefore before x y →
      IssuedBefore before y z → IssuedBefore before x z) :
    (∀ l r', applyAll st r l = .ok r' ↔
      ∀ i, applyAll st (r.field i) (fieldOps i l) = .ok (r'.field i)) ∧
    (Commutes st before r ops ↔ ∀ i, Commutes st before (r.field i) (fieldOps i ops)) :=
  ⟨fun _ _ => applyAll_record_eq_ok, commutes_field hirr htrans, commutes_record⟩

end Converge

/-! ### A recipe -/

section Recipe

inductive RecipeField
  | title
  | ingredients
  | instructions
  deriving DecidableEq

def RecipeField.Content : RecipeField → Type
  | ingredients => List String
  | _ => String

abbrev Recipe (Time : Type) : Type := Record fun i : RecipeField => LWW Time i.Content

abbrev RecipeOp (Time : Type) : Type := RecordOp fun i : RecipeField => LWW Time i.Content

/-- Time `1` is before all others, and these are concurrent. -/
def Forked (t1 t2 : ℕ) : Prop := t1 = 1 ∧ t2 ≠ 1

def forkedCausalState : CausalState ℕ := ⟨fun t1 t2 => .ok (decide (t1 = 1 ∧ t2 ≠ 1))⟩

def pancakes : Recipe ℕ where
  field
    | .title => ⟨1, "Pancakes"⟩
    | .ingredients => ⟨1, ["flour", "eggs"]⟩
    | .instructions => ⟨1, "Mix and cook."⟩

/-- A new title, and concurrently new ingredients. -/
def fluffier : List (Issued ℕ (RecipeOp ℕ)) :=
  [⟨2, .title, ⟨2, "Fluffy Pancakes"⟩⟩, ⟨3, .ingredients, ⟨3, ["flour", "eggs", "milk"]⟩⟩]

omit [DecidableEq ι] in
lemma commutes_of_length {A O : Type} [CRDT A O Time] {st : CausalState Time}
    {before : Time → Time → Prop} {a b : A} {ops : List (Issued Time O)} (hlen : ops.length ≤ 1)
    (h : applyAll st a ops = .ok b) : Commutes st before a ops := by
  refine ⟨fun l hl _ => ⟨b, ?_⟩, fun p x y q hp => ?_⟩
  · match ops, hlen with
    | [], _ => rwa [hl.eq_nil]
    | [x], _ => rwa [List.perm_singleton.mp hl]
  · have hlen' := hp.length_eq
    simp only [List.length_append, List.length_cons] at hlen'
    omega

theorem record_fieldwise_recipe : Commutes forkedCausalState Forked pancakes fluffier := by
  refine (record_fieldwise forkedCausalState Forked pancakes fluffier
    (fun x _ h => h.2 h.1) fun _ _ _ _ _ _ h h' => absurd h'.1 h.2).2.mpr fun i => ?_
  cases i with
  | title => exact commutes_of_length (b := ⟨2, "Fluffy Pancakes"⟩) (by decide) rfl
  | ingredients =>
    exact commutes_of_length (b := ⟨3, ["flour", "eggs", "milk"]⟩) (by decide) rfl
  | instructions => exact commutes_of_length (b := ⟨1, "Mix and cook."⟩) (by decide) rfl

end Recipe

end Ossa.Crdt
