import Ossa.Collections
import Ossa.Lww

/-!
The two-phase map of `ossa-crdt/map/twopmap.rs`.

A key is inserted once, then updated, and at last deleted for good. In a history in which every
use of a key happens after its insertion, the map is what the history says: a key that was not
deleted has its value with all its updates, and a deleted key has none.
-/

namespace Ossa.Crdt

open Ossa.Loop Ossa.Collections Ossa.Linearize

/-- Two phase map. -/
@[ext]
structure TwoPMap (K V : Type) [LinearOrder K] where
  map : BTreeMap K V
  tombstones : BTreeSet K

inductive TwoPMapOp (K V Op : Type)
  | insert (key : K) (value : V)
  | apply (key : K) (operation : Op)
  | delete (key : K)

variable {K V Op : Type}

def TwoPMapOp.key : TwoPMapOp K V Op → K
  | insert key _ => key
  | apply key _ => key
  | delete key => key

/-- An operation, and the time it is issued at. -/
structure Issued (Time Op : Type) where
  time : Time
  op : Op

variable [LinearOrder K]

def TwoPMap.new : TwoPMap K V := ⟨∅, ∅⟩

variable [CRDT V Op K]

instance : CRDT (TwoPMap K V) (TwoPMapOp K V Op) K where
  apply st self op :=
    -- Check if deleted.
    let isDeleted := self.tombstones.contains op.key
    if isDeleted then .ok self
    else
      match op with
      | .insert key value =>
        if self.map.contains key then
          .error (.unreachable "Invariant violated. Key already exists in TwoPMap.")
        else .ok { self with map := self.map.insert key value }
      | .apply key operation => do
        let v ← orFault (.unreachable ("Invariant violated. Key must already exist when " ++
          "applyting an update to a TwoPMap.")) self.map[key]?
        let v ← CRDT.apply st v operation
        pure { self with map := self.map.insert key v }
      | .delete key => .ok ⟨self.map.erase key, self.tombstones.insert key⟩

/-- The operations of a list, one after the other. -/
def applyAll {T Op Time : Type} [CRDT T Op Time] (st : CausalState Time) (t : T)
    (l : List (Issued Time Op)) : Exec T :=
  l.foldlM (fun t x => CRDT.apply st t x.op) t

/-! ### Histories -/

/-- The operation that issued `x` happens before the one that issued `y`. -/
def IssuedBefore {Time Op : Type} (before : Time → Time → Prop) (x y : Issued Time Op) : Prop :=
  before x.time y.time

/-- The operations apply in every order that respects what happens before what, and neighbours
commute wherever they meet if neither happens before the other. -/
structure Commutes {T Op Time : Type} [CRDT T Op Time] (st : CausalState Time)
    (before : Time → Time → Prop) (t : T) (ops : List (Issued Time Op)) : Prop where
  applies : ∀ l, l.Perm ops → Respects (IssuedBefore before) l → ∃ r, applyAll st t l = .ok r
  swap : ∀ p x y q, (p ++ x :: y :: q).Perm ops →
    Respects (IssuedBefore before) (p ++ x :: y :: q) → ¬ before x.time y.time →
      ¬ before y.time x.time → applyAll st t (p ++ [x, y]) = applyAll st t (p ++ [y, x])

lemma Commutes.eq {T Op Time : Type} [CRDT T Op Time] {st : CausalState Time}
    {before : Time → Time → Prop} {t : T} {ops l l' : List (Issued Time Op)}
    (h : Commutes st before t ops) (hl : l.Perm ops) (hl' : l'.Perm ops)
    (hr : Respects (IssuedBefore before) l) (hr' : Respects (IssuedBefore before) l') :
    applyAll st t l = applyAll st t l' :=
  foldlM_eq_of_perm (hl.trans hl'.symm) hr hr' fun p x y q hp hrp hxy hyx =>
    h.swap p x y q (hp.trans hl) hrp hxy hyx

lemma Commutes.perm {T Op Time : Type} [CRDT T Op Time] {st : CausalState Time}
    {before : Time → Time → Prop} {t : T} {ops ops' : List (Issued Time Op)}
    (h : Commutes st before t ops) (hp : ops.Perm ops') : Commutes st before t ops' where
  applies l hl := h.applies l (hl.trans hp.symm)
  swap p x y q hl := h.swap p x y q (hl.trans hp.symm)

section TwoPMap

variable {ops l l' p q : List (Issued K (TwoPMapOp K V Op))} {x y : Issued K (TwoPMapOp K V Op)}
variable {st : CausalState K} {before : K → K → Prop} {m m' : TwoPMap K V} {k : K} {v : V}

def Inserts (x : Issued K (TwoPMapOp K V Op)) (k : K) : Prop := ∃ v, x.op = .insert k v

/-- Some operation of the list deletes `k`. -/
def Deleted (l : List (Issued K (TwoPMapOp K V Op))) (k : K) : Prop := ∃ x ∈ l, x.op = .delete k

/-- The update of the value at `k` by an operation. -/
def updateOf (k : K) (x : Issued K (TwoPMapOp K V Op)) : Option (Issued K Op) :=
  match x.op with
  | .apply key operation => if key = k then some ⟨x.time, operation⟩ else none
  | _ => none

/-- The updates of the value at `k`. -/
def updates (k : K) (l : List (Issued K (TwoPMapOp K V Op))) : List (Issued K Op) :=
  l.filterMap (updateOf k)

/-- Each key is inserted by one operation, which happens before every other use of it. -/
structure Scoped (before : K → K → Prop) (ops : List (Issued K (TwoPMapOp K V Op))) : Prop where
  once : ops.Pairwise fun x y => ∀ k, ¬ (Inserts x k ∧ Inserts y k)
  after : ∀ x ∈ ops, ¬ Inserts x x.op.key →
    ∃ i ∈ ops, Inserts i x.op.key ∧ before i.time x.time

/-- At key `k`, the map is what the operations say. -/
structure DescribesAt (st : CausalState K) (l : List (Issued K (TwoPMapOp K V Op))) (k : K)
    (m : TwoPMap K V) : Prop where
  tombstone : k ∈ m.tombstones ↔ Deleted l k
  deleted : Deleted l k → m.map[k]? = none
  absent : (∀ x ∈ l, ¬ Inserts x k) → m.map[k]? = none
  present : ∀ x ∈ l, ∀ v, x.op = .insert k v → ¬ Deleted l k →
    ∃ r, applyAll st v (updates k l) = .ok r ∧ m.map[k]? = some r

def TwoPMap.Describes (st : CausalState K) (l : List (Issued K (TwoPMapOp K V Op))) (m : TwoPMap K V) :
    Prop :=
  ∀ k, DescribesAt st l k m

omit [LinearOrder K] [CRDT V Op K] in
lemma Scoped.perm (h : Scoped before l) (hp : l.Perm l') : Scoped before l' where
  once := (hp.pairwise_iff fun hxy k hk => hxy k hk.symm).mp h.once
  after x hx hn := by
    obtain ⟨i, hi, hins, hb⟩ := h.after x (hp.mem_iff.mpr hx) hn
    exact ⟨i, hp.mem_iff.mp hi, hins, hb⟩

omit [LinearOrder K] [CRDT V Op K] in
lemma Scoped.inserted (h : Scoped before (p ++ x :: q))
    (hr : Respects (IssuedBefore before) (p ++ x :: q)) (hn : ¬ Inserts x x.op.key) :
    ∃ i ∈ p, Inserts i x.op.key := by
  obtain ⟨i, hi, hins, hb⟩ := h.after x (by simp) hn
  rcases List.mem_append.mp hi with hi | hi
  · exact ⟨i, hi, hins⟩
  · rcases List.mem_cons.mp hi with rfl | hi
    · exact absurd hins hn
    · exact absurd hb ((respects_cons.mp (respects_append.mp hr).2.1).1 i hi)

omit [LinearOrder K] [CRDT V Op K] in
lemma Scoped.fresh (h : Scoped before (p ++ x :: q))
    (hr : Respects (IssuedBefore before) (p ++ x :: q)) (hx : x.op = .insert k v) :
    ∀ y ∈ p, y.op.key ≠ k := by
  intro y hy heq
  have hxk : Inserts x k := ⟨v, hx⟩
  have honce := List.pairwise_append.mp h.once
  have hny : ¬ Inserts y k := fun hyk => honce.2.2 y hy x List.mem_cons_self k ⟨hyk, hxk⟩
  obtain ⟨a, b, rfl⟩ := List.append_of_mem hy
  rw [List.append_assoc, List.cons_append] at h hr
  obtain ⟨i, hi, hins⟩ := h.inserted hr (heq ▸ hny)
  rw [heq] at hins
  exact honce.2.2 i (List.mem_append_left _ hi) x List.mem_cons_self k ⟨hins, hxk⟩

omit [LinearOrder K] [CRDT V Op K] in
lemma deleted_concat : Deleted (l ++ [x]) k ↔ Deleted l k ∨ x.op = .delete k := by
  simp [Deleted, or_and_right, exists_or]

omit [CRDT V Op K] in
lemma updates_concat : updates k (l ++ [x]) = updates k l ++ (updateOf k x).toList := by
  rw [updates, List.filterMap_append]
  cases h : updateOf k x <;> simp [updates, h]

omit [CRDT V Op K] in
lemma updateOf_of_ne (h : x.op.key ≠ k) : updateOf k x = none := by
  obtain ⟨t, op⟩ := x
  cases op with
  | apply key operation => exact if_neg h
  | insert key value => rfl
  | delete key => rfl

lemma describes_nil : TwoPMap.Describes st [] (.new : TwoPMap K V) := fun k => by
  refine ⟨?_, fun _ => ?_, fun _ => ?_, fun x hx => absurd hx (by simp)⟩ <;>
    simp [TwoPMap.new, Deleted]

lemma DescribesAt.other (h : DescribesAt st p k m) (hk : x.op.key ≠ k)
    (hmap : m'.map[k]? = m.map[k]?) (htomb : k ∈ m'.tombstones ↔ k ∈ m.tombstones) :
    DescribesAt st (p ++ [x]) k m' := by
  have hdel : Deleted (p ++ [x]) k ↔ Deleted p k := by
    rw [deleted_concat]
    refine or_iff_left_of_imp fun hx => absurd ?_ hk
    rw [hx]
    rfl
  have hins : ¬ Inserts x k := by
    rintro ⟨v, hx⟩
    rw [hx] at hk
    exact hk rfl
  refine ⟨by rw [htomb, h.tombstone, hdel], fun hd => by rw [hmap, h.deleted (hdel.mp hd)],
    fun ha => ?_, fun y hy v hyk hd => ?_⟩
  · rw [hmap]
    exact h.absent fun y hy => ha y (List.mem_append_left _ hy)
  · rw [hdel] at hd
    rw [hmap, updates_concat, updateOf_of_ne hk, Option.toList_none, List.append_nil]
    rcases List.mem_append.mp hy with hy | hy
    · exact h.present y hy v hyk hd
    · rw [List.mem_singleton.mp hy] at hyk
      exact absurd ⟨v, hyk⟩ hins

lemma DescribesAt.skip (h : DescribesAt st p x.op.key m) (hd : Deleted p x.op.key) :
    DescribesAt st (p ++ [x]) x.op.key m where
  tombstone := h.tombstone.trans ⟨fun hd => deleted_concat.mpr (Or.inl hd), fun _ => hd⟩
  deleted _ := h.deleted hd
  absent _ := h.deleted hd
  present _ _ _ _ hn := absurd (deleted_concat.mpr (Or.inl hd)) hn

lemma describesAt_insert (h : DescribesAt st p k m) (hs : Scoped before (p ++ x :: q))
    (hr : Respects (IssuedBefore before) (p ++ x :: q)) (hx : x.op = .insert k v)
    (hd : ¬ Deleted p k) : m.map[k]? = none ∧
      DescribesAt st (p ++ [x]) k { m with map := m.map.insert k v } := by
  have hfresh := hs.fresh hr hx
  have hnone : ∀ y ∈ p, ¬ Inserts y k := by
    rintro y hy ⟨v', hyk⟩
    refine hfresh y hy ?_
    rw [hyk]
    rfl
  have hdel : ¬ Deleted (p ++ [x]) k := by
    rw [deleted_concat, hx]
    simp [hd]
  have hupdates : updates k (p ++ [x]) = [] := by
    have hp : updates k p = [] :=
      List.filterMap_eq_nil_iff.mpr fun y hy => updateOf_of_ne (hfresh y hy)
    rw [updates_concat, hp, updateOf, hx]
    rfl
  refine ⟨h.absent hnone, ⟨?_, fun hd' => absurd hd' hdel, fun ha => ?_, fun y hy v' hyk _ => ?_⟩⟩
  · exact h.tombstone.trans (iff_of_false hd hdel)
  · exact absurd ⟨v, hx⟩ (ha x (by simp))
  · rcases List.mem_append.mp hy with hy | hy
    · exact absurd ⟨v', hyk⟩ (hnone y hy)
    · rw [List.mem_singleton.mp hy, hx] at hyk
      cases hyk
      rw [hupdates]
      exact ⟨v, rfl, get_insert.trans (if_pos rfl)⟩

/-- The values of the keys commute. -/
def ValuesCommute (st : CausalState K) (before : K → K → Prop)
    (ops : List (Issued K (TwoPMapOp K V Op))) : Prop :=
  ∀ x ∈ ops, ∀ k v, x.op = .insert k v → Commutes st before v (updates k ops)

lemma ValuesCommute.perm (h : ValuesCommute st before l) (hp : l.Perm l') :
    ValuesCommute st before l' := fun x hx k v hxv =>
  (h x (hp.mem_iff.mpr hx) k v hxv).perm (hp.filterMap (updateOf k))

omit [CRDT V Op K] in
lemma time_updateOf {u : Issued K Op} (h : updateOf k x = some u) : u.time = x.time := by
  obtain ⟨t, op⟩ := x
  cases op with
  | apply key operation =>
    simp only [updateOf] at h
    split_ifs at h
    cases h
    rfl
  | insert key value => cases h
  | delete key => cases h

omit [CRDT V Op K] in
lemma respects_updates (hr : Respects (IssuedBefore before) l) :
    Respects (IssuedBefore before) (updates k l) := by
  refine hr.filterMap (updateOf k) fun x y hxy u hu w hw => ?_
  rw [IssuedBefore, time_updateOf hu, time_updateOf hw]
  exact hxy

lemma applyAll_append {T Op Time : Type} [CRDT T Op Time] {st : CausalState Time} {t : T}
    {l l' : List (Issued Time Op)} :
    applyAll st t (l ++ l') = applyAll st t l >>= fun t => applyAll st t l' :=
  List.foldlM_append

lemma describesAt_apply {operation : Op} (h : DescribesAt st p k m)
    (hs : Scoped before (p ++ x :: q)) (hv : ValuesCommute st before (p ++ x :: q))
    (hr : Respects (IssuedBefore before) (p ++ x :: q)) (hx : x.op = .apply k operation)
    (hd : ¬ Deleted p k) : ∃ r r', m.map[k]? = some r ∧ CRDT.apply st r operation = .ok r' ∧
      DescribesAt st (p ++ [x]) k { m with map := m.map.insert k r' } := by
  have hkey : x.op.key = k := by rw [hx]; rfl
  have hnot : ∀ k', ¬ Inserts x k' := by
    rintro k' ⟨v, hins⟩
    rw [hx] at hins
    cases hins
  obtain ⟨i, hi, v, hiv⟩ := hs.inserted hr (hnot _)
  rw [hkey] at hiv
  obtain ⟨r, hfold, hget⟩ := h.present i hi v hiv hd
  have hu : updateOf k x = some ⟨x.time, operation⟩ := by
    rw [updateOf, hx]
    exact if_pos rfl
  -- The updates of the whole history apply, so those up to here do.
  obtain ⟨r', hr'⟩ : ∃ r', CRDT.apply st r operation = .ok r' := by
    obtain ⟨w, hw⟩ := (hv i (List.mem_append_left _ hi) k v hiv).applies _ (List.Perm.refl _)
      (respects_updates hr)
    rw [updates, List.filterMap_append, List.filterMap_cons_some hu, applyAll_append] at hw
    obtain ⟨r₁, hr₁, hw⟩ := bind_eq_ok.mp hw
    obtain ⟨r₂, hr₂, -⟩ := bind_eq_ok.mp hw
    obtain rfl : r = r₁ := Except.ok.inj (hfold.symm.trans hr₁)
    exact ⟨r₂, hr₂⟩
  have hdel : ¬ Deleted (p ++ [x]) k := by
    rw [deleted_concat, hx]
    simp [hd]
  refine ⟨r, r', hget, hr', ⟨?_, fun hd' => absurd hd' hdel, fun ha => ?_, fun y hy v' hyk _ => ?_⟩⟩
  · exact h.tombstone.trans (iff_of_false hd hdel)
  · exact absurd ⟨v, hiv⟩ (ha i (List.mem_append_left _ hi))
  · rcases List.mem_append.mp hy with hy | hy
    · obtain ⟨r₁, hfold₁, hget₁⟩ := h.present y hy v' hyk hd
      obtain rfl : r = r₁ := Option.some.inj (hget.symm.trans hget₁)
      refine ⟨r', ?_, get_insert.trans (if_pos rfl)⟩
      rw [updates_concat, hu, Option.toList_some, applyAll_append, hfold₁, ok_bind, applyAll,
        List.foldlM_cons, hr', ok_bind]
      rfl
    · rw [List.mem_singleton.mp hy] at hyk
      exact absurd ⟨v', hyk⟩ (hnot k)

lemma describesAt_delete (hx : x.op = .delete k) :
    DescribesAt st (p ++ [x]) k ⟨m.map.erase k, m.tombstones.insert k⟩ := by
  have hdel : Deleted (p ++ [x]) k := deleted_concat.mpr (Or.inr hx)
  have hnone : (m.map.erase k)[k]? = none := by simp
  exact ⟨iff_of_true (mem_insert.mpr (Or.inl rfl)) hdel, fun _ => hnone, fun _ => hnone,
    fun _ _ _ _ hn => absurd hdel hn⟩

/-- **One operation**: the map stays what the operations say, and none of them is unexpected. -/
theorem apply_describes (h : TwoPMap.Describes st p m) (hs : Scoped before (p ++ x :: q))
    (hv : ValuesCommute st before (p ++ x :: q))
    (hr : Respects (IssuedBefore before) (p ++ x :: q)) :
    ∃ m', CRDT.apply st m x.op = .ok m' ∧ TwoPMap.Describes st (p ++ [x]) m' := by
  by_cases hd : Deleted p x.op.key
  · have hc : m.tombstones.contains x.op.key = true :=
      Std.ExtTreeSet.contains_iff_mem.mpr ((h _).tombstone.mpr hd)
    refine ⟨m, if_pos hc, fun k => ?_⟩
    by_cases hk : x.op.key = k
    · exact hk ▸ (h x.op.key).skip hd
    · exact (h k).other hk rfl Iff.rfl
  · have hc : ¬ m.tombstones.contains x.op.key = true := fun hc =>
      hd ((h _).tombstone.mp (Std.ExtTreeSet.contains_iff_mem.mp hc))
    obtain ⟨t, op⟩ := x
    cases op with
    | insert key value =>
      obtain ⟨hnone, hdesc⟩ := describesAt_insert (h key) hs hr rfl hd
      have hfree : ¬ m.map.contains key = true := by
        rw [contains_iff, hnone]
        simp
      refine ⟨{ m with map := m.map.insert key value }, ?_, fun k => ?_⟩
      · exact (if_neg hc).trans (if_neg hfree)
      · by_cases hk : key = k
        · exact hk ▸ hdesc
        · exact (h k).other hk (get_insert.trans (if_neg (Ne.symm hk))) Iff.rfl
    | apply key operation =>
      obtain ⟨r, r', hget, happly, hdesc⟩ := describesAt_apply (h key) hs hv hr rfl hd
      refine ⟨{ m with map := m.map.insert key r' }, ?_, fun k => ?_⟩
      · refine (if_neg hc).trans ?_
        simp only [hget, orFault_some, ok_bind, happly, pure_eq_ok]
      · by_cases hk : key = k
        · exact hk ▸ hdesc
        · exact (h k).other hk (get_insert.trans (if_neg (Ne.symm hk))) Iff.rfl
    | delete key =>
      refine ⟨⟨m.map.erase key, m.tombstones.insert key⟩, if_neg hc, fun k => ?_⟩
      by_cases hk : key = k
      · exact hk ▸ describesAt_delete rfl
      · refine (h k).other hk ?_ ?_
        · rw [Std.ExtTreeMap.getElem?_erase]
          simp [hk]
        · rw [mem_insert]
          exact or_iff_right (Ne.symm hk)

/-- **A whole history**, and each part of it from the start. -/
theorem applyAll_describes (hs : Scoped before (p ++ q)) (hv : ValuesCommute st before (p ++ q))
    (hr : Respects (IssuedBefore before) (p ++ q)) :
    ∃ m : TwoPMap K V, applyAll st .new p = .ok m ∧ TwoPMap.Describes st p m := by
  induction p using List.reverseRecOn generalizing q with
  | nil => exact ⟨.new, rfl, describes_nil⟩
  | append_singleton p x ih =>
    rw [List.append_assoc, List.singleton_append] at hs hv hr
    obtain ⟨m, hm, hdesc⟩ := ih hs hv hr
    obtain ⟨m', hm', hdesc'⟩ := apply_describes hdesc hs hv hr
    refine ⟨m', ?_, hdesc'⟩
    rw [applyAll_append, hm, ok_bind, applyAll, List.foldlM_cons, hm', ok_bind]
    rfl

lemma TwoPMap.Describes.eq (h : TwoPMap.Describes st l m) (h' : TwoPMap.Describes st l' m') (hp : l.Perm l')
    (hv : ValuesCommute st before l) (hr : Respects (IssuedBefore before) l)
    (hr' : Respects (IssuedBefore before) l') : m = m' := by
  have hdel : ∀ k, Deleted l k ↔ Deleted l' k := fun k =>
    exists_congr fun x => and_congr_left fun _ => hp.mem_iff
  refine TwoPMap.ext (Std.ExtTreeMap.ext_getElem? fun {k} => ?_) (set_ext fun k => ?_)
  · by_cases hd : Deleted l k
    · rw [(h k).deleted hd, (h' k).deleted ((hdel k).mp hd)]
    by_cases hi : ∃ x ∈ l, Inserts x k
    · obtain ⟨x, hx, v, hxv⟩ := hi
      obtain ⟨r, hfold, hget⟩ := (h k).present x hx v hxv hd
      obtain ⟨r', hfold', hget'⟩ :=
        (h' k).present x (hp.mem_iff.mp hx) v hxv fun hd' => hd ((hdel k).mpr hd')
      have heq := (hv x hx k v hxv).eq (List.Perm.refl _) (hp.symm.filterMap (updateOf k))
        (respects_updates hr) (respects_updates hr')
      rw [hget, hget', Except.ok.inj (hfold.symm.trans (heq.trans hfold'))]
    · have hnone : ∀ x ∈ l, ¬ Inserts x k := fun x hx hxk => hi ⟨x, hx, hxk⟩
      rw [(h k).absent hnone, (h' k).absent fun x hx => hnone x (hp.mem_iff.mpr hx)]
  · rw [(h k).tombstone, (h' k).tombstone, hdel]

end TwoPMap

end Ossa.Crdt

namespace Ossa.Ecg

open Ossa.Loop Ossa.Collections Ossa.Crdt Ossa.Linearize

variable {HeaderId Header V Op : Type} [LinearOrder HeaderId] [ECGHeader Header HeaderId]
variable [CRDT V Op (OperationId HeaderId)] {s : UntypedState HeaderId Header}
variable {ops l l' : List (Issued (OperationId HeaderId) (TwoPMapOp (OperationId HeaderId) V Op))}

omit [ECGHeader Header HeaderId] in
/-- **Two-phase maps converge, and deletion is final**: along any two orders of a history that
respect what happens before what, no operation is unexpected and the map is the same; on the
way no key is both present and deleted, and a deleted key stays so. -/
theorem twoPMap_converges (hs : Scoped (Precedes (toCausalState s)) ops)
    (hv : ValuesCommute (toCausalState s) (Precedes (toCausalState s)) ops)
    (hl : l.Perm ops) (hl' : l'.Perm ops)
    (hr : Respects (IssuedBefore (Precedes (toCausalState s))) l)
    (hr' : Respects (IssuedBefore (Precedes (toCausalState s))) l') :
    (∃ m : TwoPMap (OperationId HeaderId) V, applyAll (toCausalState s) .new l = .ok m ∧
      applyAll (toCausalState s) .new l' = .ok m) ∧
    ∀ p q r, l = p ++ q ++ r → ∃ m m' : TwoPMap (OperationId HeaderId) V,
      applyAll (toCausalState s) .new p = .ok m ∧
      applyAll (toCausalState s) .new (p ++ q) = .ok m' ∧
      (∀ k, ¬ (m.map.contains k ∧ k ∈ m.tombstones)) ∧
      ∀ k ∈ m.tombstones, k ∈ m'.tombstones ∧ m'.map[k]? = none := by
  have hsl := hs.perm hl.symm
  have hvl := hv.perm hl.symm
  have hrun : ∀ p q, l = p ++ q → ∃ m : TwoPMap (OperationId HeaderId) V,
      applyAll (toCausalState s) .new p = .ok m ∧ TwoPMap.Describes (toCausalState s) p m := by
    rintro p q rfl
    exact applyAll_describes hsl hvl hr
  constructor
  · obtain ⟨m, hm, hdesc⟩ := hrun l [] (List.append_nil l).symm
    have hsl' := hs.perm hl'.symm
    have hvl' := hv.perm hl'.symm
    rw [← List.append_nil l'] at hsl' hvl'
    obtain ⟨m', hm', hdesc'⟩ := applyAll_describes hsl' hvl' (by rwa [List.append_nil])
    have heq := hdesc.eq hdesc' (hl.trans hl'.symm) hvl hr hr'
    exact ⟨m, hm, heq ▸ hm'⟩
  · intro p q r hsplit
    obtain ⟨m, hm, hdesc⟩ := hrun p (q ++ r) (by rw [hsplit, List.append_assoc])
    obtain ⟨m', hm', hdesc'⟩ := hrun (p ++ q) r hsplit
    refine ⟨m, m', hm, hm', fun k ⟨hc, hk⟩ => ?_, fun k hk => ?_⟩
    · obtain ⟨v, hget⟩ := contains_iff.mp hc
      rw [(hdesc k).deleted ((hdesc k).tombstone.mp hk)] at hget
      cases hget
    · obtain ⟨x, hx, hxk⟩ := (hdesc k).tombstone.mp hk
      have hd : Deleted (p ++ q) k := ⟨x, List.mem_append_left _ hx, hxk⟩
      exact ⟨(hdesc' k).tombstone.mpr hd, (hdesc' k).deleted hd⟩

/-! A register is inserted, and then written to by one header and deleted by another. -/

section Fork

open V0

def fork : UntypedState ℕ TestHeader :=
  insertAll .new [(⟨1, []⟩, []), (⟨2, [1]⟩, []), (⟨3, [1]⟩, [])]

def issue (h : ℕ) (op : TwoPMapOp (OperationId ℕ) (LWW (OperationId ℕ) ℕ)
    (LWW (OperationId ℕ) ℕ)) : Issued (OperationId ℕ) (TwoPMapOp (OperationId ℕ)
      (LWW (OperationId ℕ) ℕ) (LWW (OperationId ℕ) ℕ)) := ⟨firstOf (some h), op⟩

def insertion := issue 1 (.insert (firstOf (some 1)) (write 1))
def update := issue 2 (.apply (firstOf (some 1)) (write 2))
def deletion := issue 3 (.delete (firstOf (some 1)))

lemma fork_scoped : Scoped (Precedes (toCausalState fork)) [insertion, update, deletion] where
  once := by simp [Inserts, insertion, update, deletion, issue]
  after x hx hn := by
    have hi : Inserts insertion (firstOf (some 1)) := ⟨write 1, rfl⟩
    refine ⟨insertion, List.mem_cons_self, ?_⟩
    rcases List.mem_cons.mp hx with rfl | hx
    · exact absurd hi hn
    rcases List.mem_cons.mp hx with rfl | hx
    · exact ⟨hi, by decide⟩
    · rw [List.mem_singleton.mp hx]
      exact ⟨hi, by decide⟩

lemma fork_values :
    ValuesCommute (toCausalState fork) (Precedes (toCausalState fork))
      [insertion, update, deletion] := by
  intro x hx k v hxv
  obtain rfl : x = insertion := by
    rcases List.mem_cons.mp hx with rfl | hx
    · rfl
    rcases List.mem_cons.mp hx with rfl | hx
    · cases hxv
    · rw [List.mem_singleton.mp hx] at hxv
      cases hxv
  cases hxv
  have hupdates : updates (firstOf (some 1)) [insertion, update, deletion] =
      [⟨firstOf (some 2), write 2⟩] := rfl
  rw [hupdates]
  refine ⟨fun l hl _ => ?_, fun p x y q hp => ?_⟩
  · rw [List.perm_singleton.mp hl]
    exact ⟨write 2, by decide⟩
  · have hlen := hp.length_eq
    simp only [List.length_append, List.length_cons, List.length_nil] at hlen
    omega

/-- The map with one deleted key, either way. -/
theorem twoPMap_converges_fork : ∃ m : TwoPMap (OperationId ℕ) (LWW (OperationId ℕ) ℕ),
    applyAll (toCausalState fork) .new [insertion, update, deletion] = .ok m ∧
      applyAll (toCausalState fork) .new [insertion, deletion, update] = .ok m := by
  have hr : Respects (IssuedBefore (Precedes (toCausalState fork)))
      [insertion, update, deletion] := by
    unfold Respects IssuedBefore
    decide
  have hr' : Respects (IssuedBefore (Precedes (toCausalState fork)))
      [insertion, deletion, update] := by
    unfold Respects IssuedBefore
    decide
  have hp : [insertion, deletion, update].Perm [insertion, update, deletion] :=
    (List.Perm.swap _ _ _).cons _
  exact (twoPMap_converges fork_scoped fork_values (List.Perm.refl _) hp hr hr').1

end Fork

end Ossa.Ecg
