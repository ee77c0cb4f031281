import Ossa.EcgBody
import Ossa.StoreHandler

/-!
Batches of operations on their way from an application to a store: `StoreHandle::apply_batch`
of `core.rs`, and the `OperationBuilder` of `ossa-dioxus`.

The builder and the body agree on a limit of 256 operations. The header counts them in a byte,
so that exactly the full batch passes both and has no header.
-/

namespace Ossa.Store

open Ossa.Loop Ossa.Util Ossa.Collections Ossa.Ecg Ossa.Ecg.V0 Ossa.Crdt

variable {H : Type} [Hash H] [LinearOrder H] [Serialize (Header H)]

section Handle

variable {SerializedOp : Type} [Serialize (Body SerializedOp)]

/-- `StoreHandle::apply_batch`: the id of the new header, and the command that is sent to the
store. -/
def StoreHandle.applyBatch (nonce : UInt8) (parents : BTreeSet (HeaderId H))
    (op : List SerializedOp) :
    Exec (HeaderId H × Command H (HeaderId H) (Header H) (Body SerializedOp)) := do
  -- Create ECG header and body.
  let body ← Body.newBody op
  let header ← body.newHeader nonce parents
  pure (getHeaderId header, .apply header body)

/-- **A batch becomes a header** when it has fewer than 256 operations. -/
lemma StoreHandle.applyBatch_eq_ok {nonce : UInt8} {parents : BTreeSet (HeaderId H)}
    {op : List SerializedOp}
    {r : HeaderId H × Command H (HeaderId H) (Header H) (Body SerializedOp)} :
    applyBatch nonce parents op = .ok r ↔ op.length < 256 ∧
      ∃ header : Header H,
        header = ⟨nonce, parents.toList, UInt8.ofNat op.length, tmpHash (Body.mk op)⟩ ∧
        r = (getHeaderId header, .apply header ⟨op⟩) := by
  unfold applyBatch
  simp only [bind_eq_ok, Body.newBody_eq_ok, Body.newHeader_eq_ok]
  constructor
  · rintro ⟨body, ⟨-, rfl⟩, header, ⟨hlen, rfl⟩, heq⟩
    exact ⟨hlen, _, rfl, (Except.ok.inj heq).symm⟩
  · rintro ⟨hlen, header, rfl, rfl⟩
    exact ⟨_, ⟨hlen.le, rfl⟩, _, ⟨hlen, rfl⟩, rfl⟩

end Handle

structure OperationBuilder (H SerializedOp : Type) [LinearOrder H] where
  parents : BTreeSet (HeaderId H)
  operations : List SerializedOp

def MAX_OPS : ℕ := 256

namespace OperationBuilder

variable {SerializedOp Time : Type}

omit [Hash H] [Serialize (Header H)]

/-- `UseStore::operations_builder`, at the tips of the state that is shown. -/
def new (parents : BTreeSet (HeaderId H)) : OperationBuilder H SerializedOp := ⟨parents, []⟩

/-- Queue up an operation to apply. -/
def queue (b : OperationBuilder H SerializedOp) (f : CausalTime Time → SerializedOp) :
    OperationBuilder H SerializedOp × Option (CausalTime Time) :=
  if b.operations.length ≥ MAX_OPS then (b, none)
  else
    let t := CausalTime.currentTime
      ⟨b.operations.length % 256, Nat.mod_lt _ (Nat.zero_lt_succ 255)⟩
    ({ b with operations := b.operations ++ [f t] }, some t)

/-- The builder after calls of `queue`, and what they answered. -/
def queueAll (b : OperationBuilder H SerializedOp) :
    List (CausalTime Time → SerializedOp) →
      OperationBuilder H SerializedOp × List (Option (CausalTime Time))
  | [] => (b, [])
  | f :: fs => (((b.queue f).1.queueAll fs).1, (b.queue f).2 :: ((b.queue f).1.queueAll fs).2)

variable {b : OperationBuilder H SerializedOp} {f : CausalTime Time → SerializedOp}
variable {fs : List (CausalTime Time → SerializedOp)}

lemma queue_of_lt (h : b.operations.length < 256) :
    b.queue f = (⟨b.parents, b.operations ++ [f (.current ⟨b.operations.length, h⟩)]⟩,
      some (.current ⟨b.operations.length, h⟩)) := by
  unfold queue
  rw [if_neg (by unfold MAX_OPS; omega)]
  simp only [Nat.mod_eq_of_lt h]
  rfl

lemma queue_of_le (h : 256 ≤ b.operations.length) : b.queue f = (b, none) := if_pos h

/-- **A call of `queue`** is accepted as long as `new_body` accepts one more operation. -/
lemma isSome_queue_iff {op : SerializedOp} :
    (b.queue f).2.isSome ↔ ∃ body, Body.newBody (b.operations ++ [op]) = .ok body := by
  simp only [Body.newBody_eq_ok, exists_and_left, exists_eq, and_true, List.length_append,
    List.length_singleton]
  by_cases h : b.operations.length < 256
  · simp only [queue_of_lt h, Option.isSome_some, true_iff]
    omega
  · simp only [queue_of_le (not_lt.mp h), Option.isSome_none, Bool.false_eq_true, false_iff]
    omega

variable {n : ℕ}

/-- The answer to a call of `queue` is the position of its operation, up to the limit. -/
lemma times_queueAll (hn : b.operations.length = n) (k : ℕ) : (b.queueAll fs).2[k]? =
    fs[k]?.map fun _ => if h : n + k < 256 then some (.current ⟨n + k, h⟩) else none := by
  induction fs generalizing b n k with
  | nil => rfl
  | cons f fs ih =>
    subst hn
    rw [queueAll]
    by_cases h : b.operations.length < 256
    · rw [queue_of_lt h]
      cases k with
      | zero => simp [h]
      | succ k =>
        rw [List.getElem?_cons_succ, List.getElem?_cons_succ,
          ih (n := b.operations.length + 1) (by simp)]
        simp only [Nat.add_assoc, Nat.add_comm 1]
    · rw [queue_of_le (not_lt.mp h)]
      cases k with
      | zero => simp [h]
      | succ k =>
        rw [List.getElem?_cons_succ, List.getElem?_cons_succ, ih rfl]
        simp [show ¬ b.operations.length + k < 256 by omega,
          show ¬ b.operations.length + (k + 1) < 256 by omega]

lemma operations_queueAll (hn : b.operations.length = n) (hle : n ≤ 256) :
    ∃ ops, (b.queueAll fs).1 = ⟨b.parents, b.operations ++ ops⟩ ∧
      ops.length = min fs.length (256 - n) ∧
      ∀ k f (hk : n + k < 256), fs[k]? = some f → ops[k]? = some (f (.current ⟨n + k, hk⟩)) := by
  induction fs generalizing b n with
  | nil => exact ⟨[], by simp [queueAll], by simp, by simp⟩
  | cons f fs ih =>
    subst hn
    rw [queueAll]
    by_cases hlt : b.operations.length < 256
    · rw [queue_of_lt hlt]
      obtain ⟨ops, hops, hlen, hget⟩ := ih (n := b.operations.length + 1)
        (b := ⟨b.parents, b.operations ++ [f (.current ⟨_, hlt⟩)]⟩) (by simp) hlt
      refine ⟨_ :: ops, by rw [hops, List.append_assoc]; rfl, ?_, fun k f' hk hf => ?_⟩
      · rw [List.length_cons, hlen, List.length_cons]
        omega
      · cases k with
        | zero => simpa using congrArg (· (CausalTime.current ⟨_, hlt⟩)) (Option.some.inj hf)
        | succ k =>
          rw [List.getElem?_cons_succ, hget k f' (by omega) hf]
          simp only [Nat.add_assoc, Nat.add_comm 1]
    · rw [queue_of_le (not_lt.mp hlt)]
      obtain ⟨ops, hops, hlen, -⟩ := ih rfl hle
      refine ⟨ops, hops, ?_, fun k f hk => absurd hk (by omega)⟩
      rw [hlen, List.length_cons]
      omega

lemma queueAll_new (parents : BTreeSet (HeaderId H))
    (fs : List (CausalTime Time → SerializedOp)) :
    ∃ ops, ((new parents).queueAll fs).1 = ⟨parents, ops⟩ ∧ ops.length = min fs.length 256 ∧
      ∀ k f (hk : k < 256), fs[k]? = some f → ops[k]? = some (f (.current ⟨k, hk⟩)) := by
  obtain ⟨ops, hops, hlen, hget⟩ :=
    operations_queueAll (b := new parents) (n := 0) rfl (Nat.zero_le _)
  refine ⟨ops, hops, hlen, fun k f hk hf => ?_⟩
  simpa only [Nat.zero_add] using hget k f (by omega) hf

end OperationBuilder

/-! ### From the builder to the header -/

section Batches

variable {Op : Type} [ConcretizeTime Op (HeaderId H)]
variable [Serialize (Body (Serialized Op (HeaderId H)))]

/-- `OperationBuilder::apply` -/
def OperationBuilder.apply {SerializedOp : Type} [Serialize (Body SerializedOp)] (nonce : UInt8)
    (b : OperationBuilder H SerializedOp) :
    Exec (HeaderId H × Command H (HeaderId H) (Header H) (Body SerializedOp)) :=
  StoreHandle.applyBatch nonce b.parents b.operations

/-- The batch becomes a header that counts its operations, and a body that yields them in
order, at the times they have under the header. -/
def BecomesHeader (Op : Type) [ConcretizeTime Op (HeaderId H)]
    [Serialize (Body (Serialized Op (HeaderId H)))] (ops : List (Serialized Op (HeaderId H)))
    (r : Exec (HeaderId H ×
      Command H (HeaderId H) (Header H) (Body (Serialized Op (HeaderId H))))) : Prop :=
  ∃ (header : Header H) (body : Body (Serialized Op (HeaderId H))),
    r = .ok (getHeaderId header, .apply header body) ∧
    header.operationsCount.toNat = body.operations.length ∧
    (body.concreteOperations (getHeaderId header) : List Op) =
      ops.map fun op => concretizeTime op (getHeaderId header)

/-- What an application may expect of the calls of `queue` and the `apply` that follows. -/
structure Batched (Op : Type) [ConcretizeTime Op (HeaderId H)]
    [Serialize (Body (Serialized Op (HeaderId H)))] {Time : Type} (nonce : UInt8)
    (parents : BTreeSet (HeaderId H))
    (fs : List (CausalTime Time → Serialized Op (HeaderId H))) : Prop where
  /-- The next call is accepted as long as `new_body` accepts one more operation. -/
  sizes (f : CausalTime Time → Serialized Op (HeaderId H)) (op : Serialized Op (HeaderId H)) :
    (((OperationBuilder.new parents).queueAll fs).1.queue f).2.isSome ↔
      ∃ body, Body.newBody (((OperationBuilder.new parents).queueAll fs).1.operations ++ [op]) =
        .ok body
  times (k : ℕ) (t : CausalTime Time)
    (h : ((OperationBuilder.new parents).queueAll fs).2[k]? = some (some t)) :
    ∃ hk : k < 256, t = .current ⟨k, hk⟩
  distinct (j k : ℕ) (t : CausalTime Time)
    (hj : ((OperationBuilder.new parents).queueAll fs).2[j]? = some (some t))
    (hk : ((OperationBuilder.new parents).queueAll fs).2[k]? = some (some t)) : j = k
  applies : ∃ ops : List (Serialized Op (HeaderId H)), ops.length = min fs.length 256 ∧
    (∀ k f (hk : k < 256), fs[k]? = some f → ops[k]? = some (f (.current ⟨k, hk⟩))) ∧
    BecomesHeader Op ops (((OperationBuilder.new parents).queueAll fs).1.apply nonce)

lemma becomesHeader_iff {nonce : UInt8} {parents : BTreeSet (HeaderId H)}
    {ops : List (Serialized Op (HeaderId H))} :
    BecomesHeader Op ops (StoreHandle.applyBatch nonce parents ops) ↔ ops.length < 256 := by
  constructor
  · rintro ⟨header, body, h, -⟩
    exact (StoreHandle.applyBatch_eq_ok.mp h).1
  · intro h
    refine ⟨_, _, StoreHandle.applyBatch_eq_ok.mpr ⟨h, _, rfl, rfl⟩, ?_, rfl⟩
    change (UInt8.ofNat ops.length).toNat = ops.length
    rw [UInt8.toNat_ofNat']
    omega

/-- **Every batch but a full one** that the application may hand over becomes a header with
its operations: after fewer than 256 calls of `queue`, and for every vector that `new_body`
accepts unless it has 256 operations. -/
theorem batched_iff {Time : Type} (nonce : UInt8) (parents : BTreeSet (HeaderId H)) :
    (∀ fs : List (CausalTime Time → Serialized Op (HeaderId H)),
      Batched Op nonce parents fs ↔ fs.length < 256) ∧
    (∀ ops : List (Serialized Op (HeaderId H)),
      ((∃ body, Body.newBody ops = .ok body) →
        BecomesHeader Op ops (StoreHandle.applyBatch nonce parents ops)) ↔ ops.length ≠ 256) ∧
    ∀ (headerId : HeaderId H) k,
      concretizeOperationId (.current k) headerId = ⟨some headerId, k⟩ := by
  refine ⟨fun fs => ⟨fun h => ?_, fun hlt => ?_⟩, fun ops => ⟨fun h heq => ?_, fun hne h => ?_⟩,
    fun _ _ => rfl⟩
  · obtain ⟨ops, hlen, -, hr⟩ := h.applies
    obtain ⟨header, body, hr, -⟩ := hr
    obtain ⟨ops', hops', hlen', -⟩ := OperationBuilder.queueAll_new parents fs
    rw [OperationBuilder.apply, hops'] at hr
    have hfull : ops'.length < 256 := (StoreHandle.applyBatch_eq_ok.mp hr).1
    omega
  · have htimes : ∀ k, ((OperationBuilder.new parents).queueAll fs).2[k]? =
        fs[k]?.map fun _ => if h : 0 + k < 256 then some (.current ⟨0 + k, h⟩) else none :=
      OperationBuilder.times_queueAll rfl
    have htime : ∀ k t, ((OperationBuilder.new parents).queueAll fs).2[k]? = some (some t) →
        ∃ hk : k < 256, t = .current ⟨k, hk⟩ := by
      intro k t hk
      rw [htimes k, Option.map_eq_some_iff] at hk
      obtain ⟨f, -, hk⟩ := hk
      simp only [Nat.zero_add] at hk
      split_ifs at hk with h256
      exact ⟨h256, (Option.some.inj hk).symm⟩
    refine ⟨fun f op => OperationBuilder.isSome_queue_iff, htime, fun j k t hj hk => ?_, ?_⟩
    · obtain ⟨hj', rfl⟩ := htime j t hj
      obtain ⟨hk', heq⟩ := htime k _ hk
      exact Fin.mk.inj (CausalTime.current.inj heq)
    · obtain ⟨ops, hops, hlen, hget⟩ := OperationBuilder.queueAll_new parents fs
      refine ⟨ops, hlen, hget, ?_⟩
      rw [OperationBuilder.apply, hops, becomesHeader_iff]
      omega
  · obtain ⟨header, body, hr, -⟩ := h ⟨⟨ops⟩, Body.newBody_eq_ok.mpr ⟨heq.le, rfl⟩⟩
    have hlt := (StoreHandle.applyBatch_eq_ok.mp hr).1
    omega
  · obtain ⟨body, hbody⟩ := h
    rw [becomesHeader_iff]
    have hle := (Body.newBody_eq_ok.mp hbody).1
    omega

end Batches

/-! ### A full batch -/

section FullBatch

/-- A hash that counts bytes. -/
@[reducible] def countHash : Hash ℕ where
  HashState := ℕ
  new := 0
  update n data := n + data.length
  finalize n := n
  asRef _ := []
  update_update n a b := by rw [List.length_append, Nat.add_assoc]

abbrev PlainOp := OperationId (HeaderId ℕ)

local instance plainHash : Hash ℕ := countHash

local instance plainHeader : Serialize (Header ℕ) := ⟨fun _ => []⟩

local instance plainBody : Serialize (Body (Serialized PlainOp (HeaderId ℕ))) := ⟨fun _ => []⟩

/-- Calls of `queue` that queue the time of the call. -/
def fullBatch : List (CausalTime PlainOp → Serialized PlainOp (HeaderId ℕ)) :=
  List.replicate 256 fun t => t

/-- The builder after these calls. -/
def fullBuilder : OperationBuilder ℕ (Serialized PlainOp (HeaderId ℕ)) :=
  ((OperationBuilder.new ∅).queueAll fullBatch).1

/-- The builder after calls of `queue`. By this name it is compared without running the calls. -/
def builderAfter (parents : BTreeSet (HeaderId ℕ))
    (fs : List (CausalTime PlainOp → Serialized PlainOp (HeaderId ℕ))) :
    OperationBuilder ℕ (Serialized PlainOp (HeaderId ℕ)) :=
  ((OperationBuilder.new parents).queueAll fs).1

lemma builderAfter_eq (parents : BTreeSet (HeaderId ℕ))
    (fs : List (CausalTime PlainOp → Serialized PlainOp (HeaderId ℕ))) :
    builderAfter parents fs = ((OperationBuilder.new parents).queueAll fs).1 := rfl

lemma fullBuilder_eq : fullBuilder = builderAfter ∅ fullBatch := rfl

/-- A batch of 256 operations has a body, and no header. -/
theorem fullBatch_refused :
    (∃ body, Body.newBody fullBuilder.operations = .ok body) ∧
    fullBuilder.apply 0 =
      .error (.expect "Unreachable: Length is bound by MAX_OPERATION_COUNT.") ∧
    ¬ Batched PlainOp 0 ∅ fullBatch := by
  obtain ⟨ops, hops, hlen, -⟩ := OperationBuilder.queueAll_new (H := ℕ) ∅ fullBatch
  have hbuilder : fullBuilder = ⟨∅, ops⟩ :=
    fullBuilder_eq.trans ((builderAfter_eq ∅ fullBatch).trans hops)
  have hcalls : fullBatch.length = 256 := List.length_replicate
  have hfull : ops.length = 256 := by omega
  refine ⟨⟨⟨ops⟩, Body.newBody_eq_ok.mpr ⟨hbuilder ▸ hfull.le, by rw [hbuilder]⟩⟩, ?_, fun h => ?_⟩
  · have hcount : ¬ (Body.mk ops).operations.length < UInt8.size := by
      change ¬ ops.length < 256
      omega
    rw [OperationBuilder.apply, hbuilder, StoreHandle.applyBatch,
      Body.newBody_eq_ok.mpr ⟨hfull.le, rfl⟩, ok_bind, Body.newHeader, Body.operationsCount,
      if_neg hcount]
    rfl
  · obtain ⟨ops', hlen', -, header, body, hr, -⟩ := h.applies
    rw [OperationBuilder.apply, hops] at hr
    have hlt : ops.length < 256 := (StoreHandle.applyBatch_eq_ok.mp hr).1
    omega

end FullBatch

end Ossa.Store
