import Ossa.Hash
import Ossa.Lww
import Ossa.TwoPMap

/-!
The headers and bodies of `store/ecg/v0.rs`, and the times that operations carry while their
header is not yet known.
-/

namespace Ossa.Crdt

/-- A time that does not know its header yet becomes one that does. -/
class ConcretizeTime (Op HeaderId : Type) where
  Serialized : Type
  concretizeTime : Serialized → HeaderId → Op

export ConcretizeTime (Serialized concretizeTime)

variable {HeaderId T V K Op : Type}

instance [ConcretizeTime T HeaderId] : ConcretizeTime (LWW T V) HeaderId where
  Serialized := LWW (Serialized T HeaderId) V
  concretizeTime src currentHeader := ⟨concretizeTime src.time currentHeader, src.value⟩

variable [ConcretizeTime K HeaderId] [ConcretizeTime V HeaderId] [ConcretizeTime Op HeaderId]

def TwoPMapOp.concretizeTime (currentHeader : HeaderId) :
    TwoPMapOp (Serialized K HeaderId) (Serialized V HeaderId) (Serialized Op HeaderId) →
      TwoPMapOp K V Op
  | .insert key value =>
    .insert (Crdt.concretizeTime key currentHeader) (Crdt.concretizeTime value currentHeader)
  | .apply key operation =>
    .apply (Crdt.concretizeTime key currentHeader) (Crdt.concretizeTime operation currentHeader)
  | .delete key => .delete (Crdt.concretizeTime key currentHeader)

instance : ConcretizeTime (TwoPMapOp K V Op) HeaderId where
  Serialized :=
    TwoPMapOp (Serialized K HeaderId) (Serialized V HeaderId) (Serialized Op HeaderId)
  concretizeTime src currentHeader := src.concretizeTime currentHeader

end Ossa.Crdt

namespace Ossa.Ecg.V0

open Ossa.Loop Ossa.Util Ossa.Collections Ossa.Crdt

inductive CausalTime (Time : Type)
  /-- Points to the current ECG node. -/
  | current (operationPosition : Fin 256)
  /-- Points to another ECG node. -/
  | time (time : Time)
  deriving DecidableEq

def CausalTime.currentTime {Time : Type} (operationPosition : Fin 256) : CausalTime Time :=
  .current operationPosition

/-- `OperationId::concretize_time` -/
def concretizeOperationId {HeaderId : Type} :
    CausalTime (OperationId HeaderId) → HeaderId → OperationId HeaderId
  | .current operationPosition, currentHeader => ⟨some currentHeader, operationPosition⟩
  | .time t, _ => t

instance {HeaderId : Type} : ConcretizeTime (OperationId HeaderId) HeaderId where
  Serialized := CausalTime (OperationId HeaderId)
  concretizeTime := concretizeOperationId

structure HeaderId (H : Type) where
  hash : H
  deriving DecidableEq

instance {H : Type} [LinearOrder H] : LinearOrder (HeaderId H) :=
  LinearOrder.lift' HeaderId.hash fun a b h => by cases a; cases b; exact congrArg _ h

structure Header (H : Type) where
  /-- A nonce to randomize the header. -/
  nonce : UInt8
  parentIds : List (HeaderId H)
  /-- The number of operations in the corresponding body. The maximum is 255. -/
  operationsCount : UInt8
  /-- The hash of (batched) operations in the corresponding body. -/
  operationsHash : H
  deriving DecidableEq

/-- Invariant: <= 256 operations. -/
structure Body (SerializedOp : Type) where
  operations : List SerializedOp

/-- `serde_cbor::ser::to_vec` -/
class Serialize (A : Type) where
  toVec : A → List UInt8

export Serialize (toVec)

variable {A H SerializedOp Op : Type} [Hash H]

def tmpHash [Serialize A] (x : A) : H := digest (toVec x)

instance [Serialize (Header H)] : ECGHeader (Header H) (HeaderId H) where
  getParentIds := Header.parentIds
  getHeaderId header := ⟨tmpHash header⟩
  validateHeader _ _ := true

def MAX_OPERATION_COUNT : ℕ := 256

namespace Body

def newBody (operations : List SerializedOp) : Exec (Body SerializedOp) :=
  if operations.length > MAX_OPERATION_COUNT then
    .error (.panic "Exceeded the maximum number of batched operations.")
  else .ok ⟨operations⟩

/-- The operations of the body, with the times they have under a header. -/
def concreteOperations {Id : Type} [ConcretizeTime Op Id] (body : Body (Serialized Op Id))
    (headerId : Id) : List Op :=
  body.operations.map fun op => concretizeTime op headerId

def operationsCount (body : Body SerializedOp) : Exec UInt8 :=
  if body.operations.length < UInt8.size then .ok (UInt8.ofNat body.operations.length)
  else .error (.expect "Unreachable: Length is bound by MAX_OPERATION_COUNT.")

variable [LinearOrder H] [Serialize (Body SerializedOp)]

def newHeader (nonce : UInt8) (body : Body SerializedOp) (parents : BTreeSet (HeaderId H)) :
    Exec (Header H) := do
  -- Sort parent headers.
  let parents := parents.toList
  let operationsCount ← body.operationsCount
  pure ⟨nonce, parents, operationsCount, tmpHash body⟩

omit [LinearOrder H] [Hash H] [Serialize (Body SerializedOp)] in
lemma newBody_eq_ok {operations : List SerializedOp} {body : Body SerializedOp} :
    newBody operations = .ok body ↔ operations.length ≤ 256 ∧ body = ⟨operations⟩ := by
  unfold newBody MAX_OPERATION_COUNT
  split_ifs with h
  · exact iff_of_false nofun fun h' => absurd h'.1 (by omega)
  · exact ⟨fun heq => ⟨by omega, (Except.ok.inj heq).symm⟩, fun h' => h'.2 ▸ rfl⟩

/-- **What a new header records**; there is none for a body of 256 operations. -/
lemma newHeader_eq_ok {nonce : UInt8} {body : Body SerializedOp}
    {parents : BTreeSet (HeaderId H)} {header : Header H} :
    newHeader nonce body parents = .ok header ↔ body.operations.length < 256 ∧
      header = ⟨nonce, parents.toList, UInt8.ofNat body.operations.length, tmpHash body⟩ := by
  unfold newHeader operationsCount
  split_ifs with h
  · exact ⟨fun heq => ⟨h, (Except.ok.inj heq).symm⟩, fun h' => h'.2 ▸ rfl⟩
  · exact iff_of_false nofun fun h' => h h'.1

end Body

end Ossa.Ecg.V0
