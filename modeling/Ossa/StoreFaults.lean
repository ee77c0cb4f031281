import Ossa.StoreHandler

/-!
What the handler of a store can fault with, apart from the statuses of its peers.

Only `update_peer_to_*` and `update_outgoing_peer_to_ready` end in a bare `panic!()`. So if they
find the status that they expect, no command ends in one, unless `CRDT::apply` does.
-/

namespace Ossa.Store

open Ossa.Loop Ossa.Util Ossa.Collections Ossa.Ecg Ossa.Crdt

variable {StoreId H HeaderId Header Body T Op : Type} [LinearOrder HeaderId]

/-- What a bare `panic!()` says. -/
def barePanic : Fault := .panic "explicit panic"

section Faults

variable {E : Fault → Prop} (hE : ∀ e, e ≠ barePanic → E e)

include hE

lemma faultsIn_of_ne {α : Type} {e : Fault} (he : e ≠ barePanic) : FaultsIn E (.error e : Exec α) :=
  faultsIn_error.mpr (hE e he)

lemma faultsIn_index {α : Type} (xs : List α) (i : ℕ) : FaultsIn E (index xs i) :=
  .orFault (hE _ (by decide)) _

lemma faultsIn_assign {α : Type} (xs : List α) (i : ℕ) (a : α) : FaultsIn E (assign xs i a) :=
  .ite (faultsIn_ok _) (faultsIn_of_ne hE (by decide))

/-! ### The merkle tree -/

lemma faultsIn_newWithCapacity {N : Type} (root : N) (n : ℕ) :
    FaultsIn E (MerkleTree.newWithCapacity root n) :=
  .bind (.ite (faultsIn_of_ne hE (by decide)) (faultsIn_ok _)) fun _ =>
    (faultsIn_assign hE _ _ _).bind fun _ => faultsIn_ok _

section Tree

variable [Hash H] [DecidableEq H]

lemma faultsIn_validateChunk (t : MerkleTree H) (i : ℕ) (chunk : List UInt8) :
    FaultsIn E (t.validateChunk i chunk) :=
  .bind (.ite (faultsIn_ok _) (faultsIn_of_ne hE (by decide))) fun _ =>
    (faultsIn_index hE _ _).bind fun _ => faultsIn_ok _

lemma faultsIn_validateChildren (t : MerkleTree (Potential H)) (i fuel : ℕ) :
    FaultsIn E (t.validateChildren i fuel) := by
  induction fuel generalizing t i with
  | zero => exact faultsIn_of_ne hE (by decide)
  | succ fuel ih =>
    refine .ite (faultsIn_ok _) ((faultsIn_index hE _ _).bind fun node => ?_)
    cases node with
    | none => exact faultsIn_ok _
    | unverified value => exact faultsIn_ok _
    | verified value =>
      refine (faultsIn_index hE _ _).bind fun left => (faultsIn_index hE _ _).bind fun right => ?_
      split
      · exact faultsIn_ok _
      · exact faultsIn_ok _
      · exact .ite ((ih _ _).bind fun _ => (ih _ _).bind fun _ => faultsIn_ok _) (faultsIn_ok _)
      · exact faultsIn_of_ne hE (by decide)

lemma faultsIn_setAll (t : MerkleTree (Potential H)) (calls : List (ℕ × H)) :
    FaultsIn E (t.setAll calls) := by
  refine .foldlM (fun t call => FaultsIn.bind ?_ fun _ => faultsIn_ok _) calls t
  unfold MerkleTree.set
  split
  · exact faultsIn_ok _
  · exact faultsIn_ok _
  · exact faultsIn_ok _
  · exact .ite (faultsIn_of_ne hE (by decide))
      ((faultsIn_validateChildren hE _ _ _).bind fun _ => faultsIn_ok _)

end Tree

namespace State

variable {s : State StoreId H HeaderId Header T}

/-! ### Requests -/

lemma faultsIn_sendSyncRequests (rng : Rng) : FaultsIn E (s.sendSyncRequests rng) := by
  refine FaultsIn.bind ?_ fun requests => .foldlM (fun s r => ?_) requests s
  · unfold syncRequests
    split
    · exact faultsIn_ok _
    · exact .ite (faultsIn_of_ne hE (by decide)) (faultsIn_ok _)
    · exact .ite (faultsIn_of_ne hE (by decide)) (faultsIn_ok _)
    · exact faultsIn_ok _
  · unfold sendCommand
    split
    · exact faultsIn_ok _
    · exact faultsIn_of_ne hE (by decide)

lemma faultsIn_handleMerklePeerRequestHelper (merkleTree : MerkleTree H) (nodeIds : List Range) :
    FaultsIn E (handleMerklePeerRequestHelper merkleTree nodeIds) :=
  .mapM (fun _ => .orFault (hE _ (by decide)) _) _

lemma faultsIn_handleBlockPeerRequestHelper (sm : StateMachine StoreId H HeaderId Header T)
    (blockIds : List Range) : FaultsIn E (handleBlockPeerRequestHelper sm blockIds) := by
  cases sm with
  | downloadingMetadata storeId => exact faultsIn_ok _
  | downloadingMerkle metadata tree => exact faultsIn_ok _
  | downloadingInitialState metadata tree blocks =>
    exact (FaultsIn.mapM (fun _ => .orFault (hE _ (by decide)) _) _).bind fun _ => faultsIn_ok _
  | syncing metadata tree initialState ecg latest =>
    exact (FaultsIn.mapM (fun _ => .ite (faultsIn_ok _) (faultsIn_of_ne hE (by decide))) _).bind
      fun _ => faultsIn_ok _

lemma faultsIn_handleMerklePeerRequest (peer : DeviceId) (nodeIds : List Range) (chan : Chan) :
    FaultsIn E (s.handleMerklePeerRequest peer nodeIds chan) := by
  unfold handleMerklePeerRequest
  split
  · exact (faultsIn_handleMerklePeerRequestHelper hE _ _).bind fun _ => faultsIn_ok _
  · exact faultsIn_ok _

lemma faultsIn_handleBlockPeerRequest (peer : DeviceId) (blockIds : List Range) (chan : Chan) :
    FaultsIn E (s.handleBlockPeerRequest peer blockIds chan) := by
  refine (faultsIn_handleBlockPeerRequestHelper hE _ _).bind fun blocks => ?_
  cases blocks with
  | none => exact faultsIn_ok _
  | some blocks => exact faultsIn_ok _

/-! ### From phase to phase -/

lemma faultsIn_notifyMerkleSubscribers (peer : DeviceId) (tree : MerkleTree H) :
    FaultsIn E (s.notifyMerkleSubscribers peer tree) :=
  .bind (.mapM (fun _ => .ite (faultsIn_ok _)
    ((faultsIn_handleMerklePeerRequestHelper hE _ _).bind fun _ => faultsIn_ok _)) _)
    fun _ => faultsIn_ok _

lemma faultsIn_notifyBlockSubscribers : FaultsIn E s.notifyBlockSubscribers :=
  .bind (.mapM (fun _ => (faultsIn_handleBlockPeerRequestHelper hE _ _).bind fun _ =>
    (FaultsIn.orFault (hE _ (by decide)) _).bind fun _ => faultsIn_ok _) _) fun _ => faultsIn_ok _

variable (OT : OssaType StoreId H HeaderId Body T Op)

lemma faultsIn_updateStateToSyncing (peer : DeviceId) (listeners : List Chan) :
    FaultsIn E (s.updateStateToSyncing OT peer listeners) := by
  unfold updateStateToSyncing
  split
  · exact (FaultsIn.orFault (hE _ (by decide)) _).bind fun _ => faultsIn_notifyBlockSubscribers hE
  · exact faultsIn_of_ne hE (by decide)

lemma faultsIn_updateStateToDownloadingInitialState (peer : DeviceId) (listeners : List Chan) :
    FaultsIn E (s.updateStateToDownloadingInitialState OT peer listeners) := by
  unfold updateStateToDownloadingInitialState
  split
  · split
    · exact faultsIn_ok _
    · exact (faultsIn_notifyMerkleSubscribers hE _ _).bind fun _ =>
        .ite (faultsIn_updateStateToSyncing hE OT _ _) (faultsIn_ok _)
  · exact faultsIn_of_ne hE (by decide)

/-! ### Operations -/

section Operations

variable [ECGHeader Header HeaderId] [CRDT T Op (OperationId HeaderId)]
  (hT : ∀ st (t : T) (op : Op), FaultsIn E (CRDT.apply st t op))

include hT

omit hE in
lemma faultsIn_applyOperations (latest : T) (ecg : UntypedState HeaderId Header) (header : Header)
    (body : Body) : FaultsIn E (applyOperations OT latest ecg header body) :=
  .foldlM (hT _) _ _

lemma faultsIn_receiveOperation (w : UntypedState HeaderId Header × T) (o : Header × RawECGBody) :
    FaultsIn E (receiveOperation OT w o) :=
  .bind (.orFault (hE _ (by decide)) _) fun _ =>
    .ite ((faultsIn_applyOperations OT hT _ _ _ _).bind fun _ => faultsIn_ok _) (faultsIn_ok _)

lemma faultsIn_apply (header : Header) (body : Body) (listeners : List Chan) :
    FaultsIn E (s.apply OT header body listeners) := by
  unfold State.apply
  split
  · exact .ite ((faultsIn_applyOperations OT hT _ _ _ _).bind fun _ => faultsIn_ok _)
      (faultsIn_of_ne hE (by decide))
  · exact faultsIn_ok _

lemma faultsIn_handleReceivedECGOperations {peer : DeviceId}
    (hready : FaultsIn E (s.updateOutgoingPeerToReady peer))
    (operations : List (Header × RawECGBody)) (listeners : List Chan) :
    FaultsIn E (s.handleReceivedECGOperations OT peer operations listeners) := by
  refine hready.bind fun s => ?_
  split
  · exact (FaultsIn.foldlM (faultsIn_receiveOperation hE OT hT) _ _).bind fun _ => faultsIn_ok _
  · exact faultsIn_of_ne hE (by decide)

end Operations

/-! ### The download -/

section Received

variable [Hash H] [DecidableEq H] [DecidableEq StoreId] {peer : DeviceId}
  (hready : FaultsIn E (s.updateOutgoingPeerToReady peer))

include hready

omit [DecidableEq H] in
lemma faultsIn_handleReceivedMetadata (metadata : MetadataHeader H) (listeners : List Chan) :
    FaultsIn E (s.handleReceivedMetadata OT peer metadata listeners) :=
  hready.bind fun _ => .ite (faultsIn_ok _) <| (faultsIn_newWithCapacity hE _ _).bind fun _ =>
    .ite (faultsIn_updateStateToDownloadingInitialState hE OT _ _) (faultsIn_ok _)

omit [DecidableEq StoreId] in
lemma faultsIn_handleReceivedMerkleHashes (nodeIds : List Range) (nodes : List H)
    (listeners : List Chan) :
    FaultsIn E (s.handleReceivedMerkleHashes OT peer nodeIds nodes listeners) := by
  refine hready.bind fun s => .ite (faultsIn_ok _) ?_
  split
  · exact (faultsIn_setAll hE _ _).bind fun _ =>
      faultsIn_updateStateToDownloadingInitialState hE OT _ _
  · exact faultsIn_ok _

omit [DecidableEq StoreId] in
lemma faultsIn_handleReceivedInitialStateBlocks (blockIds : List Range)
    (theirBlocks : List (Option (List UInt8))) (listeners : List Chan) :
    FaultsIn E (s.handleReceivedInitialStateBlocks OT peer blockIds theirBlocks listeners) := by
  refine hready.bind fun s => .ite (faultsIn_ok _) ?_
  split
  · refine (FaultsIn.foldlM (fun blocks b => ?_) _ _).bind fun _ =>
      .ite (faultsIn_ok _) (faultsIn_updateStateToSyncing hE OT _ _)
    unfold setBlock
    split
    · exact faultsIn_ok _
    · exact (faultsIn_index hE _ _).bind fun _ => .ite ((faultsIn_validateChunk hE _ _ _).bind
        fun _ => .ite (faultsIn_assign hE _ _ _) (faultsIn_ok _)) (faultsIn_ok _)
  · exact faultsIn_ok _

end Received

end State

end Faults

end Ossa.Store
