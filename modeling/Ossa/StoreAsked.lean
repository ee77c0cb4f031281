import Ossa.MerkleRounds
import Ossa.StoreForward

/-!
Which index an answer is about.

A store asks a peer for indices by the ranges they compress to, and the task of the peer hands
an answer back with the ranges it was sent. The ranges flatten back to the indices, so the
answer is read at the indices that were asked for, one after the other.
-/

namespace Ossa.Store

open Ossa.Loop Ossa.Util Ossa.Util.MerkleTree Ossa.Collections Ossa.Ecg Ossa.Crdt

variable {StoreId H HeaderId Header Body T Op : Type} [LinearOrder HeaderId]

/-- A request of the phase, with the indices it is for. -/
inductive StateMachine.Asks (sm : StateMachine StoreId H HeaderId Header T) :
    StoreSyncCommand HeaderId Header → List ℕ → Prop
  | merkle {metadata tree asked} : sm = .downloadingMerkle metadata tree →
    asked ∈ chunks MERKLE_REQUEST_LIMIT tree.missingIndices →
    Asks sm (.merkleRequest (compressConsecutiveIntoRanges asked)) asked
  | blocks {metadata tree initialState asked} :
    sm = .downloadingInitialState metadata tree initialState →
    asked ∈ chunks BLOCK_REQUEST_LIMIT (State.missingBlocks initialState) →
    Asks sm (.initialStateBlockRequest (compressConsecutiveIntoRanges asked)) asked

/-- The request is for indices. -/
def StoreSyncCommand.isRanged : StoreSyncCommand HeaderId Header → Bool
  | .merkleRequest _ => true
  | .initialStateBlockRequest _ => true
  | _ => false

def StoreSyncCommand.ranges : StoreSyncCommand HeaderId Header → List Range
  | .merkleRequest ranges => ranges
  | .initialStateBlockRequest ranges => ranges
  | _ => []

section Asks

variable {s : State StoreId H HeaderId Header T} {sm : StateMachine StoreId H HeaderId Header T}
variable {r : StoreSyncCommand HeaderId Header} {asked : List ℕ}

lemma pairwise_positions {α : Type} (p : α → Bool) (l : List α) :
    (l.zipIdx.filterMap fun h => if p h.1 then some h.2 else none).Pairwise (· < ·) := by
  have hsnd : (l.zipIdx.map Prod.snd).Pairwise (· < ·) := by
    rw [List.zipIdx_map_snd]
    exact List.pairwise_lt_range'
  refine List.Pairwise.filterMap _ (fun a a' hlt b hb b' hb' => ?_) (List.pairwise_map.mp hsnd)
  split_ifs at hb hb'
  cases hb
  cases hb'
  exact hlt

lemma pairwise_of_mem_chunks {n : ℕ} {l piece : List ℕ} (hl : l.Pairwise (· < ·))
    (h : piece ∈ chunks n l) : piece.Pairwise (· < ·) := by
  obtain ⟨i, -, rfl⟩ := List.mem_map.mp h
  exact hl.sublist ((List.take_sublist _ _).trans (List.drop_sublist _ _))

lemma StateMachine.Asks.pairwise (h : sm.Asks r asked) : asked.Pairwise (· < ·) := by
  cases h with
  | merkle _ hmem => exact pairwise_of_mem_chunks (pairwise_positions _ _) hmem
  | blocks _ hmem => exact pairwise_of_mem_chunks (pairwise_positions _ _) hmem

lemma StateMachine.Asks.ranges (h : sm.Asks r asked) :
    r.ranges = compressConsecutiveIntoRanges asked := by
  cases h <;> rfl

lemma StateMachine.Asks.flatten (h : sm.Asks r asked) : flattenRanges r.ranges = asked := by
  rw [h.ranges, flatten_compress]

/-- **Every request for indices that is sent asks for some.** -/
lemma exists_asks_of_syncRequests {rng : Rng}
    {reqs : List (DeviceId × StoreSyncCommand HeaderId Header)} (h : s.syncRequests rng = .ok reqs)
    {p : DeviceId} (hr : (p, r) ∈ reqs) (hranged : r.isRanged = true) :
    ∃ asked, s.stateMachine.Asks r asked := by
  unfold State.syncRequests at h
  cases hs : s.stateMachine with
  | downloadingMetadata _ =>
    simp only [hs] at h
    cases h
    obtain ⟨q, -, heq⟩ := List.mem_map.mp hr
    cases heq
    cases hranged
  | downloadingMerkle metadata tree =>
    simp only [hs] at h
    split_ifs at h
    cases h
    obtain ⟨asked, hasked, rfl⟩ := List.mem_map.mp (List.of_mem_zip hr).2
    exact ⟨asked, .merkle rfl ((rng.perm_chunks _).mem_iff.mp hasked)⟩
  | downloadingInitialState metadata tree blocks =>
    simp only [hs] at h
    split_ifs at h
    cases h
    obtain ⟨asked, hasked, rfl⟩ := List.mem_map.mp (List.of_mem_zip hr).2
    exact ⟨asked, .blocks rfl ((rng.perm_chunks _).mem_iff.mp hasked)⟩
  | syncing _ _ _ _ _ =>
    simp only [hs] at h
    cases h
    obtain ⟨q, -, heq⟩ := List.mem_map.mp hr
    cases heq
    cases hranged

end Asks

/-! ### What an answer changes -/

section Changes

variable [Hash H] [DecidableEq H]
variable {tree : MerkleTree H} {blocks blocks' : List (Option (List UInt8))} {asked : List ℕ}
variable {theirBlocks : List (Option (List UInt8))} {t t' : MerkleTree (Potential H)} {i k : ℕ}

/-- A block of an answer that is checked at the index `i`: it is taken if there was none and its
hash is that of the leaf `i`. -/
def checkedBlock (tree : MerkleTree H) (i : ℕ) (their old : Option (List UInt8)) :
    Option (List UInt8) :=
  match old, their with
  | none, some block =>
    match tree.validateChunk i block with
    | .ok true => some block
    | _ => none
  | _, _ => old

/-- The `k`-th block is checked at the `k`-th index, and nothing else changes. -/
structure ChecksBlocks (tree : MerkleTree H) (asked : List ℕ)
    (theirBlocks blocks blocks' : List (Option (List UInt8))) : Prop where
  length : blocks'.length = blocks.length
  checked (k i : ℕ) (their : Option (List UInt8)) : asked[k]? = some i →
    theirBlocks[k]? = some their → blocks'[i]? = blocks[i]?.map (checkedBlock tree i their)
  same (i : ℕ) : i ∉ asked → blocks'[i]? = blocks[i]?

lemma setBlock_spec {their : Option (List UInt8)}
    (h : State.setBlock tree blocks (i, their) = .ok blocks') :
    blocks'.length = blocks.length ∧ blocks'[i]? = blocks[i]?.map (checkedBlock tree i their) ∧
      ∀ j, j ≠ i → blocks'[j]? = blocks[j]? := by
  unfold State.setBlock at h
  cases their with
  | none =>
    cases h
    refine ⟨rfl, ?_, fun _ _ => rfl⟩
    have hid : checkedBlock tree i none = id := by funext old; cases old <;> rfl
    rw [hid, Option.map_id_fun, id]
  | some block =>
    obtain ⟨old, hold, h⟩ := bind_eq_ok.mp h
    have hget := index_eq_ok.mp hold
    cases old with
    | some _ =>
      cases h
      exact ⟨rfl, by rw [hget]; rfl, fun _ _ => rfl⟩
    | none =>
      obtain ⟨valid, hv, h⟩ := bind_eq_ok.mp h
      have hlt := (List.getElem?_eq_some_iff.mp hget).1
      have hcheck : checkedBlock tree i (some block) none = if valid then some block else none := by
        simp only [checkedBlock, hv]
        cases valid <;> rfl
      cases valid with
      | false =>
        cases h
        exact ⟨rfl, by rw [hget, Option.map_some, hcheck]; rfl, fun _ _ => rfl⟩
      | true =>
        rw [if_pos rfl, assign_of_lt hlt] at h
        cases h
        exact ⟨List.length_set, by rw [hget, Option.map_some, hcheck, List.getElem?_set_self hlt]; rfl,
          fun j hj => List.getElem?_set_ne hj.symm⟩

/-- The blocks of an answer are checked one after the other, at different indices. -/
theorem checksBlocks_foldlM (hn : asked.Nodup) (hlen : theirBlocks.length = asked.length)
    (h : (asked.zip theirBlocks).foldlM (State.setBlock tree) blocks = .ok blocks') :
    ChecksBlocks tree asked theirBlocks blocks blocks' := by
  induction asked generalizing theirBlocks blocks with
  | nil =>
    cases h
    exact ⟨rfl, fun k i their hk => by simp at hk, fun _ _ => rfl⟩
  | cons i asked ih =>
    cases theirBlocks with
    | nil => cases hlen
    | cons their theirBlocks =>
      obtain ⟨hnot, hn⟩ := List.nodup_cons.mp hn
      rw [List.zip_cons_cons, List.foldlM_cons] at h
      obtain ⟨blocks₁, h₁, h⟩ := bind_eq_ok.mp h
      obtain ⟨hlen₁, hself, hother⟩ := setBlock_spec h₁
      obtain ⟨hlen₂, hchecked, hsame⟩ := ih hn (Nat.succ.inj hlen) h
      refine ⟨hlen₂.trans hlen₁, fun k j their' hk ht => ?_, fun j hj => ?_⟩
      · cases k with
        | zero =>
          cases hk
          cases ht
          rw [hsame i hnot, hself]
        | succ k =>
          have hne : j ≠ i := fun heq => hnot (heq ▸ List.mem_of_getElem? hk)
          rw [hchecked k j their' hk ht, hother j hne]
      · obtain ⟨hne, hmem⟩ := not_or.mp (List.mem_cons.not.mp hj)
        rw [hsame j hmem, hother j hne]

/-- The hash at a node, verified or not. -/
def valueAt (t : MerkleTree (Potential H)) (i : ℕ) : Option H :=
  match t.nodes[i]? with
  | some (.unverified h) => some h
  | some (.verified h) => some h
  | _ => none

/-- New hashes come from the answer, the `k`-th one at the `k`-th index. -/
def ChecksHashes (asked : List ℕ) (nodes : List H) (t t' : MerkleTree (Potential H)) : Prop :=
  ∀ i h, valueAt t' i = some h → valueAt t i = some h ∨
    ∃ k : ℕ, asked[k]? = some i ∧ nodes[k]? = some h

omit [Hash H] [DecidableEq H] in
lemma valueAt_setChildren {l r : Potential H} {a b h : H}
    (hl : t.nodes[2 * i + 1]? = some (.unverified a)) (hr : t.nodes[2 * i + 2]? = some (.unverified b))
    (hlr : l = .verified a ∧ r = .verified b ∨ l = .none ∧ r = .none)
    (hv : valueAt (t.setChildren i l r) k = some h) : valueAt t k = some h := by
  have hlt₁ := (List.getElem?_eq_some_iff.mp hl).1
  have hlt₂ := (List.getElem?_eq_some_iff.mp hr).1
  unfold valueAt at hv ⊢
  by_cases hk₁ : k = 2 * i + 1
  · subst hk₁
    rw [getElem?_setChildren_left hlt₁] at hv
    rw [hl]
    rcases hlr with ⟨rfl, -⟩ | ⟨rfl, -⟩
    · exact hv
    · cases hv
  · by_cases hk₂ : k = 2 * i + 2
    · subst hk₂
      rw [getElem?_setChildren_right hlt₂] at hv
      rw [hr]
      rcases hlr with ⟨-, rfl⟩ | ⟨-, rfl⟩
      · exact hv
      · cases hv
    · rwa [getElem?_setChildren_ne hk₁ hk₂] at hv

/-- The check of a node brings no new hash: by induction on the fuel. -/
lemma valueAt_validateChildren {v : Option Bool} {fuel : ℕ} {h : H}
    (hr : t.validateChildren i fuel = .ok (t', v)) (hv : valueAt t' k = some h) :
    valueAt t k = some h := by
  induction fuel generalizing t t' i v with
  | zero => cases hr
  | succ fuel ih =>
    rw [validateChildren] at hr
    split_ifs at hr with hleaf
    · cases hr; exact hv
    obtain ⟨p, hp, hr⟩ := bind_eq_ok.mp hr
    cases p with
    | none => cases hr; exact hv
    | unverified _ => cases hr; exact hv
    | verified root =>
      obtain ⟨l, hl, hr⟩ := bind_eq_ok.mp hr
      obtain ⟨r, hr', hr⟩ := bind_eq_ok.mp hr
      cases l with
      | none => cases hr; exact hv
      | verified a => cases r <;> cases hr; exact hv
      | unverified a =>
        cases r with
        | none => cases hr; exact hv
        | verified b => cases hr
        | unverified b =>
          have hl' := index_eq_ok.mp hl
          have hr'' := index_eq_ok.mp hr'
          dsimp only at hr
          split_ifs at hr with hvalid
          · obtain ⟨⟨t₁, v₁⟩, h₁, hr⟩ := bind_eq_ok.mp hr
            obtain ⟨⟨t₂, v₂⟩, h₂, hr⟩ := bind_eq_ok.mp hr
            cases hr
            exact valueAt_setChildren hl' hr'' (Or.inl ⟨rfl, rfl⟩) (ih h₁ (ih h₂ hv))
          · cases hr
            exact valueAt_setChildren hl' hr'' (Or.inr ⟨rfl, rfl⟩) hv

lemma valueAt_set {valid : Bool} {h h' : H} (hr : t.set i h' = .ok (t', valid))
    (hv : valueAt t' k = some h) : valueAt t k = some h ∨ k = i ∧ h' = h := by
  by_cases hi : t.nodes[i]? = some .none
  · obtain ⟨-, v, hcheck⟩ := set_missing hi hr
    have hset := valueAt_validateChildren hcheck hv
    have hlt := (List.getElem?_eq_some_iff.mp hi).1
    unfold valueAt at hset ⊢
    by_cases hk : k = i
    · subst hk
      rw [List.getElem?_set_self hlt] at hset
      exact Or.inr ⟨rfl, Option.some.inj hset⟩
    · rw [List.getElem?_set_ne (Ne.symm hk)] at hset
      exact Or.inl hset
  · rw [set_present hi hr] at hv
    exact Or.inl hv

/-- The hashes of an answer are set one after the other. -/
theorem checksHashes_setAll {nodes : List H} (h : t.setAll (asked.zip nodes) = .ok t') :
    ChecksHashes asked nodes t t' := by
  refine foldlM_invariant (I := ChecksHashes asked nodes t) h (fun _ _ hv => Or.inl hv)
    fun t₁ t₂ a ha hI hstep i h hv => ?_
  obtain ⟨⟨t₃, valid⟩, hset, heq⟩ := bind_eq_ok.mp hstep
  cases heq
  rcases valueAt_set hset hv with hv | ⟨rfl, rfl⟩
  · exact hI i h hv
  · obtain ⟨k, hk⟩ := List.mem_iff_getElem?.mp ha
    obtain ⟨h₁, h₂⟩ := List.getElem?_zip_eq_some.mp hk
    exact Or.inr ⟨k, h₁, h₂⟩

end Changes

/-! ### Reading an answer -/

variable [Hash H] [DecidableEq H] [DecidableEq StoreId]
variable [ECGHeader Header HeaderId] [CRDT T Op (OperationId HeaderId)]
variable {OT : OssaType StoreId H HeaderId Body T Op} {asked : List ℕ} {peer : DeviceId}
variable {ranges : List Range}

/-- An answer with hashes of matching length is read at the indices `asked`, the `k`-th hash at
the `k`-th index; any other answer only makes the peer ready. -/
def HashesAt (Header : Type) (OT : OssaType StoreId H HeaderId Body T Op) (peer : DeviceId)
    (ranges : List Range) (nodes : List H) (asked : List ℕ) : Prop :=
  ∀ (s s₁ : State StoreId H HeaderId Header T) listeners metadata tree,
    s.updateOutgoingPeerToReady peer = .ok s₁ →
    s₁.stateMachine = .downloadingMerkle metadata tree →
    s.handleReceivedMerkleHashes OT peer ranges nodes listeners =
      (if nodes.length = asked.length then do
        let tree ← tree.setAll (asked.zip nodes)
        (s₁.withPhase (.downloadingMerkle metadata tree)).updateStateToDownloadingInitialState
          OT peer listeners
      else .ok s₁) ∧
    ∀ tree', tree.setAll (asked.zip nodes) = .ok tree' → ChecksHashes asked nodes tree tree'

/-- The same for an answer with blocks: the `k`-th block is checked at the `k`-th index. -/
def BlocksAt (Header : Type) (OT : OssaType StoreId H HeaderId Body T Op) (peer : DeviceId)
    (ranges : List Range) (theirBlocks : List (Option (List UInt8))) (asked : List ℕ) : Prop :=
  ∀ (s s₁ : State StoreId H HeaderId Header T) listeners metadata merkleTree blocks,
    s.updateOutgoingPeerToReady peer = .ok s₁ →
    s₁.stateMachine = .downloadingInitialState metadata merkleTree blocks →
    s.handleReceivedInitialStateBlocks OT peer ranges theirBlocks listeners =
      (if theirBlocks.length = asked.length then do
        let blocks ← (asked.zip theirBlocks).foldlM (State.setBlock merkleTree) blocks
        let s := s₁.withPhase (.downloadingInitialState metadata merkleTree blocks)
        if blocks.any Option.isNone then pure s else s.updateStateToSyncing OT peer listeners
      else .ok s₁) ∧
    ∀ blocks', theirBlocks.length = asked.length →
      (asked.zip theirBlocks).foldlM (State.setBlock merkleTree) blocks = .ok blocks' →
        ChecksBlocks merkleTree asked theirBlocks blocks blocks'

omit [DecidableEq StoreId] [ECGHeader Header HeaderId] [CRDT T Op (OperationId HeaderId)] in
lemma hashesAt (h : flattenRanges ranges = asked) (nodes : List H) :
    HashesAt Header OT peer ranges nodes asked := by
  subst h
  intro s s₁ listeners metadata tree hready hs
  refine ⟨?_, fun tree' => checksHashes_setAll⟩
  unfold State.handleReceivedMerkleHashes
  simp only [hready, ok_bind, hs]
  by_cases hlen : nodes.length = (flattenRanges ranges).length
  · rw [if_neg (not_not.mpr hlen.symm), if_pos hlen]
    rfl
  · rw [if_pos (Ne.symm hlen), if_neg hlen]
    rfl

omit [DecidableEq StoreId] [ECGHeader Header HeaderId] [CRDT T Op (OperationId HeaderId)] in
lemma blocksAt (h : flattenRanges ranges = asked) (hn : asked.Nodup)
    (theirBlocks : List (Option (List UInt8))) :
    BlocksAt Header OT peer ranges theirBlocks asked := by
  subst h
  intro s s₁ listeners metadata merkleTree blocks hready hs
  refine ⟨?_, fun blocks' hlen => checksBlocks_foldlM hn hlen⟩
  unfold State.handleReceivedInitialStateBlocks
  simp only [hready, ok_bind, hs]
  by_cases hlen : theirBlocks.length = (flattenRanges ranges).length
  · rw [if_neg (not_not.mpr hlen.symm), if_pos hlen]
    rfl
  · rw [if_pos (Ne.symm hlen), if_neg hlen]
    rfl

/-! ### Runs -/

namespace System

variable {sys sys' : System StoreId H HeaderId Header Body T} {ev : Event H HeaderId Header Body}
variable {handler : Handler StoreId H HeaderId Header T} {p : DeviceId}
variable {r : StoreSyncCommand HeaderId Header} {cmd : Command H HeaderId Header Body}

/-- The request was sent to the peer earlier in the run, by a phase that needed the indices. -/
def WasAsked (OT : OssaType StoreId H HeaderId Body T Op)
    (handler : Handler StoreId H HeaderId Header T)
    (sys : System StoreId H HeaderId Header Body T) (p : DeviceId)
    (r : StoreSyncCommand HeaderId Header) (asked : List ℕ) : Prop :=
  ∃ sys₁ : System StoreId H HeaderId Header Body T,
    Run OT (fun _ _ => True) (start handler) sys₁ ∧ Run OT (fun _ _ => True) sys₁ sys ∧
      .command p r ∈ sys₁.handler.store.sent ∧ sys₁.phase.Asks r asked

/-- Every request for indices that a task has was asked, and every answer is to a request. -/
def Aligned (OT : OssaType StoreId H HeaderId Body T Op)
    (handler : Handler StoreId H HeaderId Header T)
    (sys : System StoreId H HeaderId Header Body T) : Prop :=
  sys.InFlightWith (fun p r => r.isRanged = true → ∃ asked, WasAsked OT handler sys p r asked)
    fun p cmd => ∃ r : StoreSyncCommand HeaderId Header, r.answers p cmd = true ∧
      (r.isRanged = true → ∃ asked, WasAsked OT handler sys p r asked)

lemma WasAsked.step (h : WasAsked OT handler sys p r asked) (hen : sys.enabled ev = true)
    (hnext : sys.next OT ev = .ok sys') : WasAsked OT handler sys' p r asked := by
  obtain ⟨sys₁, hstart, hrun, hsent, hasks⟩ := h
  exact ⟨sys₁, hstart, .step ev hrun hen trivial hnext, hsent, hasks⟩

lemma Aligned.step (h : Aligned OT handler sys) (hrun : Run OT (fun _ _ => True) (start handler) sys)
    (hen : sys.enabled ev = true) (hnext : sys.next OT ev = .ok sys') :
    Aligned OT handler sys' := by
  have hlater : ∀ {p r}, (∃ asked, WasAsked OT handler sys p r asked) →
      ∃ asked, WasAsked OT handler sys' p r asked := fun ⟨asked, hasked⟩ =>
    ⟨asked, hasked.step hen hnext⟩
  have hmono := h.mono (fun p r hr hranged => hlater (hr hranged)) fun p cmd hcmd => by
    obtain ⟨r, hans, hr⟩ := hcmd
    exact (⟨r, hans, fun hranged => hlater (hr hranged)⟩ :
      ∃ r : StoreSyncCommand HeaderId Header, r.answers p cmd = true ∧
        (r.isRanged = true → ∃ asked, WasAsked OT handler sys' p r asked))
  refine hmono.step hen (fun p r cmd hr hans => ⟨r, hans, hr⟩) ?_ hnext
  intro rng s₂ reqs hsm hsync p r hreq hsent hranged
  obtain ⟨asked, hasks⟩ := exists_asks_of_syncRequests hsync hreq hranged
  rw [hsm] at hasks
  exact ⟨asked, sys', .step ev hrun hen trivial hnext, .refl, hsent, hasks⟩

lemma aligned_run (hrun : Run OT (fun _ _ => True) (start handler) sys) :
    Aligned OT handler sys := by
  induction hrun with
  | refl => exact inFlightWith_start handler
  | step ev hrun hen _ hnext ih => exact ih.step hrun hen hnext

omit [DecidableEq H] [DecidableEq StoreId] [Hash H] [ECGHeader Header HeaderId]
  [CRDT T Op (OperationId HeaderId)] in
lemma exists_receive {env : Environment} (hen : sys.enabled ev = true)
    (ho : sys.offered ev = some (env, cmd)) (hext : cmd.isExternal = false)
    (hreg : ∀ p, cmd ≠ .registerOutgoingPeerSyncing p ∧ cmd ≠ .registerIncomingPeerSyncing p) :
    ∃ p, ev = .receive env p := by
  cases ev with
  | external _ _ =>
    cases ho
    rw [System.enabled, hext] at hen
    cases hen
  | registerOutgoing _ p => cases ho; exact absurd rfl (hreg p).1
  | registerIncoming _ p => cases ho; exact absurd rfl (hreg p).2
  | receive env' p =>
    obtain ⟨_, _, heq⟩ := Option.map_eq_some_iff.mp ho
    cases heq
    exact ⟨p, rfl⟩
  | take _ => cases ho
  | answer _ _ => cases ho
  | stop _ => cases ho

/-- **Ranges lose nothing, and answers are checked at what was asked.** The ranges of a list of
indices flatten back to it and are as few as possible; and in every run, an answer with hashes
or blocks that the store handles is to a request that it sent to that peer for some indices, and
the `k`-th item is checked at the `k`-th of these indices. -/
theorem ranges_aligned (hrun : Run OT (fun _ _ => True) (start handler) sys) :
    (∀ xs, Compresses xs (compressConsecutiveIntoRanges xs)) ∧
    (∀ ev env peer ranges nodes, sys.enabled ev = true →
      sys.offered ev = some (env, .receivedMerkleHashes peer ranges nodes) →
        ∃ asked, WasAsked OT handler sys peer (.merkleRequest ranges) asked ∧
          asked.Pairwise (· < ·) ∧ HashesAt Header OT peer ranges nodes asked) ∧
    ∀ ev env peer ranges theirBlocks, sys.enabled ev = true →
      sys.offered ev = some (env, .receivedInitialStateBlocks peer ranges theirBlocks) →
        ∃ asked, WasAsked OT handler sys peer (.initialStateBlockRequest ranges) asked ∧
          asked.Pairwise (· < ·) ∧ BlocksAt Header OT peer ranges theirBlocks asked := by
  have haligned := aligned_run hrun
  refine ⟨compresses, fun ev env peer ranges nodes hen ho => ?_,
    fun ev env peer ranges theirBlocks hen ho => ?_⟩
  · obtain ⟨p, rfl⟩ := exists_receive hen ho rfl fun _ => by simp
    obtain ⟨r, hans, hr⟩ := haligned.offered ho
    cases r with
    | merkleRequest ranges' =>
      obtain ⟨rfl, rfl⟩ := of_decide_eq_true hans
      obtain ⟨asked, hasked⟩ := hr rfl
      obtain ⟨_, -, -, -, hasks⟩ := id hasked
      exact ⟨asked, hasked, hasks.pairwise, hashesAt hasks.flatten nodes⟩
    | _ => cases hans
  · obtain ⟨p, rfl⟩ := exists_receive hen ho rfl fun _ => by simp
    obtain ⟨r, hans, hr⟩ := haligned.offered ho
    cases r with
    | initialStateBlockRequest ranges' =>
      obtain ⟨rfl, rfl⟩ := of_decide_eq_true hans
      obtain ⟨asked, hasked⟩ := hr rfl
      obtain ⟨_, -, -, -, hasks⟩ := id hasked
      exact ⟨asked, hasked, hasks.pairwise, blocksAt hasks.flatten hasks.pairwise.nodup theirBlocks⟩
    | _ => cases hans

/-! Peer 1 is asked for the two leaves of a merkle tree, and then for the two blocks. -/

section Pair

open V0

/-- What the creator of a store with the blocks `[7]` and `[8]` hashed. -/
def pairTable : List (List UInt8) := [[7], [8], [0, 1]]

local instance instHashPair : Hash UInt8 := tableHash pairTable

def pairMetadata : MetadataHeader UInt8 := ⟨zeros, .v0, zeros, 16385, 2⟩

def pairDownload : Handler UInt8 UInt8 ℕ TestHeader Counter :=
  ⟨.newDownloading (pairMetadata.storeId counterType.into), []⟩

/-- The hashes are in the queue of the store. -/
def hashesAnswered : List (Event UInt8 ℕ TestHeader (List ℕ)) :=
  [.external calm (.registerPeers [1]), .registerOutgoing calm 1, .take 1,
    .answer 1 (.receivedMetadata 1 pairMetadata), .receive calm 1, .take 1,
    .answer 1 (.receivedMerkleHashes 1 [⟨1, 3⟩] [0, 1])]

/-- The blocks are. -/
def blocksAnswered : List (Event UInt8 ℕ TestHeader (List ℕ)) :=
  hashesAnswered ++ [.receive calm 1, .take 1,
    .answer 1 (.receivedInitialStateBlocks 1 [⟨0, 2⟩] [some [7], some [8]])]

lemma hashesAnswered_isOk :
    (exec counterType (start pairDownload) hashesAnswered).isOk = true := by
  decide +kernel

lemma blocksAnswered_isOk :
    (exec counterType (start pairDownload) blocksAnswered).isOk = true := by
  decide +kernel

theorem ranges_aligned_pair :
    (∃ asked, WasAsked counterType pairDownload (value _ hashesAnswered_isOk) 1
      (.merkleRequest [⟨1, 3⟩]) asked ∧ HashesAt TestHeader counterType 1 [⟨1, 3⟩] [0, 1] asked) ∧
    ∃ asked, WasAsked counterType pairDownload (value _ blocksAnswered_isOk) 1
      (.initialStateBlockRequest [⟨0, 2⟩]) asked ∧
        BlocksAt TestHeader counterType 1 [⟨0, 2⟩] [some [7], some [8]] asked := by
  have hhashes := run_of_exec (fun _ _ _ => trivial) (eq_ok_value hashesAnswered_isOk)
  have hblocks := run_of_exec (fun _ _ _ => trivial) (eq_ok_value blocksAnswered_isOk)
  obtain ⟨asked, hasked, -, hat⟩ := (ranges_aligned hhashes).2.1 (.receive calm 1) calm 1 [⟨1, 3⟩]
    [0, 1] (by decide +kernel) (by rfl)
  obtain ⟨asked', hasked', -, hat'⟩ := (ranges_aligned hblocks).2.2 (.receive calm 1) calm 1
    [⟨0, 2⟩] [some [7], some [8]] (by decide +kernel) (by rfl)
  exact ⟨⟨asked, hasked, hat⟩, asked', hasked', hat'⟩

end Pair

end System

end Ossa.Store
