import Ossa.ConnectionStores

/-!
What holds of a connection whatever happens: the conversation of the managers, the stage of each
store in each direction, the streams of both sides, and the stores that are still to be found.

A side with its manager with initiative comes first, and the side whose manager answers second;
so everything is said of one direction and holds of both.
-/

namespace Ossa.Connection

open Ossa.Loop Ossa.Util Ossa.Collections Ossa.Ecg Ossa.Crdt Ossa.Network Ossa.Store Ossa.Manager

@[simp] lemma dual_dual (me : Party) : me.dual.dual = me := by cases me <;> rfl

lemma dual_ne (me : Party) : me.dual ≠ me := by cases me <;> decide

lemma eq_or_eq_dual (i me : Party) : i = me ∨ i = me.dual := by
  cases i <;> cases me <;> decide

@[simp] lemma owner_control (me : Party) : owner (control me) = me := by cases me <;> decide

lemma control_dual_ne (me : Party) : control me.dual ≠ control me := by cases me <;> decide

lemma isValidStreamId_iff (me : Party) (peerId : DeviceId) (streamId : StreamId) :
    (⟨me, peerId⟩ : Manager).isValidStreamId false streamId = true ↔ owner streamId = me := by
  rcases Nat.mod_two_eq_zero_or_one streamId.val with h | h
  all_goals cases me <;> simp [isValidStreamId, owner, Party.dual, Party.isClient, h]

lemma nextStreamId_ok {latest streamId : StreamId} (h : nextStreamId latest = .ok streamId) :
    streamId.val = latest.val + 2 ∧ owner streamId = owner latest := by
  unfold nextStreamId at h
  split_ifs at h
  cases h
  exact ⟨rfl, by simp [owner]⟩

variable {StoreId H HeaderId Header Body T Op D : Type} [LinearOrder StoreId]
variable [LinearOrder HeaderId]

/-! ### The stage of a store in one direction -/

/-- How often a store is in a list. -/
def tally (a : StoreId) (l : List (Store StoreId)) : ℕ := l.countP fun e => decide (e.1 = a)

@[simp] lemma tally_nil (a : StoreId) : tally a [] = 0 := rfl

lemma tally_cons (a : StoreId) (e : Store StoreId) (l : List (Store StoreId)) :
    tally a (e :: l) = tally a l + if e.1 = a then 1 else 0 := by
  simp [tally, List.countP_cons]

lemma tally_append (a : StoreId) (l l' : List (Store StoreId)) :
    tally a (l ++ l') = tally a l + tally a l' := List.countP_append

lemma tally_erase {e : Store StoreId} {l : List (Store StoreId)} (h : e ∈ l) (a : StoreId) :
    tally a l = tally a (l.erase e) + if e.1 = a then 1 else 0 := by
  rw [← tally_cons]
  exact (List.perm_cons_erase h).countP_eq _

lemma tally_concat (store : Store StoreId) (l : List (Store StoreId)) :
    tally store.1 (l ++ [store]) = tally store.1 l + 1 := by
  rw [tally_append, tally_cons, if_pos rfl, tally_nil]

lemma tally_concat_ne {store : Store StoreId} (l : List (Store StoreId)) (h : a ≠ store.1) :
    tally a (l ++ [store]) = tally a l := by
  rw [tally_append, tally_cons, if_neg (Ne.symm h), tally_nil]
  rfl

lemma tally_erase_self {store : Store StoreId} {l : List (Store StoreId)} (h : store ∈ l) :
    tally store.1 l = tally store.1 (l.erase store) + 1 := by
  rw [tally_erase h, if_pos rfl]

lemma tally_erase_ne {store : Store StoreId} {l : List (Store StoreId)} (hmem : store ∈ l)
    (h : a ≠ store.1) : tally a (l.erase store) = tally a l := by
  rw [tally_erase hmem a, if_neg (Ne.symm h), Nat.add_zero]

/-- A task that was spawned has registered, or is about to. -/
def Spawned (rank tasks : ℕ) : Prop := rank + tasks = 2 ∧ tasks ≤ 1

/-- How far a store has come with a stream in one direction, by the ranks of the store on both
sides, the requests in the channel of the manager, the tasks on both sides that have not
registered, and whether the manager waits (1) or was answered (2). -/
inductive Stage : (out inc queued outgoing incoming progress : ℕ) → Prop
  | apart : Stage 0 0 0 0 0 0
  | queued : Stage 1 0 1 0 0 0
  | waiting : Stage 1 0 0 0 0 1
  | answered {inc incoming : ℕ} (h : Spawned inc incoming) : Stage 1 inc 0 0 incoming 2
  | running {out inc outgoing incoming : ℕ} (h : Spawned out outgoing)
    (h' : Spawned inc incoming) : Stage out inc 0 outgoing incoming 0

namespace Stage

variable {out inc queued outgoing incoming progress : ℕ}

lemma start (h : Stage 0 inc queued outgoing incoming progress) :
    Stage 1 inc (queued + 1) outgoing incoming progress := by
  cases h with
  | apart => exact .queued
  | running h _ => exact absurd h (by simp only [Spawned]; omega)

lemma request (h : Stage out inc (queued + 1) outgoing incoming progress) :
    progress = 0 ∧ Stage out inc queued outgoing incoming 1 := by
  cases h with
  | queued => exact ⟨rfl, .waiting⟩

lemma agree (h : Stage out inc queued outgoing incoming 1) :
    inc = 0 ∧ Stage out 1 queued outgoing (incoming + 1) 2 := by
  cases h with
  | waiting => exact ⟨rfl, .answered ⟨rfl, le_rfl⟩⟩

lemma conclude (h : Stage out inc queued outgoing incoming 2) :
    Stage out inc queued (outgoing + 1) incoming 0 := by
  cases h with
  | answered h => exact .running ⟨rfl, le_rfl⟩ h

lemma registerOutgoing (h : Stage out inc queued (outgoing + 1) incoming progress) :
    out = 1 ∧ Stage 2 inc queued outgoing incoming progress := by
  cases h with
  | running h h' =>
    obtain ⟨hsum, hle⟩ := h
    obtain rfl : outgoing = 0 := by omega
    exact ⟨by omega, .running ⟨rfl, Nat.zero_le _⟩ h'⟩

lemma registerIncoming (h : Stage out inc queued outgoing (incoming + 1) progress) :
    inc = 1 ∧ Stage out 2 queued outgoing incoming progress := by
  cases h with
  | answered h =>
    obtain ⟨hsum, hle⟩ := h
    obtain rfl : incoming = 0 := by omega
    exact ⟨by omega, .answered ⟨rfl, Nat.zero_le _⟩⟩
  | running h h' =>
    obtain ⟨hsum, hle⟩ := h'
    obtain rfl : incoming = 0 := by omega
    exact ⟨by omega, .running h ⟨rfl, Nat.zero_le _⟩⟩

lemma outRank_ne (h : Stage out inc queued outgoing incoming progress)
    (hasked : 0 < queued + progress) : out ≠ 0 := by
  cases h with
  | apart => exact absurd hasked (lt_irrefl 0)
  | running _ _ => exact absurd hasked (lt_irrefl 0)
  | _ => exact one_ne_zero

lemma settled (h : Stage out inc 0 0 0 0) : (out = 0 ∧ inc = 0) ∨ (out = 2 ∧ inc = 2) := by
  cases h with
  | apart => exact Or.inl ⟨rfl, rfl⟩
  | running h h' => exact Or.inr ⟨h.1, h'.1⟩

end Stage

/-! ### The conversation of two managers -/

inductive Phase (StoreId : Type)
  | idle (starting : Bool)
  | advertised (nonce : Manager.Nonce) (storeIds : List (Store StoreId))
  | shared (storeIds : List (Store StoreId)) (haveStores : StoreBitmap)
  | requested (streamId : StreamId) (store : Store StoreId)
  | asked (streamId : StreamId) (store their : Store StoreId)
  | answered (streamId : StreamId) (store : Store StoreId)

namespace Phase

/-- What the manager with initiative is at. -/
def initiative : Phase StoreId → Initiative StoreId
  | idle starting => if starting then .starting else .idle
  | advertised _ storeIds => .advertising storeIds
  | shared storeIds _ => .advertising storeIds
  | requested streamId store => .creating streamId store
  | asked streamId store _ => .creating streamId store
  | answered streamId store => .creating streamId store

/-- The request on its way. -/
def requests [StoreBytes StoreId] [Hash D] : Phase StoreId → List (Frame StoreId D)
  | advertised nonce storeIds => [.manager (.request (advertiseRequest nonce storeIds))]
  | requested streamId store => [.manager (.request (.createStoreStream streamId store.1))]
  | _ => []

/-- The response on its way. -/
def responses : Phase StoreId → List (Frame StoreId D)
  | shared _ haveStores => [.manager (.advertiseStoresResponse ⟨haveStores⟩)]
  | answered _ _ => [.manager (.createStoreResponse ⟨.ok true⟩)]
  | _ => []

/-- The store that the manager without initiative waits for. -/
def asking : Phase StoreId → Option (StreamId × Store StoreId)
  | asked streamId _ their => some (streamId, their)
  | _ => none

/-- Whether the manager waits for the store's stream (1), or was answered (2). -/
def progress (a : StoreId) : Phase StoreId → ℕ
  | requested _ store => if store.1 = a then 1 else 0
  | asked _ store _ => if store.1 = a then 1 else 0
  | answered _ store => if store.1 = a then 2 else 0
  | _ => 0

/-- The manager with initiative has not advertised yet. -/
def isStarting : Phase StoreId → Bool
  | idle starting => starting
  | _ => false

/-- How much is left of the conversation, if there are `n` stores at most. -/
def weight (n : ℕ) : Phase StoreId → ℕ
  | idle _ => 0
  | advertised _ _ => 2 * n + 2
  | shared storeIds haveStores => (sharedStores storeIds haveStores).length + 1
  | requested _ _ => 5
  | asked _ _ _ => 4
  | answered _ _ => 2

end Phase

section Invariant

variable (own peer : DeviceId)

/-- The side knows that its peer has the store, or is about to. -/
def Side.Met (x : Side StoreId H HeaderId Header T D) (p : DeviceId) (a : StoreId) : Prop :=
  x.node.knows p a = true ∨ a ∈ x.registering.map Prod.fst

/-- The store has asked the manager of the peer for a stream, or is about to. -/
def Side.Seeks (x : Side StoreId H HeaderId Header T D) (p : DeviceId) (a : StoreId) : Prop :=
  x.node.outRank p a ≠ 0 ∨ a ∈ x.registering.map Prod.fst

/-- The manager with initiative has yet to look at the active stores. -/
def Side.News (x : Side StoreId H HeaderId Header T D) : Prop :=
  x.changed = true ∨ x.initiative = .starting

/-- The stores for which no stream was asked yet. -/
def Side.unasked (ids : List StoreId) (p : DeviceId) (x : Side StoreId H HeaderId Header T D) : ℕ :=
  ids.countP fun a => decide (x.node.outRank p a = 0)

/-- How much a side has to do until it is quiet. -/
def Side.work (ids : List StoreId) (p : DeviceId) (x : Side StoreId H HeaderId Header T D)
    (phase : Phase StoreId) : ℕ :=
  6 * (x.unasked ids p + x.managerChannel.length) + x.registering.length + x.outgoing.length +
    x.incoming.length + phase.weight ids.length +
    if x.changed || phase.isStarting then 2 * ids.length + 3 else 0

lemma Side.work_phase {ids : List StoreId} {p : DeviceId}
    (x : Side StoreId H HeaderId Header T D) (φ φ' : Phase StoreId)
    (h : φ.isStarting = φ'.isStarting) : x.work ids p φ + φ'.weight ids.length =
      x.work ids p φ' + φ.weight ids.length := by
  unfold Side.work
  rw [h]
  omega

lemma Side.work_registering (x : Side StoreId H HeaderId Header T D) (p : DeviceId)
    (phase : Phase StoreId) (ids : List StoreId) (registering : List (Store StoreId)) :
    Side.work ids p { x with registering } phase + x.registering.length =
      x.work ids p phase + registering.length := by
  unfold Side.work Side.unasked
  dsimp only
  omega

lemma Side.work_outgoing (x : Side StoreId H HeaderId Header T D) (p : DeviceId)
    (phase : Phase StoreId) (ids : List StoreId) (outgoing : List (Store StoreId)) :
    Side.work ids p { x with outgoing } phase + x.outgoing.length =
      x.work ids p phase + outgoing.length := by
  unfold Side.work Side.unasked
  dsimp only
  omega

lemma Side.work_advertise (x : Side StoreId H HeaderId Header T D) (p : DeviceId)
    (ids : List StoreId) (nonce : Manager.Nonce) (storeIds : List (Store StoreId))
    {starting : Bool} (h : (x.changed || starting) = true) :
    Side.work ids p { x with changed := false } (.advertised nonce storeIds) + 1 =
      x.work ids p (.idle starting) := by
  unfold Side.work Side.unasked
  rw [show (Phase.idle starting : Phase StoreId).isStarting = starting from rfl, if_pos h]
  simp only [Phase.weight, Phase.isStarting, Bool.or_self, Bool.false_eq_true, if_false]
  omega

lemma Side.work_request (x : Side StoreId H HeaderId Header T D) (p : DeviceId)
    (ids : List StoreId) (streamId : StreamId) {store : Store StoreId}
    {managerChannel : List (Store StoreId)} (h : x.managerChannel = store :: managerChannel) :
    Side.work ids p { x with managerChannel } (.requested streamId store) + 1 =
      x.work ids p (.idle false) := by
  have hphase : Side.work ids p { x with managerChannel } (.requested streamId store) + 0 =
      Side.work ids p { x with managerChannel } (.idle false) + 5 :=
    Side.work_phase _ (.requested streamId store) (.idle false) rfl
  have hqueue : Side.work ids p { x with managerChannel } (.idle false) + 6 =
      x.work ids p (.idle false) := by
    unfold Side.work Side.unasked
    rw [h, List.length_cons]
    dsimp only
    omega
  omega

structure Talk [StoreBytes StoreId] [Hash D] (me : Party)
    (x y : Side StoreId H HeaderId Header T D) (phase : Phase StoreId) : Prop where
  initiative : x.initiative = phase.initiative
  requests : y.inbox (control me) = phase.requests
  responses : x.inbox (control me) = phase.responses
  asked : y.asked = phase.asking

/-- What the message on its way says is true. -/
def Phase.Holds [StoreBytes StoreId] [Hash D] (me : Party) (ids : List StoreId)
    (x y : Side StoreId H HeaderId Header T D) : Phase StoreId → Prop
  | .idle _ => True
  | .advertised nonce storeIds => CollisionFree D nonce ids ∧ (∀ e ∈ storeIds, x.node.Has e) ∧
    (storeIds.map Prod.fst).Nodup ∧ storeIds.length ≤ MAX_ADVERTISE_STORES
  | .shared storeIds haveStores =>
    ∀ e ∈ sharedStores storeIds haveStores, x.node.Has e ∧ y.node.Runs e.1
  | .requested streamId store => x.node.Has store ∧ y.node.Runs store.1 ∧
    streamId = x.latestStreamId ∧ owner streamId = me ∧ y.node.streamMap[streamId]? = none
  | .asked streamId store their => x.node.Has store ∧ their.1 = store.1 ∧ y.node.Has their ∧
    streamId = x.latestStreamId ∧ owner streamId = me ∧ y.node.streamMap[streamId]? = none
  | .answered streamId store => x.node.Has store ∧ owner streamId = me ∧
    y.node.streamMap[streamId]? = some (some store.1) ∧ x.node.streamMap[streamId]? = none

/-- The streams that the first side asks for. -/
structure Streams (me : Party) (x y : Side StoreId H HeaderId Header T D)
    (phase : Phase StoreId) : Prop where
  latest : owner x.latestStreamId = me
  bound (k : StreamId) (v : Option StoreId) : owner k = me →
    y.node.streamMap[k]? = some v → k ≤ x.latestStreamId
  ours (k : StreamId) (v : Option StoreId) : owner k = me →
    x.node.streamMap[k]? = some v → y.node.streamMap[k]? = some v
  theirs (k : StreamId) (v : Option StoreId) : owner k = me →
    y.node.streamMap[k]? = some v →
      x.node.streamMap[k]? = some v ∨ ∃ store, phase = .answered k store
  serves (a : StoreId) : y.node.inRank own a ≠ 0 →
    ∃ k, owner k = me ∧ y.node.streamMap[k]? = some (some a)
  served (k : StreamId) (a : StoreId) : owner k = me →
    y.node.streamMap[k]? = some (some a) → y.node.inRank own a ≠ 0
  unique (k k' : StreamId) (a : StoreId) : owner k = me → owner k' = me →
    y.node.streamMap[k]? = some (some a) → y.node.streamMap[k']? = some (some a) → k = k'
  frames (k : StreamId) : owner k = me → k ≠ control me →
    y.inbox k ≠ [] ∨ x.inbox k ≠ [] ∨ y.heard k = true → ∃ v, x.node.streamMap[k]? = some v

/-- What holds of the direction in which the first side asks. -/
structure Dir [StoreBytes StoreId] [Hash D] (me : Party) (ids : List StoreId)
    (x y : Side StoreId H HeaderId Header T D) (phase : Phase StoreId) : Prop where
  talk : Talk me x y phase
  holds : phase.Holds me ids x y
  stage (a : StoreId) : Stage (x.node.outRank peer a) (y.node.inRank own a)
    (tally a x.managerChannel) (tally a x.outgoing) (tally a y.incoming) (phase.progress a)
  met (a : StoreId) : x.Met peer a → y.node.Runs a
  streams : Streams own me x y phase
  budget : x.latestStreamId.val + 2 * (x.unasked ids peer + x.managerChannel.length) =
    (control me).val + 2 * ids.length

/-- The stores that are on their way to a side are its own. -/
structure Side.Coherent [Hash H] (into : H → StoreId) (ids : List StoreId)
    (x : Side StoreId H HeaderId Header T D) : Prop where
  node : x.node.Coherent into
  has : ∀ e ∈ x.managerChannel ++ x.registering ++ x.outgoing ++ x.incoming, x.node.Has e
  running (a : StoreId) : x.node.Runs a → a ∈ ids
  first (i : Party) : x.node.streamMap[control i]? = some none

/-- The round of advertising that is under way is going to find the store. -/
def Phase.Carries (p : DeviceId) (y : Side StoreId H HeaderId Header T D) (a : StoreId) :
    Phase StoreId → Prop
  | .advertised _ storeIds => a ∈ storeIds.map Prod.fst
  | .shared storeIds haveStores =>
    a ∈ (sharedStores storeIds haveStores).map Prod.fst ∧ y.Seeks p a
  | _ => False

/-- A store that runs on both sides is found, or is going to be. -/
def Found (x y : Side StoreId H HeaderId Header T D) (φ ψ : Phase StoreId)
    (a : StoreId) : Prop :=
  (x.Seeks peer a ∧ y.Seeks own a) ∨ x.News ∨ y.News ∨
    φ.Carries own y a ∨ ψ.Carries peer x a

/-- What holds of the side of `me` and the other side. -/
structure Sound [StoreBytes StoreId] [Hash D] [Hash H] (into : H → StoreId) (ids : List StoreId)
    (me : Party) (x y : Side StoreId H HeaderId Header T D) (φ ψ : Phase StoreId) : Prop where
  coherent : x.Coherent into ids
  coherent' : y.Coherent into ids
  nodup : ids.Nodup
  dir : Dir own peer me ids x y φ
  dir' : Dir peer own me.dual ids y x ψ
  found (a : StoreId) : x.node.Runs a → y.node.Runs a → Found own peer x y φ ψ a

end Invariant

end Ossa.Connection
