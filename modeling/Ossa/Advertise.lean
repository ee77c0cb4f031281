import Ossa.Collections
import Ossa.Hash
import Ossa.Loop

/-!
How two peers find the stores they share, as `protocol/manager/v0.rs` does it.

One side sends the salted hashes of its running stores. The other looks them up among the hashes
of its own, answers with a bit for each hash it knows, and takes a store out of the table once it
was asked for. A channel to a store is abstract.
-/

namespace Ossa.Manager

open Ossa.Loop Ossa.Collections Ossa.Util

/-- `AsRef<[u8]>` of a store id. -/
class StoreBytes (StoreId : Type) where
  asRef : StoreId → List UInt8

inductive StoreStatus (Chan : Type)
  /-- Store is initializing and async handler is being created. -/
  | initializing
  /-- Store's async handler is running. -/
  | running (sendCommandChan : Chan)

def StoreStatus.commandChannel {Chan : Type} : StoreStatus Chan → Option Chan
  | initializing => none
  | running sendCommandChan => some sendCommandChan

abbrev StoreStatuses (StoreId Chan : Type) [LinearOrder StoreId] :=
  BTreeMap StoreId (StoreStatus Chan)

def MAX_ADVERTISE_STORES : ℕ := 256

abbrev StoreBitmap := Vector Bool MAX_ADVERTISE_STORES

abbrev Nonce := Vector UInt8 4

inductive MsgManagerRequest (StoreId H : Type)
  /-- Advertise stores using a poor man's PSI. -/
  | advertiseStores (nonce : Nonce) (storeIds : List H)
  /-- Request to create a store stream. -/
  | createStoreStream (streamId : Fin (2 ^ 32)) (storeId : StoreId)

structure MsgManagerAdvertiseStoresResponse where
  haveStores : StoreBitmap

inductive MsgManagerError
  | invalidStreamId

structure MsgManagerCreateStoreResponse where
  /-- Whether or not the peer accepts or rejects the new stream. -/
  accept : Except MsgManagerError Bool

inductive MsgManager (StoreId H : Type)
  | request (r : MsgManagerRequest StoreId H)
  | advertiseStoresResponse (r : MsgManagerAdvertiseStoresResponse)
  | createStoreResponse (r : MsgManagerCreateStoreResponse)

variable {StoreId Chan H : Type}

def MsgManager.toRequest : MsgManager StoreId H → Option (MsgManagerRequest StoreId H)
  | request r => some r
  | advertiseStoresResponse _ => none
  | createStoreResponse _ => none

def MsgManager.toAdvertiseStoresResponse :
    MsgManager StoreId H → Option MsgManagerAdvertiseStoresResponse
  | request _ => none
  | createStoreResponse _ => none
  | advertiseStoresResponse r => some r

def hashStoreIdWithNonce [StoreBytes StoreId] [Hash H] (nonce : Nonce) (storeId : StoreId) : H :=
  Hash.finalize (Hash.update (Hash.update (Hash.new (H := H)) nonce.toList)
    (StoreBytes.asRef storeId))

variable [LinearOrder StoreId]

/-- The stores with a command channel, in the order of their ids. -/
def runningStores (statuses : StoreStatuses StoreId Chan) : List (StoreId × Chan) :=
  statuses.toList.filterMap fun e => e.2.commandChannel.map fun c => (e.1, c)

/-! ### The side that advertises -/

/-- Truncate stores length to `MAX_ADVERTISE_STORES`. -/
def advertisedStores (statuses : StoreStatuses StoreId Chan) : List (StoreId × Chan) :=
  (runningStores statuses).take MAX_ADVERTISE_STORES

omit [LinearOrder StoreId] in
def advertiseRequest [StoreBytes StoreId] [Hash H] (nonce : Nonce)
    (storeIds : List (StoreId × Chan)) : MsgManagerRequest StoreId H :=
  .advertiseStores nonce (storeIds.map fun e => hashStoreIdWithNonce nonce e.1)

/-- The advertised stores whose bit is set. -/
def sharedStores (storeIds : List (StoreId × Chan)) (haveStores : StoreBitmap) :
    List (StoreId × Chan) :=
  (storeIds.zip haveStores.toList).filterMap fun e => if e.2 then some e.1 else none

/-! ### The side that answers -/

variable [LinearOrder H]

/-- What is left of the own stores, the bits and the stores found so far. -/
structure Matching (StoreId Chan H : Type) [LinearOrder H] where
  ourStoreIds : BTreeMap H (StoreId × Chan)
  haveStores : StoreBitmap
  mutualStoreIds : List (StoreId × Chan)

def setBit (bits : StoreBitmap) (i : ℕ) : Exec StoreBitmap :=
  if h : i < MAX_ADVERTISE_STORES then .ok (bits.set i true h) else .error .outOfBounds

omit [LinearOrder StoreId] in
def matchStore (self : Matching StoreId Chan H) (e : H × ℕ) : Exec (Matching StoreId Chan H) :=
  -- If they send the same store multiple times, subsequent responses will be false.
  match self.ourStoreIds[e.1]? with
  | some v => do
    let haveStores ← setBit self.haveStores e.2
    pure ⟨self.ourStoreIds.erase e.1, haveStores, self.mutualStoreIds ++ [v]⟩
  | none => pure self

variable [StoreBytes StoreId] [Hash H]

omit [LinearOrder StoreId] in
def collectStores (nonce : Nonce) (stores : List (StoreId × Chan)) :
    BTreeMap H (StoreId × Chan) :=
  stores.foldl (fun m e => m.insert (hashStoreIdWithNonce nonce e.1) e) ∅

def runAdvertiseStoresClient (nonce : Nonce) (theirStoreIds : List H)
    (statuses : StoreStatuses StoreId Chan) :
    Exec (MsgManagerAdvertiseStoresResponse × List (StoreId × Chan)) := do
  let ourStoreIds := collectStores nonce (runningStores statuses)
  let found ← theirStoreIds.zipIdx.foldlM matchStore
    ⟨ourStoreIds, .replicate MAX_ADVERTISE_STORES false, []⟩
  pure (⟨found.haveStores⟩, found.mutualStoreIds)

/-- One round of `run_without_initiative`; what it does with a request for a stream is left
open. -/
def handleRequest (createStream : Fin (2 ^ 32) → StoreId →
      Exec (MsgManager StoreId H × List (StoreId × Chan)))
    (statuses : StoreStatuses StoreId Chan) (msg : MsgManager StoreId H) :
    Exec (MsgManager StoreId H × List (StoreId × Chan)) := do
  match ← orFault (.expect "TODO") msg.toRequest with
  | .advertiseStores nonce storeIds => do
    let r ← runAdvertiseStoresClient nonce storeIds statuses
    pure (.advertiseStoresResponse r.1, r.2)
  | .createStoreStream streamId storeId => createStream streamId storeId

/-- `run_advertise_stores_server` against a peer, and what both sides return. -/
def runAdvertiseStoresServer (peer : MsgManager StoreId H →
      Exec (MsgManager StoreId H × List (StoreId × Chan)))
    (nonce : Nonce) (statuses : StoreStatuses StoreId Chan) :
    Exec (List (StoreId × Chan) × List (StoreId × Chan)) := do
  let storeIds := advertisedStores statuses
  let r ← peer (.request (advertiseRequest nonce storeIds))
  let response ← orFault (.expect "TODO") r.1.toAdvertiseStoresResponse
  pure (sharedStores storeIds response.haveStores, r.2)

/-! ### The table of the side that answers -/

section Table

variable {nonce : Nonce} {stores : List (StoreId × Chan)} {h : H} {v : StoreId × Chan}

omit [LinearOrder StoreId]

lemma collectStores_concat (e : StoreId × Chan) : collectStores (H := H) nonce (stores ++ [e]) =
    (collectStores nonce stores).insert (hashStoreIdWithNonce nonce e.1) e := by
  simp [collectStores]

lemma getElem?_collectStores
    (hn : (stores.map fun e => hashStoreIdWithNonce (H := H) nonce e.1).Nodup) :
    (collectStores (H := H) nonce stores)[h]? = some v ↔
      v ∈ stores ∧ hashStoreIdWithNonce nonce v.1 = h := by
  induction stores using List.reverseRecOn with
  | nil => simp [collectStores]
  | append_singleton stores e ih =>
    rw [List.map_append, List.nodup_append] at hn
    have hfresh : ∀ x ∈ stores, hashStoreIdWithNonce (H := H) nonce x.1 ≠
        hashStoreIdWithNonce nonce e.1 := fun x hx =>
      hn.2.2 _ (List.mem_map_of_mem hx) _ (by simp)
    rw [collectStores_concat, get_insert, List.mem_append, List.mem_singleton]
    split_ifs with heq
    · constructor
      · intro hv
        cases hv
        exact ⟨Or.inr rfl, heq.symm⟩
      · rintro ⟨hv | rfl, hid⟩
        · exact absurd (hid.trans heq) (hfresh v hv)
        · rfl
    · rw [ih hn.1]
      refine and_congr_left fun hid => ⟨Or.inl, fun hv => hv.resolve_right ?_⟩
      rintro rfl
      exact heq hid.symm

end Table

/-! ### One bit and one entry for each store -/

section Matched

variable {table : BTreeMap H (StoreId × Chan)} {p hashes : List H} {h : H}
  {m : Matching StoreId Chan H}

omit [LinearOrder StoreId] [StoreBytes StoreId] [Hash H]

/-- At position `i` a hash of the table occurs for the first time. -/
def First (table : BTreeMap H (StoreId × Chan)) (p : List H) (i : ℕ) : Prop :=
  ∃ h, p[i]? = some h ∧ h ∉ p.take i ∧ table.contains h

/-- What the hashes seen so far have done. -/
structure Matched (table : BTreeMap H (StoreId × Chan)) (p : List H)
    (m : Matching StoreId Chan H) : Prop where
  left : ∀ h, m.ourStoreIds[h]? = if h ∈ p then none else table[h]?
  bits : ∀ i (_ : i < MAX_ADVERTISE_STORES), m.haveStores[i] = true ↔ First table p i
  found : m.mutualStoreIds = p.eraseDups.filterMap fun h => table[h]?

lemma first_concat {i : ℕ} : First table (p ++ [h]) i ↔
    First table p i ∨ i = p.length ∧ h ∉ p ∧ table.contains h := by
  unfold First
  rcases lt_trichotomy i p.length with hlt | rfl | hgt
  · rw [List.getElem?_append_left hlt, List.take_append_of_le_length hlt.le]
    exact (or_iff_left fun hi => hlt.ne hi.1).symm
  · simp only [List.getElem?_concat_length, List.take_left', Option.some.injEq, exists_eq_left',
      List.getElem?_eq_none le_rfl, reduceCtorEq, false_and, exists_false, false_or, true_and]
  · rw [List.getElem?_eq_none (by rw [List.length_append]; exact hgt),
      List.getElem?_eq_none hgt.le]
    simp [hgt.ne']

lemma First.unique {i j : ℕ} (hi : First table p i) (hj : First table p j) (h : p[i]? = p[j]?) :
    i = j := by
  obtain ⟨x, hx, hnx, -⟩ := hi
  obtain ⟨y, hy, hny, -⟩ := hj
  obtain rfl : x = y := Option.some.inj (hx.symm.trans (h.trans hy))
  have hmem : ∀ {k l : ℕ}, k < l → p[k]? = some x → x ∈ p.take l := fun hkl hk =>
    List.mem_of_getElem? (List.getElem?_take_of_lt hkl |>.trans hk)
  rcases lt_trichotomy i j with hlt | heq | hgt
  · exact absurd (hmem hlt hx) hny
  · exact heq
  · exact absurd (hmem hgt hy) hnx

lemma eraseDups_concat : (p ++ [h]).eraseDups = p.eraseDups ++ if h ∈ p then [] else [h] := by
  rw [List.eraseDups_append]
  split_ifs with hmem <;> simp [List.removeAll, hmem, List.eraseDups_cons]

lemma matched_nil : Matched table []
    (⟨table, .replicate MAX_ADVERTISE_STORES false, []⟩ : Matching StoreId Chan H) :=
  ⟨by simp, by simp [First], by simp⟩

/-- **One hash**: a known store is found, unless it was found before. -/
lemma Matched.step (hm : Matched table p m) (hlt : p.length < MAX_ADVERTISE_STORES) :
    ∃ m', matchStore m (h, p.length) = .ok m' ∧ Matched table (p ++ [h]) m' := by
  have hleft := hm.left h
  unfold matchStore
  cases hv : m.ourStoreIds[h]? with
  | some v =>
    have hnew : h ∉ p := fun hmem => by rw [hv, if_pos hmem] at hleft; cases hleft
    rw [hv, if_neg hnew] at hleft
    have hc : table.contains h := contains_iff.mpr ⟨v, hleft.symm⟩
    simp only [setBit, dif_pos hlt, ok_bind, pure_eq_ok]
    refine ⟨_, rfl, fun x => ?_, fun i hi => ?_, ?_⟩
    · rw [Std.ExtTreeMap.getElem?_erase]
      by_cases hx : h = x
      · simp [hx]
      · simp [hx, hm.left x, Ne.symm hx]
    · rw [Vector.getElem_set, first_concat]
      split_ifs with hip
      · exact iff_of_true rfl (Or.inr ⟨hip.symm, hnew, hc⟩)
      · rw [hm.bits i hi]
        exact (or_iff_left fun hi => hip hi.1.symm).symm
    · rw [hm.found, eraseDups_concat, if_neg hnew, List.filterMap_append]
      simp [← hleft]
  | none =>
    -- asked for before, or not ours
    have hold : ¬ (h ∉ p ∧ table.contains h) := by
      rintro ⟨hnew, hc⟩
      obtain ⟨v, hv'⟩ := contains_iff.mp hc
      rw [hv, if_neg hnew, hv'] at hleft
      cases hleft
    refine ⟨m, rfl, fun x => ?_, fun i hi => ?_, ?_⟩
    · by_cases hx : x = h
      · subst hx
        rw [hv, if_pos (by simp)]
      · simp [hm.left x, hx]
    · rw [hm.bits i hi, first_concat]
      exact (or_iff_left fun hi => hold hi.2).symm
    · rw [hm.found, eraseDups_concat, List.filterMap_append]
      split_ifs with hmem
      · simp
      · rw [hv, if_neg hmem] at hleft
        simp [← hleft]

/-- **All hashes of a message.** -/
theorem matched_foldlM (table : BTreeMap H (StoreId × Chan))
    (hlen : hashes.length ≤ MAX_ADVERTISE_STORES) :
    ∃ m : Matching StoreId Chan H, hashes.zipIdx.foldlM matchStore
      ⟨table, .replicate MAX_ADVERTISE_STORES false, []⟩ = .ok m ∧ Matched table hashes m := by
  induction hashes using List.reverseRecOn with
  | nil => exact ⟨_, rfl, matched_nil⟩
  | append_singleton p h ih =>
    rw [List.length_append, List.length_singleton] at hlen
    obtain ⟨m, hm, hmatched⟩ := ih (by omega)
    obtain ⟨m', hm', hmatched'⟩ := hmatched.step (h := h) (by omega)
    refine ⟨m', ?_, hmatched'⟩
    rw [List.zipIdx_append, List.foldlM_append, hm, ok_bind]
    simp [hm']

end Matched

/-! ### Both sides -/

section Lists

variable {α : Type} {l : List α} {bits : List Bool} {P : α → Bool} {hashes : List H}

omit [LinearOrder StoreId] [LinearOrder H] [StoreBytes StoreId] [Hash H] in
/-- The entries whose bit says what `P` says. -/
lemma filterMap_zip (h : ∀ (i : ℕ) a, l[i]? = some a → bits[i]? = some (P a)) :
    ((l.zip bits).filterMap fun e => if e.2 then some e.1 else none) = l.filter P := by
  induction l generalizing bits with
  | nil => simp
  | cons a l ih =>
    obtain ⟨b, bits, rfl⟩ : ∃ b rest, bits = b :: rest := by
      cases bits with
      | nil => simpa using h 0 a rfl
      | cons b rest => exact ⟨b, rest, rfl⟩
    have hb : b = P a := by simpa using h 0 a rfl
    have htail : ∀ (i : ℕ) a, l[i]? = some a → bits[i]? = some (P a) := fun i x hx => by
      simpa using h (i + 1) x hx
    rw [List.zip_cons_cons, List.filterMap_cons, ih htail, List.filter_cons, hb]
    cases P a <;> rfl

omit [LinearOrder StoreId] [StoreBytes StoreId] [Hash H]

lemma nodup_eraseDups : hashes.eraseDups.Nodup := by
  induction hashes using List.reverseRecOn with
  | nil => simp
  | append_singleton p h ih =>
    rw [eraseDups_concat]
    split_ifs with hmem
    · rwa [List.append_nil]
    · refine List.nodup_append.mpr ⟨ih, List.nodup_singleton h, fun x hx y hy => ?_⟩
      rw [List.mem_singleton.mp hy]
      exact ne_of_mem_of_not_mem (List.mem_eraseDups.mp hx) hmem

lemma eraseDups_of_nodup (hn : hashes.Nodup) : hashes.eraseDups = hashes := by
  induction hashes using List.reverseRecOn with
  | nil => simp
  | append_singleton p h ih =>
    rw [List.nodup_append] at hn
    have hnew : h ∉ p := fun hmem => hn.2.2 h hmem h (by simp) rfl
    rw [eraseDups_concat, if_neg hnew, ih hn.1]

end Lists

section Agree

variable {nonce : Nonce} {ours theirs : StoreStatuses StoreId Chan} {hashes : List H}

/-- The ids of the stores that run. -/
def runningIds (statuses : StoreStatuses StoreId Chan) : List StoreId :=
  (runningStores statuses).map Prod.fst

/-- The ids that are advertised and also run at the other side. -/
def commonIds (ours theirs : StoreStatuses StoreId Chan) : List StoreId :=
  ((advertisedStores ours).map Prod.fst).filter fun id => id ∈ runningIds theirs

omit [LinearOrder H] [StoreBytes StoreId] [Hash H] in
lemma nodup_runningIds (statuses : StoreStatuses StoreId Chan) : (runningIds statuses).Nodup := by
  have hkeys := nodup_keys statuses
  rw [List.Nodup, List.pairwise_map] at hkeys
  unfold runningIds runningStores
  rw [List.Nodup, List.pairwise_map, List.pairwise_filterMap]
  refine hkeys.imp fun {e e'} hne x hx y hy => ?_
  obtain ⟨c, -, rfl⟩ := Option.map_eq_some_iff.mp hx
  obtain ⟨c', -, rfl⟩ := Option.map_eq_some_iff.mp hy
  exact hne

omit [LinearOrder H] [StoreBytes StoreId] [Hash H] in
lemma nodup_advertisedIds (statuses : StoreStatuses StoreId Chan) :
    ((advertisedStores statuses).map Prod.fst).Nodup := by
  unfold advertisedStores
  rw [List.map_take]
  exact (nodup_runningIds statuses).sublist (List.take_sublist _ _)

/-- The salted hash is collision-free on the ids of running stores. -/
def CollisionFree (H : Type) [Hash H] (nonce : Nonce) (ids : List StoreId) : Prop :=
  ∀ a ∈ ids, ∀ b ∈ ids,
    hashStoreIdWithNonce (H := H) nonce a = hashStoreIdWithNonce nonce b → a = b

omit [LinearOrder H] [LinearOrder StoreId] in
lemma CollisionFree.nodup {stores : List (StoreId × Chan)}
    (h : CollisionFree H nonce (stores.map Prod.fst)) (hn : (stores.map Prod.fst).Nodup) :
    (stores.map fun e => hashStoreIdWithNonce (H := H) nonce e.1).Nodup := by
  have hmap := hn.map_on fun a ha b hb => h a ha b hb
  rwa [List.map_map] at hmap

lemma CollisionFree.table (h : CollisionFree H nonce (runningIds theirs)) {x : H}
    {v : StoreId × Chan} : (collectStores (H := H) nonce (runningStores theirs))[x]? = some v ↔
      v ∈ runningStores theirs ∧ hashStoreIdWithNonce nonce v.1 = x :=
  getElem?_collectStores (h.nodup (nodup_runningIds theirs))

/-- The stores with one of the hashes, in the order in which these first occur. -/
def foundStores (nonce : Nonce) (hashes : List H) (statuses : StoreStatuses StoreId Chan) :
    List (StoreId × Chan) :=
  hashes.eraseDups.filterMap fun h => (collectStores (H := H) nonce (runningStores statuses))[h]?

/-- **What the answering side does**, for any hashes it is sent. -/
theorem runAdvertiseStoresClient_spec (nonce : Nonce) (theirs : StoreStatuses StoreId Chan)
    (hashes : List H) (hlen : hashes.length ≤ MAX_ADVERTISE_STORES) :
    ∃ haveStores, runAdvertiseStoresClient nonce hashes theirs =
        .ok (⟨haveStores⟩, foundStores nonce hashes theirs) ∧
      ∀ i (_ : i < MAX_ADVERTISE_STORES), haveStores[i] = true ↔
        First (collectStores nonce (runningStores theirs)) hashes i := by
  obtain ⟨m, hm, hmatched⟩ := matched_foldlM (collectStores nonce (runningStores theirs)) hlen
  refine ⟨m.haveStores, ?_, hmatched.bits⟩
  unfold runAdvertiseStoresClient foundStores
  dsimp only
  rw [hm, ← hmatched.found]
  rfl

lemma CollisionFree.mem_found (h : CollisionFree H nonce (runningIds theirs))
    {e : StoreId × Chan} : e ∈ foundStores nonce hashes theirs ↔
      e ∈ runningStores theirs ∧ hashStoreIdWithNonce nonce e.1 ∈ hashes := by
  rw [foundStores, List.mem_filterMap]
  constructor
  · rintro ⟨x, hx, hget⟩
    obtain ⟨hmem, rfl⟩ := h.table.mp hget
    exact ⟨hmem, List.mem_eraseDups.mp hx⟩
  · rintro ⟨hmem, hx⟩
    exact ⟨_, List.mem_eraseDups.mpr hx, h.table.mpr ⟨hmem, rfl⟩⟩

/-- No store is found twice, since its hash is looked up once. -/
lemma CollisionFree.nodup_found (h : CollisionFree H nonce (runningIds theirs)) :
    ((foundStores nonce hashes theirs).map Prod.fst).Nodup := by
  rw [foundStores, List.Nodup, List.pairwise_map, List.pairwise_filterMap]
  refine nodup_eraseDups.imp fun {x y} hne e he e' he' heq => hne ?_
  rw [← (h.table.mp he).2, ← (h.table.mp he').2, heq]

lemma CollisionFree.contains (h : CollisionFree H nonce (runningIds theirs))
    {id : StoreId} {ids : List StoreId}
    (hids : CollisionFree H nonce (ids ++ runningIds theirs)) (hid : id ∈ ids) :
    (collectStores (H := H) nonce (runningStores theirs)).contains (hashStoreIdWithNonce nonce id) ↔
      id ∈ runningIds theirs := by
  rw [contains_iff]
  constructor
  · rintro ⟨v, hv⟩
    obtain ⟨hmem, heq⟩ := h.table.mp hv
    have hv' : v.1 ∈ runningIds theirs := List.mem_map_of_mem hmem
    rwa [← hids v.1 (List.mem_append_right _ hv') id (List.mem_append_left _ hid) heq]
  · intro hmem
    obtain ⟨v, hv, rfl⟩ := List.mem_map.mp hmem
    exact ⟨v, h.table.mpr ⟨hv, rfl⟩⟩

section Honest

variable {stores : List (StoreId × Chan)}

/-- Of the stores advertised, those are shared whose bit is set: the ones that run there. -/
lemma CollisionFree.sharedStores (h : CollisionFree H nonce (runningIds theirs))
    (hids : CollisionFree H nonce (stores.map Prod.fst ++ runningIds theirs))
    (hn : (stores.map Prod.fst).Nodup) (hlen : stores.length ≤ MAX_ADVERTISE_STORES)
    {haveStores : StoreBitmap} (hbits : ∀ i (_ : i < MAX_ADVERTISE_STORES), haveStores[i] = true ↔
      First (collectStores (H := H) nonce (runningStores theirs))
        (stores.map fun e => hashStoreIdWithNonce nonce e.1) i) :
    Manager.sharedStores stores haveStores =
      stores.filter fun e => e.1 ∈ runningIds theirs := by
  have hself : CollisionFree H nonce (stores.map Prod.fst) := fun a ha b hb =>
    hids a (List.mem_append_left _ ha) b (List.mem_append_left _ hb)
  have hnodup := hself.nodup hn
  refine filterMap_zip fun i e he => ?_
  have hi : i < MAX_ADVERTISE_STORES := (List.getElem?_eq_some_iff.mp he).1.trans_le hlen
  have hhash : (stores.map fun e => hashStoreIdWithNonce (H := H) nonce e.1)[i]? =
      some (hashStoreIdWithNonce nonce e.1) := by rw [List.getElem?_map, he]; rfl
  have hmem : e.1 ∈ stores.map Prod.fst := List.mem_map_of_mem (List.mem_of_getElem? he)
  have hfirst : First (collectStores (H := H) nonce (runningStores theirs))
      (stores.map fun e => hashStoreIdWithNonce nonce e.1) i ↔ e.1 ∈ runningIds theirs := by
    rw [← h.contains hids hmem]
    constructor
    · rintro ⟨x, hx, -, hc⟩
      rwa [← Option.some.inj (hx.symm.trans hhash)]
    · refine fun hc => ⟨_, hhash, fun hbefore => ?_, hc⟩
      obtain ⟨j, hj⟩ := List.mem_iff_getElem?.mp hbefore
      rw [List.getElem?_take] at hj
      split_ifs at hj with hlt
      have hlen' : j < (stores.map fun e => hashStoreIdWithNonce (H := H) nonce e.1).length :=
        (List.getElem?_eq_some_iff.mp hj).1
      exact hlt.ne ((List.getElem?_inj hlen' hnodup).mp (hj.trans hhash.symm))
  rw [Vector.getElem?_toList, Vector.getElem?_eq_getElem hi, Option.some.injEq,
    Bool.eq_iff_iff, hbits i hi, hfirst, decide_eq_true_eq]

lemma CollisionFree.foundStores (h : CollisionFree H nonce (runningIds theirs))
    (hids : CollisionFree H nonce (stores.map Prod.fst ++ runningIds theirs))
    (hn : (stores.map Prod.fst).Nodup) :
    (Manager.foundStores nonce (stores.map fun e => hashStoreIdWithNonce (H := H) nonce e.1)
      theirs).map Prod.fst = (stores.map Prod.fst).filter fun id => id ∈ runningIds theirs := by
  have hself : CollisionFree H nonce (stores.map Prod.fst) := fun a ha b hb =>
    hids a (List.mem_append_left _ ha) b (List.mem_append_left _ hb)
  have hnodup := hself.nodup hn
  rw [Manager.foundStores, eraseDups_of_nodup hnodup, List.filterMap_map, List.map_filterMap,
    ← List.filterMap_eq_filter, List.filterMap_map]
  refine List.filterMap_congr fun e he => ?_
  have hmem : e.1 ∈ stores.map Prod.fst := List.mem_map_of_mem he
  have hc := h.contains hids hmem
  rw [contains_iff] at hc
  simp only [Function.comp_apply, Option.guard]
  cases hv : (collectStores (H := H) nonce (runningStores theirs))[
      hashStoreIdWithNonce (H := H) nonce e.1]? with
  | none =>
    have hnot : e.1 ∉ runningIds theirs := fun hrun => by simpa [hv] using hc.mpr hrun
    simp [hnot]
  | some v =>
    obtain ⟨hrun, heq⟩ := h.table.mp hv
    have hvr : v.1 ∈ runningIds theirs := List.mem_map_of_mem hrun
    have hid : v.1 = e.1 :=
      hids v.1 (List.mem_append_right _ hvr) e.1 (List.mem_append_left _ hmem) heq
    simp [hid, hid ▸ hvr]

end Honest

/-- **Both ends agree on the stores they share.** Run against each other, both sides return the
stores that are advertised and run at the other side, each once and with a channel of their own.
And whatever hashes the answering side is sent, it sets a bit for the first occurrence of a hash
only, and returns each of its stores that were asked for once. -/
theorem advertise_agrees
    (createStream : Fin (2 ^ 32) → StoreId → Exec (MsgManager StoreId H × List (StoreId × Chan)))
    (hfree : CollisionFree H nonce (runningIds ours ++ runningIds theirs)) :
    (∃ shared found, runAdvertiseStoresServer (handleRequest createStream theirs) nonce ours =
        .ok (shared, found) ∧
      shared.map Prod.fst = commonIds ours theirs ∧ found.map Prod.fst = commonIds ours theirs ∧
      (commonIds ours theirs).Nodup ∧ (∀ e ∈ shared, e ∈ runningStores ours) ∧
      ∀ e ∈ found, e ∈ runningStores theirs) ∧
    ∀ hashes : List H, hashes.length ≤ MAX_ADVERTISE_STORES → ∃ haveStores found,
      runAdvertiseStoresClient nonce hashes theirs = .ok (⟨haveStores⟩, found) ∧
      (found.map Prod.fst).Nodup ∧ (∀ e ∈ found, e ∈ runningStores theirs) ∧
      (∀ id, id ∈ found.map Prod.fst ↔
        id ∈ runningIds theirs ∧ hashStoreIdWithNonce nonce id ∈ hashes) ∧
      (∀ i (_ : i < MAX_ADVERTISE_STORES), haveStores[i] = true →
        ∃ id ∈ runningIds theirs, hashes[i]? = some (hashStoreIdWithNonce nonce id)) ∧
      ∀ i j (_ : i < MAX_ADVERTISE_STORES) (_ : j < MAX_ADVERTISE_STORES), haveStores[i] = true →
        haveStores[j] = true → hashes[i]? = hashes[j]? → i = j := by
  have hclient : CollisionFree H nonce (runningIds theirs) := fun a ha b hb =>
    hfree a (List.mem_append_right _ ha) b (List.mem_append_right _ hb)
  constructor
  · have hn := nodup_advertisedIds ours
    have hsub : ∀ e ∈ advertisedStores ours, e ∈ runningStores ours := fun e he =>
      List.mem_of_mem_take he
    have hids : CollisionFree H nonce
        ((advertisedStores ours).map Prod.fst ++ runningIds theirs) := by
      have hle : ∀ a ∈ (advertisedStores ours).map Prod.fst ++ runningIds theirs,
          a ∈ runningIds ours ++ runningIds theirs := by
        intro a ha
        refine List.mem_append.mpr ((List.mem_append.mp ha).imp_left fun ha => ?_)
        obtain ⟨e, he, rfl⟩ := List.mem_map.mp ha
        exact List.mem_map_of_mem (hsub e he)
      exact fun a ha b hb => hfree a (hle a ha) b (hle b hb)
    have hlen : (advertisedStores ours).length ≤ MAX_ADVERTISE_STORES := by
      rw [advertisedStores, List.length_take]
      exact min_le_left _ _
    obtain ⟨haveStores, hrun, hbits⟩ := runAdvertiseStoresClient_spec nonce theirs
      ((advertisedStores ours).map fun e => hashStoreIdWithNonce (H := H) nonce e.1) (by rwa [List.length_map])
    have hshared := hclient.sharedStores hids hn hlen hbits
    refine ⟨sharedStores (advertisedStores ours) haveStores, _, ?_, ?_,
      hclient.foundStores hids hn, hn.filter _, ?_, ?_⟩
    · unfold runAdvertiseStoresServer handleRequest
      simp only [advertiseRequest, MsgManager.toRequest, orFault_some, ok_bind, hrun,
        MsgManager.toAdvertiseStoresResponse, pure_eq_ok]
    · rw [hshared, commonIds, List.filter_map]
      rfl
    · intro e he
      rw [hshared] at he
      exact hsub e (List.mem_filter.mp he).1
    · exact fun e he => (hclient.mem_found.mp he).1
  · intro hashes hlen
    obtain ⟨haveStores, hrun, hbits⟩ := runAdvertiseStoresClient_spec nonce theirs hashes hlen
    refine ⟨haveStores, _, hrun, hclient.nodup_found, fun e he => (hclient.mem_found.mp he).1,
      fun id => ?_, fun i hi hbit => ?_, fun i j hi hj hbit hbit' heq => ?_⟩
    · rw [List.mem_map, runningIds, List.mem_map]
      constructor
      · rintro ⟨e, he, rfl⟩
        obtain ⟨hmem, hx⟩ := hclient.mem_found.mp he
        exact ⟨⟨e, hmem, rfl⟩, hx⟩
      · rintro ⟨⟨e, hmem, rfl⟩, hx⟩
        exact ⟨e, hclient.mem_found.mpr ⟨hmem, hx⟩, rfl⟩
    · obtain ⟨x, hx, -, hc⟩ := (hbits i hi).mp hbit
      obtain ⟨v, hv⟩ := contains_iff.mp hc
      obtain ⟨hmem, rfl⟩ := hclient.table.mp hv
      exact ⟨v.1, List.mem_map_of_mem hmem, hx⟩
    · exact ((hbits i hi).mp hbit).unique ((hbits j hj).mp hbit') heq

end Agree

/-! Stores 1 and 3 run at one side, and stores 3 and 4 at the other. -/

section Three

local instance : StoreBytes ℕ := ⟨fun n => [UInt8.ofNat n]⟩

/-- Data is hashed to the number it is. -/
local instance : Hash ℕ where
  HashState := List UInt8
  new := []
  update s data := s ++ data
  finalize s := s.foldl (fun n b => 256 * n + b.toNat) 0
  asRef n := [UInt8.ofNat n]
  update_update s a b := List.append_assoc s a b

def oneThree : StoreStatuses ℕ ℕ :=
  ((∅ : StoreStatuses ℕ ℕ).insert 1 (.running 10)).insert 2 .initializing |>.insert 3 (.running 30)

def threeFour : StoreStatuses ℕ ℕ :=
  ((∅ : StoreStatuses ℕ ℕ).insert 1 .initializing).insert 3 (.running 33) |>.insert 4 (.running 40)

theorem advertise_agrees_three : ∃ shared found, runAdvertiseStoresServer (H := ℕ)
      (handleRequest (fun _ _ => .error (.todo "")) threeFour) (.replicate 4 0) oneThree =
        .ok (shared, found) ∧ shared.map Prod.fst = [3] ∧ found.map Prod.fst = [3] := by
  have hfree : CollisionFree ℕ (.replicate 4 0)
      (runningIds oneThree ++ runningIds threeFour) := by
    unfold CollisionFree
    decide
  have hcommon : commonIds oneThree threeFour = [3] := by decide
  obtain ⟨shared, found, hrun, hshared, hfound, -⟩ :=
    (advertise_agrees (fun _ _ => .error (.todo "")) hfree).1
  exact ⟨shared, found, hrun, hshared.trans hcommon, hfound.trans hcommon⟩

end Three

end Ossa.Manager
