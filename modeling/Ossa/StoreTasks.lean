import Ossa.StoreDownload
import Ossa.StoreSystem

/-!
What a store knows of the tasks that talk to its peers.

For each peer the store's status agrees with what is on its way: a peer that is being
initialized has at most one spawned task, and a request is outstanding exactly while it is in
the queue of the task, being run, or answered but not handled. So no command finds a peer in a
status it does not expect.
-/

namespace Ossa.Store

open Ossa.Loop Ossa.Util Ossa.Collections Ossa.Ecg Ossa.Crdt Relation

variable {StoreId H HeaderId Header Body T Op : Type} [LinearOrder HeaderId]

/-! ### What is on its way -/

namespace Sent

def isCommandTo (p : DeviceId) : Sent StoreId H HeaderId Header T → Bool
  | .command peer _ => decide (peer = p)
  | _ => false

def spawnsOutgoing (p : DeviceId) : Sent StoreId H HeaderId Header T → Bool
  | .requestStoreSync peer _ => decide (peer = p)
  | _ => false

def spawnsIncoming (p : DeviceId) : Sent StoreId H HeaderId Header T → Bool
  | .syncResponse _ (some peer) => decide (peer = p)
  | _ => false

end Sent

/-- For each peer, the tasks that have not registered yet, and the requests in flight. -/
@[ext]
structure Ledger where
  outgoing : DeviceId → ℕ
  incoming : DeviceId → ℕ
  busy : DeviceId → ℕ

namespace Ledger

variable (L : Ledger) {l l' : List (Sent StoreId H HeaderId Header T)}

/-- The ledger after messages were sent. -/
def add (l : List (Sent StoreId H HeaderId Header T)) : Ledger where
  outgoing p := L.outgoing p + l.countP (Sent.spawnsOutgoing p)
  incoming p := L.incoming p + l.countP (Sent.spawnsIncoming p)
  busy p := L.busy p + l.countP (Sent.isCommandTo p)

@[simp] lemma add_nil : L.add ([] : List (Sent StoreId H HeaderId Header T)) = L := rfl

lemma add_append : L.add (l ++ l') = (L.add l).add l' := by
  simp only [add, List.countP_append, Nat.add_assoc]

lemma add_of_data (hl : ∀ m ∈ l, ¬ m.IsPeerMessage) : L.add l = L := by
  have hout : ∀ p, l.countP (Sent.spawnsOutgoing p) = 0 := fun p =>
    List.countP_eq_zero.mpr fun m hm => by
      have := hl m hm
      cases m <;> simp_all [Sent.IsPeerMessage, Sent.spawnsOutgoing]
  have hin : ∀ p, l.countP (Sent.spawnsIncoming p) = 0 := fun p =>
    List.countP_eq_zero.mpr fun m hm => by
      have := hl m hm
      cases m <;> simp_all [Sent.IsPeerMessage, Sent.spawnsIncoming]
  have hbusy : ∀ p, l.countP (Sent.isCommandTo p) = 0 := fun p =>
    List.countP_eq_zero.mpr fun m hm => by
      have := hl m hm
      cases m <;> simp_all [Sent.IsPeerMessage, Sent.isCommandTo]
  simp only [add, hout, hin, hbusy, Nat.add_zero]

end Ledger

/-! ### The status of a peer -/

def IncomingAgrees : PeerStatus Unit → ℕ → Prop
  | .initializing, incoming => incoming ≤ 1
  | _, incoming => incoming = 0

def OutgoingAgrees : PeerStatus OutgoingPeerStatus → ℕ → ℕ → Prop
  | .known, outgoing, busy => outgoing = 0 ∧ busy = 0
  | .initializing, outgoing, busy => outgoing ≤ 1 ∧ busy = 0
  | .syncing s, outgoing, busy => outgoing = 0 ∧ busy = s.isOutstanding.toNat

/-- The status of peer `p` agrees with the ledger. -/
def AgreesAt (info : Option PeerInfo) (L : Ledger) (p : DeviceId) : Prop :=
  match info with
  | none => L.outgoing p = 0 ∧ L.incoming p = 0 ∧ L.busy p = 0
  | some info => IncomingAgrees info.incomingStatus (L.incoming p) ∧
    OutgoingAgrees info.outgoingStatus (L.outgoing p) (L.busy p)

def Agrees (peers : BTreeMap DeviceId PeerInfo) (L : Ledger) : Prop :=
  ∀ p, AgreesAt peers[p]? L p

lemma AgreesAt.congr {info : Option PeerInfo} {L L' : Ledger} {p : DeviceId}
    (h : AgreesAt info L p) (ho : L'.outgoing p = L.outgoing p) (hi : L'.incoming p = L.incoming p)
    (hb : L'.busy p = L.busy p) : AgreesAt info L' p := by
  unfold AgreesAt at h ⊢
  rw [ho, hi, hb]
  exact h

/-- The statuses that a step may lead to. -/
def PeerStatus.rank {A : Type} : PeerStatus A → ℕ
  | .known => 0
  | .initializing => 1
  | .syncing _ => 2

/-- How far a peer that may be unknown has come. -/
def rankOf {A : Type} (d : PeerInfo.Direction A) (info : Option PeerInfo) : ℕ :=
  (info.map fun info => (d.get info).rank).getD 0

namespace State

variable {s s' s'' : State StoreId H HeaderId Header T} {peer p : DeviceId} {L : Ledger}

/-- From `s` to `s'`, messages were sent, and the peers were kept in step with them. -/
def Tracks (s s' : State StoreId H HeaderId Header T) : Prop :=
  ∃ l, s'.sent = s.sent ++ l ∧ ∀ L : Ledger, Agrees s.peers L → Agrees s'.peers (L.add l)

lemma Tracks.refl (s : State StoreId H HeaderId Header T) : s.Tracks s :=
  ⟨[], by simp, fun _ h => h⟩

lemma Tracks.trans (h : s.Tracks s') (h' : s'.Tracks s'') : s.Tracks s'' := by
  obtain ⟨l, hl, hL⟩ := h
  obtain ⟨l', hl', hL'⟩ := h'
  refine ⟨l ++ l', by rw [hl', hl, List.append_assoc], fun L hs => ?_⟩
  rw [Ledger.add_append]
  exact hL' _ (hL L hs)

lemma tracks_of_data {l : List (Sent StoreId H HeaderId Header T)} (hp : s'.peers = s.peers)
    (hs : s'.sent = s.sent ++ l) (hl : ∀ m ∈ l, ¬ m.IsPeerMessage) : s.Tracks s' :=
  ⟨l, hs, fun L h => by rwa [hp, L.add_of_data hl]⟩

lemma agrees_insert {peers : BTreeMap DeviceId PeerInfo} {info : PeerInfo} {L L' : Ledger}
    (h : Agrees peers L) (hne : ∀ p, p ≠ peer → L'.outgoing p = L.outgoing p ∧
      L'.incoming p = L.incoming p ∧ L'.busy p = L.busy p)
    (hpeer : AgreesAt (some info) L' peer) : Agrees (peers.insert peer info) L' := by
  intro p
  rw [get_insert]
  split_ifs with hp
  · rw [hp]
    exact hpeer
  · obtain ⟨ho, hi, hb⟩ := hne p hp
    exact (h p).congr ho hi hb

lemma tracks_insertKnownPeer (s : State StoreId H HeaderId Header T) (peer : DeviceId) :
    s.Tracks (s.insertKnownPeer peer) := by
  unfold insertKnownPeer
  split_ifs with hc
  · exact .refl s
  · refine ⟨[], by simp, fun L h => agrees_insert h (fun _ _ => ⟨rfl, rfl, rfl⟩) ?_⟩
    have hp := h peer
    have hnone : s.peers[peer]? = none := by simpa using hc
    rw [hnone] at hp
    obtain ⟨ho, hi, hb⟩ := hp
    exact ⟨hi, ho, hb⟩

lemma tracks_insertKnownPeers (peers : List DeviceId) :
    s.Tracks (peers.foldl insertKnownPeer s) := by
  induction peers generalizing s with
  | nil => exact .refl s
  | cons p peers ih => exact (tracks_insertKnownPeer s p).trans ih

lemma tracks_spawnOutgoing {storeId : StoreId}
    (h : s.updatePeerToInitializing peer PeerInfo.outgoing = .ok s') :
    s.Tracks (s'.send (.requestStoreSync peer storeId)) := by
  obtain ⟨info, hp, hd, rfl⟩ := updatePeerToInitializing_ok h
  refine ⟨[.requestStoreSync peer storeId], by simp [AfterPeers, State.send], fun L hL => ?_⟩
  refine agrees_insert hL (fun p hne => ?_) ?_
  · simp [Ledger.add, Sent.spawnsOutgoing, Sent.spawnsIncoming, Sent.isCommandTo, hne.symm]
  · have hagree := hL peer
    rw [hp] at hagree
    obtain ⟨hi, ho⟩ := hagree
    rw [show info.outgoingStatus = .known from hd] at ho
    refine ⟨?_, ?_, ?_⟩
    · show IncomingAgrees info.incomingStatus _
      simpa [Ledger.add, Sent.spawnsIncoming] using hi
    · simp [Ledger.add, Sent.spawnsOutgoing, ho.1]
    · simp [Ledger.add, Sent.isCommandTo, ho.2]

lemma tracks_spawnIncoming {chan : Chan}
    (h : s.updatePeerToInitializing peer PeerInfo.incoming = .ok s') :
    s.Tracks (s'.send (.syncResponse chan (some peer))) := by
  obtain ⟨info, hp, hd, rfl⟩ := updatePeerToInitializing_ok h
  refine ⟨[.syncResponse chan (some peer)], by simp [AfterPeers, State.send], fun L hL => ?_⟩
  refine agrees_insert hL (fun p hne => ?_) ?_
  · simp [Ledger.add, Sent.spawnsOutgoing, Sent.spawnsIncoming, Sent.isCommandTo, hne.symm]
  · have hagree := hL peer
    rw [hp] at hagree
    obtain ⟨hi, ho⟩ := hagree
    rw [show info.incomingStatus = .known from hd] at hi
    have hzero : L.incoming peer = 0 := hi
    constructor
    · show (L.add [Sent.syncResponse chan (some peer)]).incoming peer ≤ 1
      simp [Ledger.add, Sent.spawnsIncoming, hzero]
    · show OutgoingAgrees info.outgoingStatus _ _
      simpa [Ledger.add, Sent.spawnsOutgoing, Sent.isCommandTo] using ho

lemma tracks_managePeers [Hash H] {into : H → StoreId} {connected : DeviceId → Bool}
    (h : s.managePeers into connected = .ok s') : s.Tracks s' := by
  refine foldlM_invariant (I := s.Tracks) h (.refl s) fun t t' p _ ht hstep => ?_
  obtain ⟨t₁, hp, heq⟩ := bind_eq_ok.mp hstep
  cases heq
  exact ht.trans (tracks_spawnOutgoing hp)

lemma tracks_syncWithPeer {chan : Chan} (h : s.syncWithPeer peer chan = .ok s') :
    s.Tracks s' := by
  obtain ⟨info, hinfo, h⟩ := bind_eq_ok.mp h
  refine (tracks_insertKnownPeer s peer).trans ?_
  split_ifs at h with hk
  · obtain ⟨s₁, hp, heq⟩ := bind_eq_ok.mp h
    cases heq
    exact tracks_spawnIncoming hp
  · cases h
    refine ⟨[.syncResponse chan none], rfl, fun L hL p => ?_⟩
    exact (hL p).congr (by simp [Ledger.add, Sent.spawnsOutgoing])
      (by simp [Ledger.add, Sent.spawnsIncoming]) (by simp [Ledger.add, Sent.isCommandTo])

lemma countP_commands (reqs : List (DeviceId × StoreSyncCommand HeaderId Header))
    (p : DeviceId) : (commands reqs : List (Sent StoreId H HeaderId Header T)).countP
      (Sent.isCommandTo p) = (reqs.map Prod.fst).count p := by
  induction reqs with
  | nil => rfl
  | cons r reqs ih =>
    have hcons : (commands (r :: reqs) : List (Sent StoreId H HeaderId Header T)) =
        .command r.1 r.2 :: commands reqs := rfl
    rw [hcons, List.countP_cons, ih, List.map_cons, List.count_cons]
    simp [Sent.isCommandTo]

lemma tracks_sendSyncRequests {rng : Rng} (h : s.sendSyncRequests rng = .ok s') :
    s.Tracks s' := by
  obtain ⟨reqs, peers, hreqs, rfl, hpeers⟩ := sendSyncRequests_ok h
  obtain ⟨hnodup, hready⟩ := ready_of_syncRequests hreqs
  refine ⟨commands reqs, rfl, fun L hL p => ?_⟩
  have hout : (L.add (commands reqs : List (Sent StoreId H HeaderId Header T))).outgoing p =
      L.outgoing p := by
    refine Nat.add_eq_left.mpr (List.countP_eq_zero.mpr fun m hm => ?_)
    obtain ⟨r, -, rfl⟩ := List.mem_map.mp hm
    simp [Sent.spawnsOutgoing]
  have hin : (L.add (commands reqs : List (Sent StoreId H HeaderId Header T))).incoming p =
      L.incoming p := by
    refine Nat.add_eq_left.mpr (List.countP_eq_zero.mpr fun m hm => ?_)
    obtain ⟨r, -, rfl⟩ := List.mem_map.mp hm
    simp [Sent.spawnsIncoming]
  have hbusy : (L.add (commands reqs : List (Sent StoreId H HeaderId Header T))).busy p =
      L.busy p + if p ∈ reqs.map Prod.fst then 1 else 0 := by
    show L.busy p + _ = _
    rw [countP_commands, hnodup.count]
  have hagree := hL p
  show AgreesAt peers[p]? _ p
  rw [hpeers p]
  by_cases hmem : p ∈ reqs.map Prod.fst
  · obtain ⟨info, hp, hd⟩ := hready p hmem
    rw [hp] at hagree ⊢
    obtain ⟨hi, ho⟩ := hagree
    rw [hd] at ho
    rw [if_pos hmem] at hbusy ⊢
    have hfree : L.busy p = 0 := ho.2
    refine ⟨by rw [hin]; exact hi, by rw [hout]; exact ho.1, ?_⟩
    rw [hbusy, hfree]
    rfl
  · rw [if_neg hmem] at hbusy ⊢
    exact hagree.congr hout hin hbusy

/-! ### The commands of tasks -/

/-- The ledger with one more request in flight. -/
def moreBusy (L : Ledger) (peer : DeviceId) : Ledger :=
  { L with busy := Function.update L.busy peer (L.busy peer + 1) }

def moreOutgoing (L : Ledger) (peer : DeviceId) : Ledger :=
  { L with outgoing := Function.update L.outgoing peer (L.outgoing peer + 1) }

def moreIncoming (L : Ledger) (peer : DeviceId) : Ledger :=
  { L with incoming := Function.update L.incoming peer (L.incoming peer + 1) }

lemma ready_of_busy (h : Agrees s.peers (moreBusy L peer)) :
    ∃ s', s.updateOutgoingPeerToReady peer = .ok s' ∧ s'.sent = s.sent ∧ Agrees s'.peers L := by
  have hagree := h peer
  have hbusy : (moreBusy L peer).busy peer = L.busy peer + 1 := Function.update_self _ _ _
  cases hp : s.peers[peer]? with
  | none =>
    rw [hp] at hagree
    have := hagree.2.2
    omega
  | some info =>
    rw [hp] at hagree
    obtain ⟨hi, ho⟩ := hagree
    cases hd : info.outgoingStatus with
    | known => rw [hd] at ho; have := ho.2; omega
    | initializing => rw [hd] at ho; have := ho.2; omega
    | syncing o =>
      rw [hd, hbusy] at ho
      obtain ⟨ho, hb⟩ := ho
      obtain ⟨b⟩ := o
      have hfree : L.busy peer = 0 := by cases b <;> simp_all
      refine ⟨_, updateOutgoingPeerToReady_eq hp hd, by simp [AfterPeers], ?_⟩
      refine agrees_insert h (fun p hne => ⟨rfl, rfl, ?_⟩) ⟨hi, ho, hfree⟩
      exact (Function.update_of_ne hne _ _).symm

lemma syncing_of_outgoing (h : Agrees s.peers (moreOutgoing L peer)) : ∃ info s',
    s.peers[peer]? = some info ∧ info.outgoingStatus = .initializing ∧
      s.updatePeerToSyncing peer PeerInfo.outgoing ⟨false⟩ = .ok s' ∧ s'.sent = s.sent ∧
      Agrees s'.peers L := by
  have hagree := h peer
  have hout : (moreOutgoing L peer).outgoing peer = L.outgoing peer + 1 :=
    Function.update_self _ _ _
  cases hp : s.peers[peer]? with
  | none =>
    rw [hp] at hagree
    have := hagree.1
    omega
  | some info =>
    rw [hp] at hagree
    obtain ⟨hi, ho⟩ := hagree
    cases hd : info.outgoingStatus with
    | known => rw [hd] at ho; have := ho.1; omega
    | syncing o => rw [hd] at ho; have := ho.1; omega
    | initializing =>
      rw [hd, hout] at ho
      obtain ⟨ho, hb⟩ := ho
      refine ⟨info, _, rfl, hd, updatePeerToSyncing_eq hp hd, by simp [AfterPeers], ?_⟩
      refine agrees_insert h (fun p hne => ⟨?_, rfl, rfl⟩) ⟨hi, by omega, hb⟩
      exact (Function.update_of_ne hne _ _).symm

lemma syncing_of_incoming (h : Agrees s.peers (moreIncoming L peer)) : ∃ info s',
    s.peers[peer]? = some info ∧ info.incomingStatus = .initializing ∧
      s.updatePeerToSyncing peer PeerInfo.incoming () = .ok s' ∧ s'.sent = s.sent ∧
      Agrees s'.peers L := by
  have hagree := h peer
  have hin : (moreIncoming L peer).incoming peer = L.incoming peer + 1 :=
    Function.update_self _ _ _
  cases hp : s.peers[peer]? with
  | none =>
    rw [hp] at hagree
    have := hagree.2.1
    omega
  | some info =>
    rw [hp] at hagree
    obtain ⟨hi, ho⟩ := hagree
    cases hd : info.incomingStatus with
    | known =>
      rw [hd] at hi
      have : (moreIncoming L peer).incoming peer = 0 := hi
      omega
    | syncing o =>
      rw [hd] at hi
      have : (moreIncoming L peer).incoming peer = 0 := hi
      omega
    | initializing =>
      rw [hd, hin] at hi
      have hle : L.incoming peer + 1 ≤ 1 := hi
      refine ⟨info, _, rfl, hd, updatePeerToSyncing_eq hp hd, by simp [AfterPeers], ?_⟩
      have hzero : L.incoming peer = 0 := by omega
      refine agrees_insert h (fun p hne => ⟨rfl, ?_, rfl⟩) ⟨hzero, ho⟩
      exact (Function.update_of_ne hne _ _).symm

/-! ### How far peers have come -/

/-- Every peer is as far as before. -/
def SameRanks (s s' : State StoreId H HeaderId Header T) : Prop :=
  ∀ p : DeviceId, rankOf PeerInfo.incoming s'.peers[p]? = rankOf PeerInfo.incoming s.peers[p]? ∧
    rankOf PeerInfo.outgoing s'.peers[p]? = rankOf PeerInfo.outgoing s.peers[p]?

/-- Every peer is as far as before in both directions, or one step further. -/
def Advances (s s' : State StoreId H HeaderId Header T) : Prop :=
  ∀ p : DeviceId, (rankOf PeerInfo.incoming s'.peers[p]? = rankOf PeerInfo.incoming s.peers[p]? ∨
      rankOf PeerInfo.incoming s'.peers[p]? = rankOf PeerInfo.incoming s.peers[p]? + 1) ∧
    (rankOf PeerInfo.outgoing s'.peers[p]? = rankOf PeerInfo.outgoing s.peers[p]? ∨
      rankOf PeerInfo.outgoing s'.peers[p]? = rankOf PeerInfo.outgoing s.peers[p]? + 1)

lemma SameRanks.refl (s : State StoreId H HeaderId Header T) : s.SameRanks s :=
  fun _ => ⟨rfl, rfl⟩

lemma SameRanks.trans (h : s.SameRanks s') (h' : s'.SameRanks s'') : s.SameRanks s'' :=
  fun p => ⟨(h' p).1.trans (h p).1, (h' p).2.trans (h p).2⟩

lemma SameRanks.advances (h : s.SameRanks s') : s.Advances s' :=
  fun p => ⟨Or.inl (h p).1, Or.inl (h p).2⟩

lemma SameRanks.trans_advances (h : s.SameRanks s') (h' : s'.Advances s'') : s.Advances s'' := by
  intro p
  rw [← (h p).1, ← (h p).2]
  exact h' p

lemma Advances.trans_sameRanks (h : s.Advances s') (h' : s'.SameRanks s'') : s.Advances s'' := by
  intro p
  rw [(h' p).1, (h' p).2]
  exact h p

lemma sameRanks_of_peers (h : s'.peers = s.peers) : s.SameRanks s' := fun p => by
  rw [h]
  exact ⟨rfl, rfl⟩

lemma rankOf_insert {A : Type} {d : PeerInfo.Direction A} {peers : BTreeMap DeviceId PeerInfo}
    {info : PeerInfo} : rankOf d (peers.insert peer info)[p]? =
      if p = peer then (d.get info).rank else rankOf d peers[p]? := by
  rw [get_insert]
  split_ifs <;> rfl

lemma sameRanks_insert {info info' : PeerInfo} {l : List (Sent StoreId H HeaderId Header T)}
    (hp : s.peers[peer]? = some info) (hi : info'.incomingStatus.rank = info.incomingStatus.rank)
    (ho : info'.outgoingStatus.rank = info.outgoingStatus.rank) :
    s.SameRanks (s.AfterPeers (s.peers.insert peer info') l) := by
  intro p
  have hrank : ∀ {A : Type} (d : PeerInfo.Direction A), (d.get info').rank = (d.get info).rank →
      rankOf d (s.peers.insert peer info')[p]? = rankOf d s.peers[p]? := fun d hd => by
    rw [rankOf_insert]
    split_ifs with heq
    · rw [heq, hp, hd]
      rfl
    · rfl
  exact ⟨hrank _ hi, hrank _ ho⟩

lemma sameRanks_updateOutgoingPeerToReady (h : s.updateOutgoingPeerToReady peer = .ok s') :
    s.SameRanks s' := by
  obtain ⟨info, b, hp, hd, rfl⟩ := updateOutgoingPeerToReady_ok h
  exact sameRanks_insert hp rfl (by rw [hd]; rfl)

lemma sameRanks_sendSyncRequests {rng : Rng} (h : s.sendSyncRequests rng = .ok s') :
    s.SameRanks s' := by
  obtain ⟨reqs, peers, hreqs, rfl, hpeers⟩ := sendSyncRequests_ok h
  obtain ⟨-, hready⟩ := ready_of_syncRequests hreqs
  intro p
  show rankOf _ peers[p]? = _ ∧ rankOf _ peers[p]? = _
  rw [hpeers p]
  split_ifs with hmem
  · obtain ⟨info, hp, hd⟩ := hready p hmem
    rw [hp]
    refine ⟨rfl, ?_⟩
    show _ = info.outgoingStatus.rank
    rw [hd]
    rfl
  · exact ⟨rfl, rfl⟩

lemma sameRanks_insertKnownPeer (s : State StoreId H HeaderId Header T) (peer : DeviceId) :
    s.SameRanks (s.insertKnownPeer peer) := by
  unfold insertKnownPeer
  split_ifs with hc
  · exact .refl s
  · have hnone : s.peers[peer]? = none := by simpa using hc
    intro p
    show rankOf _ (s.peers.insert peer _)[p]? = _ ∧ rankOf _ (s.peers.insert peer _)[p]? = _
    rw [rankOf_insert, rankOf_insert]
    split_ifs with heq
    · rw [heq, hnone]
      exact ⟨rfl, rfl⟩
    · exact ⟨rfl, rfl⟩

lemma sameRanks_insertKnownPeers (peers : List DeviceId) :
    s.SameRanks (peers.foldl insertKnownPeer s) := by
  induction peers generalizing s with
  | nil => exact .refl s
  | cons p peers ih => exact (sameRanks_insertKnownPeer s p).trans ih

lemma advances_insert {info info' : PeerInfo} (hp : s.peers[peer]? = some info)
    (hi : info'.incomingStatus.rank = info.incomingStatus.rank ∨
      info'.incomingStatus.rank = info.incomingStatus.rank + 1)
    (ho : info'.outgoingStatus.rank = info.outgoingStatus.rank ∨
      info'.outgoingStatus.rank = info.outgoingStatus.rank + 1) :
    s.Advances (s.AfterPeers (s.peers.insert peer info') []) := by
  intro p
  have hrank : ∀ {A : Type} (d : PeerInfo.Direction A),
      ((d.get info').rank = (d.get info).rank ∨ (d.get info').rank = (d.get info).rank + 1) →
      (rankOf d (s.peers.insert peer info')[p]? = rankOf d s.peers[p]? ∨
        rankOf d (s.peers.insert peer info')[p]? = rankOf d s.peers[p]? + 1) := fun d hd => by
    rw [rankOf_insert]
    split_ifs with heq
    · rw [heq, hp]
      exact hd
    · exact Or.inl rfl
  exact ⟨hrank _ hi, hrank _ ho⟩

lemma advances_updatePeerToSyncing_outgoing {a : OutgoingPeerStatus}
    (h : s.updatePeerToSyncing peer PeerInfo.outgoing a = .ok s') : s.Advances s' := by
  obtain ⟨info, hp, hd, rfl⟩ := updatePeerToSyncing_ok h
  refine advances_insert hp (Or.inl rfl) (Or.inr ?_)
  rw [show info.outgoingStatus = .initializing from hd]
  rfl

lemma advances_updatePeerToSyncing_incoming
    (h : s.updatePeerToSyncing peer PeerInfo.incoming () = .ok s') : s.Advances s' := by
  obtain ⟨info, hp, hd, rfl⟩ := updatePeerToSyncing_ok h
  refine advances_insert hp (Or.inr ?_) (Or.inl rfl)
  rw [show info.incomingStatus = .initializing from hd]
  rfl

lemma advances_syncWithPeer {chan : Chan} (h : s.syncWithPeer peer chan = .ok s') :
    s.Advances s' := by
  obtain ⟨info, hinfo, h⟩ := bind_eq_ok.mp h
  refine (sameRanks_insertKnownPeer s peer).trans_advances ?_
  split_ifs at h with hk
  · obtain ⟨s₁, hs₁, heq⟩ := bind_eq_ok.mp h
    cases heq
    obtain ⟨info', hp, hd, rfl⟩ := updatePeerToInitializing_ok hs₁
    have hadvances : (s.insertKnownPeer peer).Advances ((s.insertKnownPeer peer).AfterPeers
        ((s.insertKnownPeer peer).peers.insert peer
          (PeerInfo.incoming.set info' .initializing)) []) := by
      refine advances_insert hp (Or.inr ?_) (Or.inl rfl)
      rw [show info'.incomingStatus = .known from hd]
      rfl
    exact hadvances.trans_sameRanks (sameRanks_of_peers rfl)
  · cases h
    exact (sameRanks_of_peers rfl).advances

lemma advances_managePeers [Hash H] {into : H → StoreId} {connected : DeviceId → Bool}
    (h : s.managePeers into connected = .ok s') : s.Advances s' := by
  have hstep : ∀ p : DeviceId,
      rankOf PeerInfo.incoming s'.peers[p]? = rankOf PeerInfo.incoming s.peers[p]? ∧
      (rankOf PeerInfo.outgoing s'.peers[p]? = rankOf PeerInfo.outgoing s.peers[p]? ∨
        rankOf PeerInfo.outgoing s.peers[p]? = 0 ∧ rankOf PeerInfo.outgoing s'.peers[p]? = 1) := by
    refine foldlM_invariant (I := fun t : State StoreId H HeaderId Header T => ∀ p : DeviceId,
      rankOf PeerInfo.incoming t.peers[p]? = rankOf PeerInfo.incoming s.peers[p]? ∧
      (rankOf PeerInfo.outgoing t.peers[p]? = rankOf PeerInfo.outgoing s.peers[p]? ∨
        rankOf PeerInfo.outgoing s.peers[p]? = 0 ∧ rankOf PeerInfo.outgoing t.peers[p]? = 1))
      h (fun p => ⟨rfl, Or.inl rfl⟩) fun t t' q _ hI hstep p => ?_
    obtain ⟨t₁, ht₁, heq⟩ := bind_eq_ok.mp hstep
    cases heq
    obtain ⟨info, hp, hd, rfl⟩ := updatePeerToInitializing_ok ht₁
    obtain ⟨hin, hout⟩ := hI p
    show rankOf _ (t.peers.insert q _)[p]? = _ ∧ (rankOf _ (t.peers.insert q _)[p]? = _ ∨
      _ ∧ rankOf _ (t.peers.insert q _)[p]? = _)
    rw [rankOf_insert, rankOf_insert]
    by_cases heq : p = q
    · subst heq
      have hzero : rankOf PeerInfo.outgoing t.peers[p]? = 0 := by
        rw [hp]
        show (PeerInfo.outgoing.get info).rank = 0
        rw [hd]
        rfl
      rw [if_pos rfl, if_pos rfl]
      refine ⟨?_, Or.inr ⟨?_, rfl⟩⟩
      · rw [← hin, hp]
        rfl
      · omega
    · rw [if_neg heq, if_neg heq]
      exact ⟨hin, hout⟩
  intro p
  obtain ⟨hin, hout⟩ := hstep p
  refine ⟨Or.inl hin, ?_⟩
  omega

/-! ### No status is unexpected -/

lemma exists_managePeers [Hash H] (into : H → StoreId) (connected : DeviceId → Bool)
    (s : State StoreId H HeaderId Header T) : ∃ s', s.managePeers into connected = .ok s' := by
  have hfold : ∀ (l : List DeviceId) (t : State StoreId H HeaderId Header T), l.Nodup →
      (∀ p ∈ l, ∃ info, t.peers[p]? = some info ∧ info.outgoingStatus = .known) →
      ∃ t', l.foldlM (fun s peer => do
        let s ← s.updatePeerToInitializing peer PeerInfo.outgoing
        pure (s.send (.requestStoreSync peer (s.stateMachine.storeId into)))) t = .ok t' := by
    intro l
    induction l with
    | nil => exact fun t _ _ => ⟨t, rfl⟩
    | cons p l ih =>
      intro t hnodup hknown
      obtain ⟨hn, hnodup⟩ := List.nodup_cons.mp hnodup
      obtain ⟨info, hp, hd⟩ := hknown p List.mem_cons_self
      rw [List.foldlM_cons, updatePeerToInitializing_eq hp hd, ok_bind, pure_eq_ok, ok_bind]
      refine ih _ hnodup fun q hq => ?_
      obtain ⟨info', hq', hd'⟩ := hknown q (List.mem_cons_of_mem _ hq)
      have hne : q ≠ p := by
        rintro rfl
        exact hn hq
      exact ⟨info', (get_insert.trans (if_neg hne)).trans hq', hd'⟩
  refine hfold _ s ?_ fun p hp => ?_
  · exact (((nodup_keys s.peers).sublist (List.filter_sublist.map _))).filter _
  · obtain ⟨hp, -⟩ := List.mem_filter.mp hp
    obtain ⟨⟨q, info⟩, hmem, rfl⟩ := List.mem_map.mp hp
    obtain ⟨hmem, hknown⟩ := List.mem_filter.mp hmem
    refine ⟨info, mem_toList.mp hmem, ?_⟩
    cases hd : info.outgoingStatus with
    | known => rfl
    | initializing => simp [hd, PeerStatus.isKnown] at hknown
    | syncing o => simp [hd, PeerStatus.isKnown] at hknown

/-- What is known of a peer once it asked to sync. -/
def infoOf (s : State StoreId H HeaderId Header T) (peer : DeviceId) : PeerInfo :=
  s.peers[peer]?.getD ⟨.known, .known⟩

lemma syncWithPeer_of_known (chan : Chan) (h : (s.infoOf peer).incomingStatus = .known) :
    s.syncWithPeer peer chan = .ok (s.AfterPeers
      (s.peers.insert peer (PeerInfo.incoming.set (s.infoOf peer) .initializing))
      [.syncResponse chan (some peer)]) := by
  have hget : (s.insertKnownPeer peer).peers[peer]? = some (s.infoOf peer) := by
    unfold insertKnownPeer infoOf
    split_ifs with hc
    · obtain ⟨info, hinfo⟩ := contains_iff.mp hc
      rw [hinfo]
      rfl
    · have hnone : s.peers[peer]? = none := by simpa using hc
      rw [hnone]
      exact get_insert.trans (if_pos rfl)
  have hinsert : (s.insertKnownPeer peer).AfterPeers ((s.insertKnownPeer peer).peers.insert peer
      (PeerInfo.incoming.set (s.infoOf peer) .initializing)) [] = s.AfterPeers (s.peers.insert peer
        (PeerInfo.incoming.set (s.infoOf peer) .initializing)) [] := by
    unfold insertKnownPeer
    split_ifs with hc
    · rfl
    · exact congrArg (fun peers => s.AfterPeers peers []) (insert_insert _ _ _ _)
  unfold syncWithPeer
  dsimp only
  rw [hget, orFault_some, ok_bind, h, if_pos (show PeerStatus.isKnown .known = true from rfl),
    updatePeerToInitializing_eq hget h, hinsert, ok_bind, pure_eq_ok]
  simp [AfterPeers, State.send]

/-- The peer with its incoming status syncing. -/
def synced (s : State StoreId H HeaderId Header T) (peer : DeviceId)
    (l : List (Sent StoreId H HeaderId Header T)) : State StoreId H HeaderId Header T :=
  s.AfterPeers (s.peers.insert peer (PeerInfo.incoming.set (s.infoOf peer) (.syncing ()))) l

lemma updatePeerToSyncing_of_initializing (l : List (Sent StoreId H HeaderId Header T)) :
    (s.AfterPeers (s.peers.insert peer (PeerInfo.incoming.set (s.infoOf peer) .initializing))
      l).updatePeerToSyncing peer PeerInfo.incoming () = .ok (s.synced peer l) := by
  refine (updatePeerToSyncing_eq (get_insert.trans (if_pos rfl)) rfl).trans ?_
  simp only [AfterPeers, List.append_nil, insert_insert]
  rfl

lemma syncWithPeer_of_ne (chan : Chan) (h : (s.infoOf peer).incomingStatus ≠ .known) :
    s.syncWithPeer peer chan = .ok (s.AfterPeers s.peers [.syncResponse chan none]) := by
  unfold infoOf at h
  cases hp : s.peers[peer]? with
  | none =>
    rw [hp] at h
    exact absurd rfl h
  | some info =>
    rw [hp] at h
    have hself : s.insertKnownPeer peer = s := if_pos (contains_iff.mpr ⟨info, hp⟩)
    have hbusy : info.incomingStatus.isKnown = false := by
      cases hd : info.incomingStatus with
      | known => exact absurd hd h
      | initializing => rfl
      | syncing o => rfl
    unfold syncWithPeer
    dsimp only
    rw [hself, hp, orFault_some, ok_bind, hbusy, if_neg Bool.false_ne_true]
    rfl

lemma exists_syncWithPeer (s : State StoreId H HeaderId Header T) (peer : DeviceId)
    (chan : Chan) : ∃ s', s.syncWithPeer peer chan = .ok s' := by
  by_cases h : (s.infoOf peer).incomingStatus = .known
  · exact ⟨_, syncWithPeer_of_known chan h⟩
  · exact ⟨_, syncWithPeer_of_ne chan h⟩

end State

end Ossa.Store
