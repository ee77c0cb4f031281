import Ossa.StoreHandler

/-!
What the handler does to its peers, and what it asks of them.

Each function of this part leaves the phase and the subscribers alone; the requests a store
sends go to distinct peers that were ready, one to each, and mark them.
-/

namespace Ossa.Store

open Ossa.Loop Ossa.Util Ossa.Collections Ossa.Ecg

variable {StoreId H HeaderId Header Body T Op : Type} [LinearOrder HeaderId]

namespace State

variable {s s' : State StoreId H HeaderId Header T} {peer p : DeviceId}

/-- Only the peers changed, and messages were sent. -/
def AfterPeers (s : State StoreId H HeaderId Header T) (peers : BTreeMap DeviceId PeerInfo)
    (l : List (Sent StoreId H HeaderId Header T)) : State StoreId H HeaderId Header T :=
  { s with peers := peers, sent := s.sent ++ l }

@[simp] lemma send_peers (m : Sent StoreId H HeaderId Header T) : (s.send m).peers = s.peers := rfl

@[simp] lemma send_stateMachine (m : Sent StoreId H HeaderId Header T) :
    (s.send m).stateMachine = s.stateMachine := rfl

lemma afterPeers_self : s.AfterPeers s.peers [] = s := by
  rw [AfterPeers, List.append_nil]

lemma afterPeers_afterPeers (peers peers' : BTreeMap DeviceId PeerInfo)
    (l l' : List (Sent StoreId H HeaderId Header T)) :
    (s.AfterPeers peers l).AfterPeers peers' l' = s.AfterPeers peers' (l ++ l') := by
  simp only [AfterPeers, List.append_assoc]

/-! ### The status of one peer -/

lemma updatePeerToInitializing_ok {A : Type} {d : PeerInfo.Direction A}
    (h : s.updatePeerToInitializing peer d = .ok s') : ∃ info, s.peers[peer]? = some info ∧
      d.get info = .known ∧ s' = s.AfterPeers (s.peers.insert peer (d.set info .initializing)) [] := by
  unfold updatePeerToInitializing at h
  cases hp : s.peers[peer]? with
  | none => simp only [hp] at h; cases h
  | some info =>
    simp only [hp] at h
    cases hd : d.get info with
    | known =>
      simp only [hd] at h
      cases h
      exact ⟨info, rfl, hd, by simp [AfterPeers]⟩
    | initializing => simp only [hd] at h; cases h
    | syncing a => simp only [hd] at h; cases h

lemma updatePeerToInitializing_eq {A : Type} {d : PeerInfo.Direction A} {info : PeerInfo}
    (hp : s.peers[peer]? = some info) (hd : d.get info = .known) :
    s.updatePeerToInitializing peer d =
      .ok (s.AfterPeers (s.peers.insert peer (d.set info .initializing)) []) := by
  simp [updatePeerToInitializing, hp, hd, AfterPeers]

lemma updatePeerToSyncing_ok {A : Type} {d : PeerInfo.Direction A} {a : A}
    (h : s.updatePeerToSyncing peer d a = .ok s') : ∃ info, s.peers[peer]? = some info ∧
      d.get info = .initializing ∧
      s' = s.AfterPeers (s.peers.insert peer (d.set info (.syncing a))) [] := by
  unfold updatePeerToSyncing at h
  cases hp : s.peers[peer]? with
  | none => simp only [hp] at h; cases h
  | some info =>
    simp only [hp] at h
    cases hd : d.get info with
    | known => simp only [hd] at h; cases h
    | initializing =>
      simp only [hd] at h
      cases h
      exact ⟨info, rfl, hd, by simp [AfterPeers]⟩
    | syncing a => simp only [hd] at h; cases h

lemma updatePeerToSyncing_eq {A : Type} {d : PeerInfo.Direction A} {a : A} {info : PeerInfo}
    (hp : s.peers[peer]? = some info) (hd : d.get info = .initializing) :
    s.updatePeerToSyncing peer d a =
      .ok (s.AfterPeers (s.peers.insert peer (d.set info (.syncing a))) []) := by
  simp [updatePeerToSyncing, hp, hd, AfterPeers]

/-- The peer with its outgoing status syncing. -/
def setOutstanding (b : Bool) (info : PeerInfo) : PeerInfo :=
  { info with outgoingStatus := .syncing ⟨b⟩ }

/-- We sync with the peer, with or without an outstanding request. -/
def Running (s : State StoreId H HeaderId Header T) (peer : DeviceId) (b : Bool) : Prop :=
  ∃ info, s.peers[peer]? = some info ∧ info.outgoingStatus = .syncing ⟨b⟩

lemma updateOutgoingPeerToReady_ok (h : s.updateOutgoingPeerToReady peer = .ok s') :
    ∃ info b, s.peers[peer]? = some info ∧ info.outgoingStatus = .syncing ⟨b⟩ ∧
      s' = s.AfterPeers (s.peers.insert peer (setOutstanding false info)) [] := by
  unfold updateOutgoingPeerToReady at h
  cases hp : s.peers[peer]? with
  | none => simp only [hp] at h; cases h
  | some info =>
    simp only [hp] at h
    cases hd : info.outgoingStatus with
    | known => simp only [hd] at h; cases h
    | initializing => simp only [hd] at h; cases h
    | syncing o =>
      simp only [hd] at h
      cases h
      exact ⟨info, o.isOutstanding, rfl, hd, by simp [AfterPeers, setOutstanding]⟩

lemma updateOutgoingPeerToReady_eq {b : Bool} {info : PeerInfo} (hp : s.peers[peer]? = some info)
    (hd : info.outgoingStatus = .syncing ⟨b⟩) :
    s.updateOutgoingPeerToReady peer =
      .ok (s.AfterPeers (s.peers.insert peer (setOutstanding false info)) []) := by
  simp [updateOutgoingPeerToReady, hp, hd, AfterPeers, setOutstanding]

/-! ### The requests of a round -/

lemma mem_readyPeers : peer ∈ s.readyPeers ↔ s.Running peer false := by
  rw [readyPeers, List.mem_map]
  constructor
  · rintro ⟨⟨q, info⟩, hmem, rfl⟩
    obtain ⟨hmem, hready⟩ := List.mem_filter.mp hmem
    refine ⟨info, mem_toList.mp hmem, ?_⟩
    unfold PeerInfo.isReadyForSync at hready
    cases hd : info.outgoingStatus with
    | known => simp [hd] at hready
    | initializing => simp [hd] at hready
    | syncing o =>
      obtain ⟨b⟩ := o
      simpa [hd] using hready
  · rintro ⟨info, hp, hd⟩
    exact ⟨(peer, info), List.mem_filter.mpr ⟨mem_toList.mpr hp, by
      simp [PeerInfo.isReadyForSync, hd]⟩, rfl⟩

lemma nodup_readyPeers (s : State StoreId H HeaderId Header T) : s.readyPeers.Nodup :=
  (nodup_keys s.peers).sublist (List.filter_sublist.map _)

lemma map_fst_zip_eq_take {α β : Type} (l : List α) (m : List β) :
    (l.zip m).map Prod.fst = l.take m.length := by
  induction l generalizing m with
  | nil => simp
  | cons a l ih =>
    cases m with
    | nil => simp
    | cons b m => simp [ih]

lemma keys_syncRequests {rng : Rng} {reqs : List (DeviceId × StoreSyncCommand HeaderId Header)}
    (h : s.syncRequests rng = .ok reqs) :
    ∃ n, reqs.map Prod.fst = (rng.shufflePeers s.readyPeers).take n := by
  unfold syncRequests at h
  simp only at h
  split at h
  · cases h
    exact ⟨1, by simp [Function.comp_def]⟩
  · split_ifs at h
    cases h
    exact ⟨_, map_fst_zip_eq_take _ _⟩
  · split_ifs at h
    cases h
    exact ⟨_, map_fst_zip_eq_take _ _⟩
  · cases h
    refine ⟨(rng.shufflePeers s.readyPeers).length, ?_⟩
    rw [List.take_length, List.map_map]
    simp [Function.comp_def]

lemma ready_of_syncRequests {rng : Rng} {reqs : List (DeviceId × StoreSyncCommand HeaderId Header)}
    (h : s.syncRequests rng = .ok reqs) :
    (reqs.map Prod.fst).Nodup ∧ ∀ p ∈ reqs.map Prod.fst, s.Running p false := by
  obtain ⟨n, hn⟩ := keys_syncRequests h
  have hperm := rng.perm_peers s.readyPeers
  rw [hn]
  refine ⟨(hperm.nodup_iff.mpr s.nodup_readyPeers).sublist (List.take_sublist _ _), fun p hp => ?_⟩
  exact mem_readyPeers.mp (hperm.mem_iff.mp (List.mem_of_mem_take hp))

/-- The messages of a round of requests. -/
def commands (reqs : List (DeviceId × StoreSyncCommand HeaderId Header)) :
    List (Sent StoreId H HeaderId Header T) :=
  reqs.map fun r => .command r.1 r.2

lemma sendCommands_spec (reqs : List (DeviceId × StoreSyncCommand HeaderId Header))
    (s : State StoreId H HeaderId Header T)
    (hr : ∀ p ∈ reqs.map Prod.fst, ∃ b, s.Running p b) :
    ∃ peers, reqs.foldlM (fun s r => s.sendCommand r.1 r.2) s =
        .ok (s.AfterPeers peers (commands reqs)) ∧
      ∀ p, peers[p]? = if p ∈ reqs.map Prod.fst then (s.peers[p]?).map (setOutstanding true)
        else s.peers[p]? := by
  induction reqs generalizing s with
  | nil => exact ⟨s.peers, by rw [commands, List.map_nil, afterPeers_self]; rfl, by simp⟩
  | cons r reqs ih =>
    obtain ⟨b, info, hp, hd⟩ := hr r.1 (by simp)
    have hsend : s.sendCommand r.1 r.2 = .ok (s.AfterPeers
        (s.peers.insert r.1 (setOutstanding true info)) [.command r.1 r.2]) := by
      obtain ⟨incomingStatus, outgoingStatus⟩ := info
      simp only at hd
      subst hd
      simp only [sendCommand, hp]
      rfl
    have hget : ∀ p, (s.AfterPeers (s.peers.insert r.1 (setOutstanding true info))
        [.command r.1 r.2]).peers[p]? = if p = r.1 then some (setOutstanding true info)
          else s.peers[p]? := fun p => get_insert
    obtain ⟨peers, hfold, hpeers⟩ := ih (s.AfterPeers
      (s.peers.insert r.1 (setOutstanding true info)) [.command r.1 r.2]) (fun p hp' => by
        by_cases heq : p = r.1
        · exact ⟨true, _, (hget p).trans (if_pos heq), rfl⟩
        · obtain ⟨b', info', hp₁, hd₁⟩ := hr p (by simp [hp'])
          exact ⟨b', info', (hget p).trans ((if_neg heq).trans hp₁), hd₁⟩)
    refine ⟨peers, ?_, fun p => ?_⟩
    · rw [List.foldlM_cons, hsend, ok_bind, hfold, afterPeers_afterPeers]
      rfl
    · rw [hpeers p, hget p, List.map_cons]
      by_cases heq : p = r.1
      · subst heq
        by_cases hmem : r.1 ∈ reqs.map Prod.fst
        · simp [hmem, hp, setOutstanding]
        · simp [hmem, hp]
      · simp only [heq, if_false, List.mem_cons, false_or]

/-- **A round of requests** is sent to distinct ready peers, which are marked. -/
theorem sendSyncRequests_spec {rng : Rng}
    {reqs : List (DeviceId × StoreSyncCommand HeaderId Header)}
    (h : s.syncRequests rng = .ok reqs) : ∃ peers,
      s.sendSyncRequests rng = .ok (s.AfterPeers peers (commands reqs)) ∧
      ∀ p, peers[p]? = if p ∈ reqs.map Prod.fst then (s.peers[p]?).map (setOutstanding true)
        else s.peers[p]? := by
  obtain ⟨-, hready⟩ := ready_of_syncRequests h
  obtain ⟨peers, hfold, hpeers⟩ := sendCommands_spec reqs s fun p hp => ⟨false, hready p hp⟩
  exact ⟨peers, by rw [sendSyncRequests, h, ok_bind, hfold], hpeers⟩

lemma sendSyncRequests_ok {rng : Rng} (h : s.sendSyncRequests rng = .ok s') :
    ∃ reqs peers, s.syncRequests rng = .ok reqs ∧ s' = s.AfterPeers peers (commands reqs) ∧
      ∀ p, peers[p]? = if p ∈ reqs.map Prod.fst then (s.peers[p]?).map (setOutstanding true)
        else s.peers[p]? := by
  obtain ⟨reqs, hreqs, -⟩ := bind_eq_ok.mp h
  obtain ⟨peers, heq, hpeers⟩ := sendSyncRequests_spec hreqs
  rw [heq] at h
  cases h
  exact ⟨reqs, peers, hreqs, rfl, hpeers⟩

end State

end Ossa.Store
