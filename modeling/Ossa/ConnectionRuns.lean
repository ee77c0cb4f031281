import Ossa.ConnectionTalk

/-!
Runs of a connection.

Whatever the order in which both sides act, setting up the streams never fails, it comes to an
end, and then every store that runs on both sides has a stream in each direction.
-/

namespace Ossa.Connection

open Ossa.Loop Ossa.Util Ossa.Collections Ossa.Ecg Ossa.Crdt Ossa.Network Ossa.Store Ossa.Manager

variable {StoreId H HeaderId Header Body T Op D : Type} [LinearOrder StoreId]
variable [LinearOrder HeaderId]

namespace Event

def isLaunch : Event StoreId H HeaderId Header Body T → Bool
  | .launch _ _ _ => true
  | _ => false

def isCommand : Event StoreId H HeaderId Header Body T → Bool
  | .command _ _ _ => true
  | _ => false

omit [LinearOrder StoreId] in
lemma isCommand_of_isSetUp {ev : Event StoreId H HeaderId Header Body T}
    (h : ev.isSetUp = true) : ev.isCommand = false := by
  cases ev with
  | command _ _ _ => cases h
  | _ => rfl

/-- What an event relies on: the stores that are launched are among the given ones and were told
of nobody, and no two of these have the same hash in a round of advertising. -/
def Regular [StoreBytes StoreId] [Hash H] (D : Type) [Hash D] (into : H → StoreId)
    (ids : List StoreId) : Event StoreId H HeaderId Header Body T → Prop
  | .launch storeId _ handler => storeId ∈ ids ∧ Node.Fresh into storeId handler
  | .advertise nonce => CollisionFree D nonce ids
  | _ => True

end Event

variable [Hash H] [StoreBytes StoreId] [Hash D]
variable {OT : OssaType StoreId H HeaderId Body T Op} {device : Party → DeviceId}
variable {x x' y y' : Side StoreId H HeaderId Header T D} {φ φ' ψ ψ' : Phase StoreId}
variable {me : Party} {ids : List StoreId} {ev : Event StoreId H HeaderId Header Body T}

/-! ### The managers -/

section Managers

variable {own peer : DeviceId} {into : H → StoreId}

lemma Sound.requests_cases (h : Sound own peer into ids me x y φ ψ)
    (hin : x.inbox (control me.dual) ≠ []) :
    (∃ nonce storeIds, ψ = .advertised nonce storeIds) ∨
      ∃ streamId store, ψ = .requested streamId store := by
  have htalk := h.dir'.talk
  rw [htalk.requests] at hin
  cases ψ with
  | advertised nonce storeIds => exact Or.inl ⟨nonce, storeIds, rfl⟩
  | requested streamId store => exact Or.inr ⟨streamId, store, rfl⟩
  | _ => exact absurd rfl hin

lemma Sound.responses_cases (h : Sound own peer into ids me x y φ ψ)
    (hin : x.inbox (control me) ≠ []) :
    (∃ storeIds haveStores, φ = .shared storeIds haveStores) ∨
      ∃ streamId store, φ = .answered streamId store := by
  have htalk := h.dir.talk
  rw [htalk.responses] at hin
  cases φ with
  | shared storeIds haveStores => exact Or.inl ⟨storeIds, haveStores, rfl⟩
  | answered streamId store => exact Or.inr ⟨streamId, store, rfl⟩
  | _ => exact absurd rfl hin

omit [Hash H] in
lemma Talk.starting_iff {starting : Bool} (h : Talk me x y (.idle starting)) :
    x.initiative = .starting ↔ starting = true := by
  rw [h.initiative, Phase.initiative]
  cases starting <;> simp

omit [Hash H] in
lemma Talk.eq_asked (h : Talk me x y φ) (hasked : y.asked.isSome = true) :
    ∃ streamId store their, φ = .asked streamId store their := by
  rw [h.asked] at hasked
  cases φ with
  | asked streamId store their => exact ⟨streamId, store, their, rfl⟩
  | _ => cases hasked

lemma Sound.exists_nextStreamId (h : Sound own peer into ids me x y φ ψ)
    (hlen : ids.length ≤ MAX_ADVERTISE_STORES) (hne : x.managerChannel ≠ []) :
    ∃ streamId, nextStreamId x.latestStreamId = .ok streamId := by
  have hbudget := h.dir.budget
  have hpos := List.length_pos_of_ne_nil hne
  have hcontrol : (control me).val ≤ 2 := by cases me <;> decide
  have hmax : MAX_ADVERTISE_STORES = 256 := rfl
  exact ⟨_, dif_pos (by omega)⟩

end Managers

/-- **The manager without initiative answers** whatever it is sent. -/
theorem Sound.respond [LinearOrder D] [ECGHeader Header HeaderId]
    (h : Sound (device me) (device me.dual) OT.into ids me x y φ ψ)
    (hin : x.inbox (control me.dual) ≠ []) : ∃ x' y' ψ',
      Connection.respond device me x y = .ok (x', y') ∧
      Sound (device me) (device me.dual) OT.into ids me x' y' φ ψ' ∧
      x'.work ids (device me.dual) φ + y'.work ids (device me) ψ' + 1 ≤
        x.work ids (device me.dual) φ + y.work ids (device me) ψ := by
  have htalk := h.dir'.talk
  obtain ⟨nonce, storeIds, rfl⟩ | ⟨streamId, store, rfl⟩ := h.requests_cases hin
  · obtain ⟨haveStores, found, hrun, hsound, hfound, hshared⟩ := h.answer
    have hphase : y.work ids (device me) (.shared storeIds haveStores) + (2 * ids.length + 2) =
        y.work ids (device me) (.advertised nonce storeIds) +
          ((sharedStores storeIds haveStores).length + 1) :=
      y.work_phase (.shared storeIds haveStores) (.advertised nonce storeIds) rfl
    refine ⟨_, _, _, ?_, hsound, ?_⟩
    · unfold Connection.respond
      rw [take_eq htalk.requests (h.coherent.first me.dual)]
      simp only [ok_bind, MsgManager.toRequest, orFault_some, advertiseRequest, hrun]
      rfl
    · have hwork := x.work_registering (device me.dual) φ ids (x.registering ++ found)
      rw [List.length_append] at hwork
      show Side.work ids (device me.dual) { x with registering := x.registering ++ found } φ +
        y.work ids (device me) (.shared storeIds haveStores) + 1 ≤ _
      omega
  · obtain ⟨chan, hchan, howner, hsound⟩ := h.ask
    refine ⟨_, _, _, ?_, hsound, ?_⟩
    · unfold Connection.respond
      rw [take_eq htalk.requests (h.coherent.first me.dual)]
      simp only [ok_bind, MsgManager.toRequest, orFault_some]
      rw [(isValidStreamId_iff me.dual (device me.dual) streamId).mpr howner]
      simp only [Bool.not_true, Bool.false_eq_true, if_false, hchan]
    · have hphase : y.work ids (device me) (.asked streamId store (store.1, chan)) + 5 =
          y.work ids (device me) (.requested streamId store) + 4 :=
        y.work_phase (.asked streamId store (store.1, chan)) (.requested streamId store) rfl
      show x.work ids (device me.dual) φ +
        y.work ids (device me) (.asked streamId store (store.1, chan)) + 1 ≤ _
      omega

/-- **The manager with initiative takes the answer** to whatever it has asked. -/
theorem Sound.conclude [ECGHeader Header HeaderId]
    (h : Sound (device me) (device me.dual) OT.into ids me x y φ ψ)
    (hin : x.inbox (control me) ≠ []) : ∃ x' φ',
      Connection.conclude me x y = .ok (x', y) ∧
      Sound (device me) (device me.dual) OT.into ids me x' y φ' ψ ∧
      x'.work ids (device me.dual) φ' + 1 ≤ x.work ids (device me.dual) φ := by
  have htalk := h.dir.talk
  obtain ⟨storeIds, haveStores, rfl⟩ | ⟨streamId, store, rfl⟩ := h.responses_cases hin
  · have hphase : x.work ids (device me.dual) (.idle false) +
          ((sharedStores storeIds haveStores).length + 1) =
        x.work ids (device me.dual) (.shared storeIds haveStores) + 0 :=
      x.work_phase (.idle false) (.shared storeIds haveStores) rfl
    refine ⟨_, _, ?_, h.share, ?_⟩
    · unfold Connection.conclude
      rw [take_eq htalk.responses (h.coherent.first me)]
      simp only [ok_bind, htalk.initiative, Phase.initiative,
        MsgManager.toAdvertiseStoresResponse, orFault_some]
      rfl
    · have hwork := x.work_registering (device me.dual) (.idle false) ids
        (x.registering ++ sharedStores storeIds haveStores)
      rw [List.length_append] at hwork
      show Side.work ids (device me.dual)
        { x with registering := x.registering ++ sharedStores storeIds haveStores }
          (.idle false) + 1 ≤ _
      omega
  · have hphase : x.work ids (device me.dual) (.idle false) + 2 =
        x.work ids (device me.dual) (.answered streamId store) + 0 :=
      x.work_phase (.idle false) (.answered streamId store) rfl
    obtain ⟨hfree, hsound⟩ := h.create
    refine ⟨_, _, ?_, hsound, ?_⟩
    · unfold Connection.conclude
      rw [take_eq htalk.responses (h.coherent.first me)]
      simp only [ok_bind, htalk.initiative, Phase.initiative, MsgManager.toCreateStoreResponse,
        orFault_some, createStream_of_none hfree, if_true]
    · have hwork := x.work_outgoing (device me.dual) (.idle false) ids (x.outgoing ++ [store])
      rw [List.length_append, List.length_singleton] at hwork
      show Side.work ids (device me.dual) { x with outgoing := x.outgoing ++ [store] }
        (.idle false) + 1 ≤ _
      omega

/-! ### One event -/

variable [DecidableEq H] [ECGHeader Header HeaderId] [CRDT T Op (OperationId HeaderId)]
variable [LinearOrder D]

/-- **What an event does to a connection**: it can happen, unless the store does not take the
command, and it leaves less to do for the set-up. -/
theorem Sound.act (h : Sound (device me) (device me.dual) OT.into ids me x y φ ψ)
    (hlen : ids.length ≤ MAX_ADVERTISE_STORES) (hreg : ev.Regular D OT.into ids)
    (hen : enabled device me x ev = true) :
    (∃ x' y' φ' ψ', Connection.act OT device me x y ev = .ok (x', y') ∧
      Sound (device me) (device me.dual) OT.into ids me x' y' φ' ψ' ∧
      x'.work ids (device me.dual) φ' + y'.work ids (device me) ψ' +
          (if ev.isSetUp then 1 else 0) ≤
        x.work ids (device me.dual) φ + y.work ids (device me) ψ +
          if ev.isLaunch then 2 * ids.length + 3 else 0) ∨
    (ev.isCommand = true ∧ ∃ e, Connection.act OT device me x y ev = .error e) := by
  cases ev with
  | launch storeId chan handler =>
    simp only [enabled, Bool.and_eq_true, Bool.not_eq_true'] at hen
    obtain ⟨hsound, hwork⟩ := h.launch hen.1 hen.2 hreg.2 hreg.1
    refine Or.inl ⟨_, _, _, _, rfl, hsound, ?_⟩
    show Side.work ids (device me.dual)
      { x with node := x.node.launch storeId chan handler, changed := true } φ + _ + 0 ≤
        _ + (2 * ids.length + 3)
    omega
  | command env storeId cmd =>
    cases hact : Connection.act OT device me x y (.command env storeId cmd) with
    | error e => exact Or.inr ⟨rfl, e, rfl⟩
    | ok r =>
      simp only [enabled, Bool.and_eq_true, Bool.not_eq_true'] at hen
      obtain ⟨hy, hsound, hwork⟩ := h.command hen.2 hact
      refine Or.inl ⟨r.1, r.2, φ, ψ, rfl, hy ▸ hsound, ?_⟩
      rw [hy, hwork]
      exact le_rfl
  | registerPeer env store =>
    simp only [enabled, Bool.and_eq_true, List.contains_iff_mem] at hen
    obtain ⟨x', hact, hsound, hwork⟩ := h.registerPeer hen.1 hen.2
    refine Or.inl ⟨x', y, φ, ψ, hact, hsound, ?_⟩
    show _ + _ + 1 ≤ _ + 0
    omega
  | registerOutgoing env store =>
    obtain ⟨x', hact, hsound, hwork⟩ := h.registerOutgoing (List.contains_iff_mem.mp hen)
    refine Or.inl ⟨x', y, φ, ψ, hact, hsound, ?_⟩
    show _ + _ + 1 ≤ _ + 0
    omega
  | registerIncoming env store =>
    obtain ⟨x', hact, hsound, hwork⟩ := h.registerIncoming (List.contains_iff_mem.mp hen)
    refine Or.inl ⟨x', y, φ, ψ, hact, hsound, ?_⟩
    show _ + _ + 1 ≤ _ + 0
    omega
  | advertise nonce =>
    have hinit : x.initiative = .starting ∨ (x.initiative = .idle ∧ x.changed = true) := by
      unfold enabled at hen
      dsimp only at hen
      split at hen
      · exact Or.inl ‹_›
      · exact Or.inr ⟨‹_›, hen⟩
      · cases hen
    have hsound := h.advertise (hinit.imp_right And.left) nonce hreg hlen
    obtain ⟨starting, rfl⟩ := h.dir.talk.eq_idle (hinit.imp_right And.left)
    have hnews : (x.changed || starting) = true := by
      rcases hinit with hinit | ⟨-, hchanged⟩
      · rw [(h.dir.talk.starting_iff).mp hinit, Bool.or_true]
      · rw [hchanged, Bool.true_or]
    have hwork := x.work_advertise (device me.dual) ids nonce
      (advertisedStores x.node.activeStores) hnews
    refine Or.inl ⟨_, _, _, _, rfl, hsound, ?_⟩
    show Side.work ids (device me.dual) { x with changed := false }
      (.advertised nonce (advertisedStores x.node.activeStores)) + _ + 1 ≤ _ + 0
    exact (Nat.add_right_comm _ _ _).trans_le (Nat.add_le_add_right hwork.le _)
  | request =>
    obtain ⟨hinit, hne⟩ : x.initiative = .idle ∧ x.managerChannel ≠ [] := by
      unfold enabled at hen
      dsimp only at hen
      split at hen
      · exact ⟨‹_›, by simpa using hen⟩
      · cases hen
    obtain ⟨store, managerChannel, hqueue⟩ := List.exists_cons_of_ne_nil hne
    obtain ⟨starting, rfl⟩ := h.dir.talk.eq_idle (Or.inr hinit)
    obtain rfl : starting = false := Bool.eq_false_iff.mpr fun hstarting => by
      rw [(h.dir.talk.starting_iff).mpr hstarting] at hinit
      cases hinit
    obtain ⟨streamId, hnext⟩ := h.exists_nextStreamId hlen hne
    have hwork := x.work_request (device me.dual) ids streamId hqueue
    refine Or.inl ⟨_, _, _, _, ?_, h.request hinit hqueue hnext, ?_⟩
    · unfold Connection.act
      dsimp only
      rw [hqueue]
      dsimp only
      rw [hnext]
      rfl
    · show Side.work ids (device me.dual) { x with managerChannel } (.requested streamId store) +
        _ + 1 ≤ _ + 0
      exact (Nat.add_right_comm _ _ _).trans_le (Nat.add_le_add_right hwork.le _)
  | respond =>
    simp only [enabled, Bool.and_eq_true, Bool.not_eq_true'] at hen
    obtain ⟨x', y', ψ', hact, hsound, hwork⟩ := h.respond (by simpa using hen.2)
    exact Or.inl ⟨x', y', φ, ψ', hact, hsound, hwork⟩
  | agree env chan =>
    obtain ⟨streamId, store, their, rfl⟩ := h.dir'.talk.eq_asked hen
    obtain ⟨x', y', hact, hsound, hx, hy⟩ := h.agree env chan
    refine Or.inl ⟨x', y', φ, _, hact, hsound, ?_⟩
    show _ + _ + 1 ≤ _ + 0
    omega
  | conclude =>
    have hin : x.inbox (control me) ≠ [] := by
      unfold enabled at hen
      dsimp only at hen
      split at hen
      · cases hen
      · cases hen
      · simpa using hen
    obtain ⟨x', φ', hact, hsound, hwork⟩ := h.conclude hin
    refine Or.inl ⟨x', y, φ', ψ, hact, hsound, ?_⟩
    show _ + _ + 1 ≤ _ + 0
    omega
  | send streamId => exact Or.inl ⟨_, _, φ, ψ, rfl, h.send hen, le_rfl⟩
  | receive streamId =>
    simp only [enabled, Bool.and_eq_true, decide_eq_true_eq] at hen
    obtain ⟨frame, frames, htake, hsound⟩ :=
      h.receive (ne_control_of_ne hen.1) (by simpa using hen.2)
    exact Or.inl ⟨_, _, φ, ψ, by rw [Connection.act, htake]; rfl, hsound, le_rfl⟩

/-! ### What holds of the two sides -/

variable (OT device ids) in
def Stands (conn : Party → Side StoreId H HeaderId Header T D) (phase : Party → Phase StoreId) :
    Prop :=
  ∀ me, Sound (device me) (device me.dual) OT.into ids me (conn me) (conn me.dual) (phase me)
    (phase me.dual)

variable (device ids) in
/-- How much the two sides have to do. -/
def work (conn : Party → Side StoreId H HeaderId Header T D) (phase : Party → Phase StoreId) : ℕ :=
  (conn .client).work ids (device .server) (phase .client) +
    (conn .server).work ids (device .client) (phase .server)

variable {conn conn' : Party → Side StoreId H HeaderId Header T D}
variable {phase phase' : Party → Phase StoreId}
variable {evs : List (Party × Event StoreId H HeaderId Header Body T)}

omit [Hash H] [StoreBytes StoreId] [Hash D] [DecidableEq H] [ECGHeader Header HeaderId]
  [CRDT T Op (OperationId HeaderId)] [LinearOrder D] in
lemma work_eq (me : Party) : work device ids conn phase =
    (conn me).work ids (device me.dual) (phase me) +
      (conn me.dual).work ids (device me) (phase me.dual) := by
  cases me with
  | client => rfl
  | server => exact Nat.add_comm _ _

omit [DecidableEq H] [ECGHeader Header HeaderId] [CRDT T Op (OperationId HeaderId)]
  [LinearOrder D] in
lemma Stands.of_sound (me : Party) (h : Sound (device me) (device me.dual) OT.into ids me
    (conn me) (conn me.dual) (phase me) (phase me.dual)) : Stands OT device ids conn phase := by
  intro i
  rcases eq_or_eq_dual i me with rfl | rfl
  · exact h
  · rw [dual_dual]
    exact h.symm

/-- **What an event at one side does.** -/
theorem Stands.step (h : Stands OT device ids conn phase)
    (hlen : ids.length ≤ MAX_ADVERTISE_STORES) (hreg : ev.Regular D OT.into ids)
    (hen : enabled device me (conn me) ev = true) :
    (∃ conn' phase', Connection.step OT device conn me ev = .ok conn' ∧
      Stands OT device ids conn' phase' ∧
      work device ids conn' phase' + (if ev.isSetUp then 1 else 0) ≤
        work device ids conn phase + if ev.isLaunch then 2 * ids.length + 3 else 0) ∨
    (ev.isCommand = true ∧ ∃ e, Connection.step OT device conn me ev = .error e) := by
  rcases (h me).act hlen hreg hen with ⟨x', y', φ', ψ', hact, hsound, hwork⟩ | ⟨hcmd, e, hact⟩
  · refine Or.inl ⟨fun party => if party = me then x' else y',
      fun party => if party = me then φ' else ψ', by rw [Connection.step, hact]; rfl, ?_, ?_⟩
    · refine Stands.of_sound me ?_
      rwa [if_pos rfl, if_pos rfl, if_neg (dual_ne me), if_neg (dual_ne me)]
    · rw [work_eq me, work_eq me, if_pos rfl, if_pos rfl, if_neg (dual_ne me),
        if_neg (dual_ne me)]
      exact hwork
  · exact Or.inr ⟨hcmd, e, by rw [Connection.step, hact]; rfl⟩

lemma exec_cons {me : Party} : exec OT device conn ((me, ev) :: evs) = .ok conn' ↔
    enabled device me (conn me) ev = true ∧ ∃ conn₁,
      Connection.step OT device conn me ev = .ok conn₁ ∧ exec OT device conn₁ evs = .ok conn' := by
  unfold exec
  rw [List.foldlM_cons]
  dsimp only
  split_ifs with hen
  · rw [bind_eq_ok]
    exact (and_iff_right hen).symm
  · constructor
    · intro hrun
      cases hrun
    · exact fun hrun => absurd hrun.1 hen

lemma exec_append {evs' : List (Party × Event StoreId H HeaderId Header Body T)} :
    exec OT device conn (evs ++ evs') = exec OT device conn evs >>= fun conn₁ =>
      exec OT device conn₁ evs' := List.foldlM_append

/-- **What the events of a run do.** -/
theorem Stands.exec (h : Stands OT device ids conn phase)
    (hlen : ids.length ≤ MAX_ADVERTISE_STORES) (hreg : ∀ ev ∈ evs, ev.2.Regular D OT.into ids)
    (hrun : Connection.exec OT device conn evs = .ok conn') : ∃ phase',
      Stands OT device ids conn' phase' ∧
      work device ids conn' phase' + evs.countP (fun ev => ev.2.isSetUp) ≤
        work device ids conn phase +
          (2 * ids.length + 3) * evs.countP (fun ev => ev.2.isLaunch) := by
  induction evs generalizing conn phase with
  | nil =>
    cases hrun
    exact ⟨phase, h, le_rfl⟩
  | cons ev evs ih =>
    obtain ⟨hen, conn₁, hstep, hrest⟩ := exec_cons.mp hrun
    obtain ⟨hev, hevs⟩ := List.forall_mem_cons.mp hreg
    rcases h.step hlen hev hen with ⟨c, phase₁, hstep', hstands, hfirst⟩ | ⟨-, e, hstep'⟩
    · rw [hstep] at hstep'
      cases hstep'
      obtain ⟨phase', hstands', hwork⟩ := ih hstands hevs hrest
      refine ⟨phase', hstands', ?_⟩
      rw [List.countP_cons, List.countP_cons, Nat.mul_add]
      split_ifs at hfirst ⊢ <;> omega
    · rw [hstep] at hstep'
      cases hstep'

/-! ### Runs from the beginning -/

omit [LinearOrder StoreId] [StoreBytes StoreId] in
lemma initialStreams_cases {k : StreamId} {v : Option StoreId}
    (h : (initialStreams : BTreeMap StreamId (Option StoreId))[k]? = some v) :
    v = none ∧ k ≤ control (owner k) := by
  unfold initialStreams at h
  rw [get_insert, get_insert, get_insert] at h
  split_ifs at h with h₂ h₁ h₀
  · cases h
    subst h₂
    exact ⟨rfl, by decide⟩
  · cases h
    subst h₁
    exact ⟨rfl, by decide⟩
  · cases h
    subst h₀
    exact ⟨rfl, by decide⟩
  · cases h

omit [Hash H] [StoreBytes StoreId] [Hash D] [DecidableEq H] [ECGHeader Header HeaderId]
  [LinearOrder D] in
lemma unasked_start (me : Party) (p : DeviceId) :
    (Side.start me : Side StoreId H HeaderId Header T D).unasked ids p = ids.length :=
  List.countP_eq_length.mpr fun _ _ => rfl

omit [DecidableEq H] [ECGHeader Header HeaderId] [LinearOrder D] in
lemma sound_start (hids : ids.Nodup) {own peer : DeviceId} {into : H → StoreId} :
    Sound own peer into ids me (Side.start me : Side StoreId H HeaderId Header T D)
      (Side.start me.dual) (.idle true) (.idle true) := by
  have hfirst : ∀ i, (initialStreams : BTreeMap StreamId (Option StoreId))[control i]? =
      some none := fun i => by cases i <;> rfl
  have hstart : ∀ i : Party,
      (Side.start i : Side StoreId H HeaderId Header T D).Coherent into ids :=
    fun i => ⟨⟨nofun⟩, nofun, nofun, hfirst⟩
  have hstreams : ∀ (i : Party) (p : DeviceId), Streams p i
      (Side.start i : Side StoreId H HeaderId Header T D) (Side.start i.dual) (.idle true) := by
    intro i p
    refine ⟨owner_control i, fun k v hk hv => hk ▸ (initialStreams_cases hv).2, fun _ _ _ hv => hv,
      fun _ _ _ hv => Or.inl hv, fun a ha => absurd rfl ha, fun k a _ hv => ?_,
      fun k k' a _ _ hv => ?_, fun k _ _ hframe => ?_⟩
    · cases (initialStreams_cases hv).1
    · cases (initialStreams_cases hv).1
    · rcases hframe with hframe | hframe | hframe
      · exact absurd rfl hframe
      · exact absurd rfl hframe
      · cases hframe
  have hdir : ∀ (i : Party) (p q : DeviceId), Dir p q i ids
      (Side.start i : Side StoreId H HeaderId Header T D) (Side.start i.dual) (.idle true) := by
    intro i p q
    refine ⟨⟨rfl, rfl, rfl, rfl⟩, trivial, fun _ => .apart, fun a ha => ?_, hstreams i p, ?_⟩
    · rcases ha with ha | ha <;> cases ha
    · rw [unasked_start]
      rfl
  exact ⟨hstart me, hstart me.dual, hids, hdir me own peer, by simpa using hdir me.dual peer own,
    fun _ _ _ => Or.inr (Or.inl (Or.inr rfl))⟩

variable (OT device ids) in
/-- The two sides after a run, which starts with a connection of two nodes that run no store. -/
structure Run (evs : List (Party × Event StoreId H HeaderId Header Body T))
    (conn : Party → Side StoreId H HeaderId Header T D) : Prop where
  nodup : ids.Nodup
  few : ids.length ≤ MAX_ADVERTISE_STORES
  regular : ∀ ev ∈ evs, ev.2.Regular D OT.into ids
  exec : exec OT device Side.start evs = .ok conn

/-- Nothing is left to do for the set-up. -/
def Quiet (Body : Type) (device : Party → DeviceId)
    (conn : Party → Side StoreId H HeaderId Header T D) : Prop :=
  ∀ (me : Party) (ev : Event StoreId H HeaderId Header Body T), ev.isSetUp = true →
    enabled device me (conn me) ev = false

lemma Run.stands (h : Run OT device ids evs conn) : ∃ phase, Stands OT device ids conn phase ∧
    work device ids conn phase + evs.countP (fun ev => ev.2.isSetUp) ≤
      16 * ids.length + 6 + (2 * ids.length + 3) * evs.countP (fun ev => ev.2.isLaunch) := by
  have hstart : Stands OT device ids (Side.start : Party → Side StoreId H HeaderId Header T D)
      fun _ => .idle true := Stands.of_sound .client (sound_start h.nodup)
  obtain ⟨phase, hstands, hwork⟩ := hstart.exec h.few h.regular h.exec
  refine ⟨phase, hstands, hwork.trans (Nat.add_le_add_right ?_ _)⟩
  unfold work Side.work
  rw [unasked_start, unasked_start]
  show 6 * (ids.length + 0) + 0 + 0 + 0 + 0 + (2 * ids.length + 3) +
    (6 * (ids.length + 0) + 0 + 0 + 0 + 0 + (2 * ids.length + 3)) ≤ _
  omega

lemma Run.snoc (h : Run OT device ids evs conn) (hreg : ev.Regular D OT.into ids)
    (hen : enabled device me (conn me) ev = true)
    (hstep : Connection.step OT device conn me ev = .ok conn') :
    Run OT device ids (evs ++ [(me, ev)]) conn' where
  nodup := h.nodup
  few := h.few
  regular := List.forall_mem_append.mpr ⟨h.regular, List.forall_mem_singleton.mpr hreg⟩
  exec := by
    rw [exec_append, h.exec, ok_bind]
    exact exec_cons.mpr ⟨hen, conn', hstep, rfl⟩

/-- **Setting up streams never fails.** In whatever order the two sides have acted, each event
that is possible but a command about other peers can happen, and the run goes on. -/
theorem set_up_never_fails (h : Run OT device ids evs conn) (me : Party)
    (ev : Event StoreId H HeaderId Header Body T) (hreg : ev.Regular D OT.into ids)
    (hen : enabled device me (conn me) ev = true) (hcmd : ev.isCommand = false) :
    ∃ conn', step OT device conn me ev = .ok conn' ∧
      Run OT device ids (evs ++ [(me, ev)]) conn' := by
  obtain ⟨phase, hstands, -⟩ := h.stands
  rcases hstands.step h.few hreg hen with ⟨conn', -, hstep, -⟩ | ⟨hcmd', -⟩
  · exact ⟨conn', hstep, h.snoc hreg hen hstep⟩
  · rw [hcmd] at hcmd'
    cases hcmd'

omit [DecidableEq H] [ECGHeader Header HeaderId] [CRDT T Op (OperationId HeaderId)]
  [LinearOrder D] in
lemma Stands.eq_idle (h : Stands OT device ids conn phase) (hquiet : Quiet Body device conn)
    (me : Party) : phase me = .idle false := by
  have htalk := (h me).dir.talk
  have hasked := htalk.asked
  have hrequests := htalk.requests
  have hresponses := htalk.responses
  have hinit := htalk.initiative
  cases hphase : phase me with
  | idle starting =>
    rw [hphase] at hinit
    cases starting with
    | false => rfl
    | true =>
      have hadvertise := hquiet me (.advertise (.replicate 4 0)) rfl
      simp only [enabled, hinit, Phase.initiative] at hadvertise
      cases hadvertise
  | asked streamId store their =>
    rw [hphase] at hasked
    have hagree := hquiet me.dual (.agree calm 0) rfl
    simp only [enabled, hasked, Phase.asking] at hagree
    cases hagree
  | advertised nonce storeIds =>
    rw [hphase] at hasked hrequests
    have hrespond := hquiet me.dual .respond rfl
    simp [enabled, hasked, hrequests, Phase.asking, Phase.requests] at hrespond
  | requested streamId store =>
    rw [hphase] at hasked hrequests
    have hrespond := hquiet me.dual .respond rfl
    simp [enabled, hasked, hrequests, Phase.asking, Phase.requests] at hrespond
  | shared storeIds haveStores =>
    rw [hphase] at hinit hresponses
    have hconclude := hquiet me .conclude rfl
    simp [enabled, hinit, hresponses, Phase.initiative, Phase.responses] at hconclude
  | answered streamId store =>
    rw [hphase] at hinit hresponses
    have hconclude := hquiet me .conclude rfl
    simp [enabled, hinit, hresponses, Phase.initiative, Phase.responses] at hconclude

/-- No task waits, and no store is on its way. -/
structure Side.Still (x : Side StoreId H HeaderId Header T D) : Prop where
  initiative : x.initiative = .idle
  changed : x.changed = false
  managerChannel : x.managerChannel = []
  registering : x.registering = []
  outgoing : x.outgoing = []
  incoming : x.incoming = []

omit [DecidableEq H] [ECGHeader Header HeaderId] [CRDT T Op (OperationId HeaderId)]
  [LinearOrder D] in
lemma Stands.still (h : Stands OT device ids conn phase) (hquiet : Quiet Body device conn)
    (me : Party) : (conn me).Still := by
  have hinit := (h me).dir.talk.initiative
  rw [h.eq_idle hquiet me] at hinit
  have hempty : ∀ l : List (Store StoreId), (∀ store ∈ l, False) → l = [] := fun l hl =>
    List.eq_nil_iff_forall_not_mem.mpr hl
  refine ⟨hinit, ?_, ?_, hempty _ fun store hmem => ?_, hempty _ fun store hmem => ?_,
    hempty _ fun store hmem => ?_⟩
  · have hadvertise := hquiet me (.advertise (.replicate 4 0)) rfl
    simpa [enabled, hinit, Phase.initiative] using hadvertise
  · have hrequest := hquiet me .request rfl
    simpa [enabled, hinit, Phase.initiative] using hrequest
  · have hregister := hquiet me (.registerPeer calm store) rfl
    simp [enabled, hmem, calm] at hregister
  · have hregister := hquiet me (.registerOutgoing calm store) rfl
    simp [enabled, hmem] at hregister
  · have hregister := hquiet me (.registerIncoming calm store) rfl
    simp [enabled, hmem] at hregister

omit [DecidableEq H] [ECGHeader Header HeaderId] [CRDT T Op (OperationId HeaderId)]
  [LinearOrder D] in
/-- Something that is possible can also happen with a nonce that tells the stores apart. -/
lemma exists_regular (OT : OssaType StoreId H HeaderId Body T Op) {nonce : Manager.Nonce}
    (hfree : CollisionFree D nonce ids) {x : Side StoreId H HeaderId Header T D} (hset : ev.isSetUp = true)
    (hen : enabled device me x ev = true) :
    ∃ ev' : Event StoreId H HeaderId Header Body T, ev'.isSetUp = true ∧
      enabled device me x ev' = true ∧ ev'.Regular D OT.into ids ∧ ev'.isLaunch = false := by
  cases ev with
  | launch _ _ _ => cases hset
  | advertise _ => exact ⟨.advertise nonce, rfl, hen, hfree, rfl⟩
  | _ => exact ⟨_, hset, hen, trivial, rfl⟩

section Shared

open Ossa.Ecg.V0

attribute [local instance] Ossa.Manager.instHashNat Ossa.Manager.instStoreBytesNat
  Ossa.Manager.instHashCounterStream

def devices : Party → DeviceId
  | .client => 1
  | .server => 2

/-- The first stream that the client asks for. -/
def sharedStream : StreamId := ⟨(control .client).val + 2, by decide⟩

def sharedEvents : List (Party × Event ℕ UInt8 ℕ TestHeader (List ℕ) Counter) :=
  [(.client, .launch 0 4 ⟨.newDownloading 0, []⟩), (.client, .launch 1 6 ⟨.newDownloading 1, []⟩),
    (.server, .launch 0 5 ⟨.newDownloading 0, []⟩),
    -- both advertise
    (.client, .advertise (.replicate 4 0)), (.server, .respond), (.client, .conclude),
    (.server, .registerPeer calm (0, 5)), (.server, .advertise (.replicate 4 0)),
    (.client, .respond), (.server, .conclude), (.client, .registerPeer calm (0, 4)),
    (.client, .registerPeer calm (0, 4)), (.server, .registerPeer calm (0, 5)),
    -- both ask for a stream
    (.client, .request), (.server, .request), (.server, .respond), (.server, .agree calm 8),
    (.client, .conclude), (.client, .registerOutgoing calm (0, 4)),
    (.client, .send sharedStream), (.server, .receive sharedStream),
    (.server, .registerIncoming calm (0, 5)), (.client, .respond), (.client, .agree calm 9),
    (.server, .conclude), (.client, .registerIncoming calm (0, 4)),
    (.server, .registerOutgoing calm (0, 5))]

lemma shared_free : CollisionFree ℕ (.replicate 4 0) [0, 1] := by
  unfold CollisionFree
  decide

lemma shared_regular : ∀ ev ∈ sharedEvents,
    ev.2.Regular ℕ (numberedType.into : UInt8 → ℕ) [0, 1] := by
  unfold sharedEvents
  repeat' first
    | exact shared_free
    | exact trivial
    | exact ⟨by decide, Node.fresh_newDownloading _⟩
    | exact List.forall_mem_nil _
    | refine List.forall_mem_cons.mpr ⟨?_, ?_⟩

lemma shared_run (n : ℕ) (h : (exec (D := ℕ) numberedType devices Side.start
    (sharedEvents.take n)).isOk = true) :
    Run numberedType devices [0, 1] (sharedEvents.take n) (value _ h) where
  nodup := by decide
  few := by decide
  regular ev hev := shared_regular ev (List.mem_of_mem_take hev)
  exec := eq_ok_value h

lemma half_isOk : (exec (D := ℕ) numberedType devices Side.start
    (sharedEvents.take 15)).isOk = true := by rfl

lemma all_isOk : (exec (D := ℕ) numberedType devices Side.start
    (sharedEvents.take 27)).isOk = true := by rfl

lemma all_quiet : Quiet (List ℕ) devices (value _ all_isOk) := by
  intro me ev h
  cases me <;> cases ev <;> first | rfl | cases h

theorem set_up_never_fails_shared : ∃ conn',
    step numberedType devices (value _ half_isOk) .server
      (.respond : Event ℕ UInt8 ℕ TestHeader (List ℕ) Counter) = .ok conn' := by
  obtain ⟨conn', hstep, -⟩ :=
    set_up_never_fails (shared_run 15 half_isOk) .server .respond trivial rfl rfl
  exact ⟨conn', hstep⟩

end Shared

end Ossa.Connection
