import Ossa.ConnectionSteps

/-!
The events of the managers and of the streams keep what holds of a connection.
-/

namespace Ossa.Connection

open Ossa.Loop Ossa.Util Ossa.Collections Ossa.Ecg Ossa.Crdt Ossa.Network Ossa.Store Ossa.Manager

variable {StoreId H HeaderId Header Body T Op D : Type} [LinearOrder StoreId]
variable [LinearOrder HeaderId]
variable {x x' y y' : Side StoreId H HeaderId Header T D} {φ ψ : Phase StoreId}
variable {me : Party} {own peer : DeviceId} {ids : List StoreId} {a storeId : StoreId}
variable {streamId k : StreamId} {frame : Frame StoreId D}

/-! ### Inboxes -/

lemma inbox_push : (y.push streamId frame).inbox k =
    if k = streamId then y.inbox k ++ [frame] else y.inbox k := by
  show Function.update y.inbox streamId _ k = _
  rw [Function.update_apply]
  split_ifs with h
  · rw [h]
  · rfl

lemma inbox_push_of_ne (h : k ≠ streamId) : (y.push streamId frame).inbox k = y.inbox k := by
  rw [inbox_push, if_neg h]

lemma inbox_push_control {i : Party} (hk : owner k = me) (hne : k ≠ control me) :
    (y.push (control i) frame).inbox k = y.inbox k := by
  refine inbox_push_of_ne fun heq => ?_
  rw [heq, owner_control] at hk
  exact hne (hk ▸ heq)

lemma take_eq {frames : List (Frame StoreId D)} (hin : x.inbox k = frame :: frames)
    {v : Option StoreId} (hv : x.node.streamMap[k]? = some v) :
    x.take k = .ok (frame, { x with inbox := Function.update x.inbox k frames }) := by
  have hknown : containsKey x.node.streamMap k = true := contains_iff.mpr ⟨v, hv⟩
  unfold Side.take
  rw [if_pos hknown, hin]

lemma update_control {i : Party} {frames : List (Frame StoreId D)} (hk : owner k = me)
    (hne : k ≠ control me) : Function.update x.inbox (control i) frames k = x.inbox k := by
  refine Function.update_of_ne (fun heq => ?_) _ _
  rw [heq, owner_control] at hk
  exact hne (hk ▸ heq)

lemma inbox_of_push {i : Party} (hk : owner k = me) (hne : k ≠ control me)
    (h : (y.push (control i) frame).inbox k ≠ []) : y.inbox k ≠ [] := by
  rwa [inbox_push_control hk hne] at h

lemma inbox_of_update {i : Party} {frames : List (Frame StoreId D)} (hk : owner k = me)
    (hne : k ≠ control me) (h : Function.update x.inbox (control i) frames k ≠ []) :
    x.inbox k ≠ [] := by
  rwa [update_control hk hne] at h

variable [StoreBytes StoreId] [Hash D] [Hash H] {into : H → StoreId}

/-! ### Stores are launched -/

/-- **A store is launched**: it is news. -/
theorem Sound.launch (h : Sound own peer into ids me x y φ ψ) {chan : Chan}
    {handler : Handler StoreId H HeaderId Header T}
    (hnew : containsKey x.node.activeStores storeId = false)
    (hchan : containsKey x.node.tasks chan = false) (hfresh : Node.Fresh into storeId handler)
    (hid : storeId ∈ ids) :
    Sound own peer into ids me
        { x with node := x.node.launch storeId chan handler, changed := true } y φ ψ ∧
      Side.work ids peer { x with node := x.node.launch storeId chan handler, changed := true } φ ≤
        x.work ids peer φ + (2 * ids.length + 3) := by
  have hnone : x.node.storeChan storeId = none := by
    rw [Node.storeChan]
    cases hget : x.node.activeStores[storeId]? with
    | none => rfl
    | some status => exact absurd (contains_iff.mpr ⟨status, hget⟩) (Bool.eq_false_iff.mp hnew)
  have hviews := h.coherent.node.views_launch peer hnone hchan hfresh
  have hkept : ∀ e, x.node.Has e → (x.node.launch storeId chan handler).Has e := by
    intro e he
    have hne : e.1 ≠ storeId := fun heq => by
      rw [Node.Has, heq, hnone] at he
      cases he
    exact (Node.storeChan_launch e.1).trans ((if_neg hne).trans he)
  have hmet : ∀ a, Side.Met { x with node := x.node.launch storeId chan handler, changed := true }
      peer a ↔ x.Met peer a := fun a => by
    show ((x.node.launch storeId chan handler).knows peer a = true ∨ _) ↔ _
    rw [(hviews a).2.2]
    rfl
  refine ⟨⟨⟨h.coherent.node.launch hchan hfresh, fun e he => hkept e (h.coherent.has e he),
    fun a ha => ?_, h.coherent.first⟩, h.coherent', h.nodup, ?_, ?_,
    fun a _ _ => Or.inr (Or.inl (Or.inl rfl))⟩, ?_⟩
  · obtain ⟨c, hc⟩ := ha
    rw [show ({ x with node := x.node.launch storeId chan handler, changed := true } :
      Side StoreId H HeaderId Header T D).node = x.node.launch storeId chan handler from rfl,
      Node.storeChan_launch] at hc
    split_ifs at hc with heq
    · exact heq ▸ hid
    · exact h.coherent.running a ⟨c, hc⟩
  · exact h.dir.congr rfl rfl rfl rfl hkept (fun _ he => he) rfl (fun _ _ => rfl) (fun _ _ => rfl)
      (fun a => (hviews a).1) (fun _ => rfl) rfl rfl rfl (fun a ha => h.dir.met a ((hmet a).mp ha))
      h.dir.streams.frames
  · exact h.dir'.congr rfl rfl rfl rfl (fun _ he => he) hkept rfl (fun _ _ => rfl) (fun _ _ => rfl)
      (fun _ => rfl) (fun a => (hviews a).2.1) rfl rfl rfl h.dir'.met h.dir'.streams.frames
  · have hunasked : Side.unasked ids peer
        { x with node := x.node.launch storeId chan handler, changed := true } =
        x.unasked ids peer := List.countP_congr fun a _ => by rw [(hviews a).1]
    unfold Side.work
    rw [hunasked, Bool.true_or, if_pos rfl]
    dsimp only
    omega

/-! ### Frames of the streams -/

lemma Sound.ne_control (h : Sound own peer into ids me x y φ ψ) {v : StoreId} {i : Party}
    (hv : x.node.streamMap[k]? = some (some v)) : k ≠ control i := by
  rintro rfl
  rw [h.coherent.first i] at hv
  cases hv

lemma ne_control_of_ne (hne : k ≠ control .client ∧ k ≠ control .server) (i : Party) :
    k ≠ control i := by
  cases i
  · exact hne.1
  · exact hne.2

/-- **A task sends a frame**: the other side has the stream. -/
theorem Sound.send (h : Sound own peer into ids me x y φ ψ) (hmay : x.maySend me k = true) :
    Sound own peer into ids me x (y.push k .storeSync) φ ψ := by
  obtain ⟨v, hv, howner⟩ : ∃ v, x.node.streamMap[k]? = some (some v) ∧
      (owner k = me ∨ x.heard k = true) := by
    unfold Side.maySend at hmay
    split at hmay
    next v hv => exact ⟨v, hv, by simpa using hmay⟩
    next => cases hmay
  have hne : ∀ i, k ≠ control i := fun i => h.ne_control hv
  refine ⟨h.coherent, ⟨h.coherent'.node, h.coherent'.has, h.coherent'.running, h.coherent'.first⟩,
    h.nodup, ?_, ?_, h.found⟩
  · refine h.dir.congr rfl (inbox_push_of_ne (hne me).symm) rfl rfl (fun _ he => he)
      (fun _ he => he) rfl (fun _ _ => rfl) (fun _ _ => rfl) (fun _ => rfl) (fun _ => rfl) rfl rfl
      rfl h.dir.met fun k' hk' hne' hframe => ?_
    by_cases heq : k' = k
    · exact ⟨some v, heq ▸ hv⟩
    · rw [inbox_push_of_ne heq] at hframe
      exact h.dir.streams.frames k' hk' hne' hframe
  · refine h.dir'.congr rfl rfl (inbox_push_of_ne (hne me.dual).symm) rfl (fun _ he => he)
      (fun _ he => he) rfl (fun _ _ => rfl) (fun _ _ => rfl) (fun _ => rfl) (fun _ => rfl) rfl rfl
      rfl h.dir'.met fun k' hk' hne' hframe => ?_
    by_cases heq : k' = k
    · subst heq
      refine h.dir'.streams.frames k' hk' hne' (Or.inr (Or.inr (howner.resolve_left fun hme => ?_)))
      exact dual_ne me (hk'.symm.trans hme)
    · rw [inbox_push_of_ne heq] at hframe
      exact h.dir'.streams.frames k' hk' hne' hframe

lemma Sound.stream_of_frame (h : Sound own peer into ids me x y φ ψ) (hne : ∀ i, k ≠ control i)
    (hin : x.inbox k ≠ []) : ∃ v, x.node.streamMap[k]? = some v := by
  rcases eq_or_eq_dual (owner k) me with hk | hk
  · exact h.dir.streams.frames k hk (hne me) (Or.inr (Or.inl hin))
  · obtain ⟨v, hv⟩ := h.dir'.streams.frames k hk (hne me.dual) (Or.inl hin)
    exact ⟨v, h.dir'.streams.ours k v hk hv⟩

/-- **A task receives a frame**: the multiplexer knows its stream. -/
theorem Sound.receive (h : Sound own peer into ids me x y φ ψ) (hne : ∀ i, k ≠ control i)
    (hin : x.inbox k ≠ []) : ∃ frame frames,
      x.take k = .ok (frame, { x with inbox := Function.update x.inbox k frames }) ∧
      Sound own peer into ids me
        { x with
          inbox := Function.update x.inbox k frames
          heard := Function.update x.heard k true } y φ ψ := by
  obtain ⟨v, hv⟩ := h.stream_of_frame hne hin
  obtain ⟨frame, frames, hframes⟩ := List.exists_cons_of_ne_nil hin
  refine ⟨frame, _, take_eq hframes hv, ?_⟩
  have hpop : ∀ {k'}, Function.update x.inbox k frames k' ≠ [] → x.inbox k' ≠ [] := by
    intro k' hne'
    by_cases heq : k' = k
    · exact heq ▸ hin
    · rwa [Function.update_of_ne heq] at hne'
  have hkeep : ∀ i, Function.update x.inbox k frames (control i) = x.inbox (control i) := fun i =>
    Function.update_of_ne (hne i).symm _ _
  refine ⟨⟨h.coherent.node, h.coherent.has, h.coherent.running, h.coherent.first⟩, h.coherent',
    h.nodup, ?_, ?_, h.found⟩
  · refine h.dir.congr rfl rfl (hkeep me) rfl (fun _ he => he) (fun _ he => he) rfl
      (fun _ _ => rfl) (fun _ _ => rfl) (fun _ => rfl) (fun _ => rfl) rfl rfl rfl h.dir.met
      fun k' hk' hne' hframe => h.dir.streams.frames k' hk' hne' ?_
    exact hframe.imp_right (Or.imp_left hpop)
  · refine h.dir'.congr rfl (hkeep me.dual) rfl rfl (fun _ he => he) (fun _ he => he) rfl
      (fun _ _ => rfl) (fun _ _ => rfl) (fun _ => rfl) (fun _ => rfl) rfl rfl rfl h.dir'.met
      fun k' hk' hne' hframe => h.dir'.streams.frames k' hk' hne' ?_
    rcases hframe with hframe | hframe | hframe
    · exact Or.inl (hpop hframe)
    · exact Or.inr (Or.inl hframe)
    · by_cases heq : k' = k
      · exact Or.inl (heq ▸ hin)
      · refine Or.inr (Or.inr ?_)
        rwa [show ({ x with
          inbox := Function.update x.inbox k frames
          heard := Function.update x.heard k true } : Side StoreId H HeaderId Header T D).heard k' =
          x.heard k' from Function.update_of_ne heq _ _] at hframe

/-! ### The manager with initiative asks -/

omit [StoreBytes StoreId] [LinearOrder StoreId] in
lemma Phase.eq_idle (h : φ.initiative = .starting ∨ φ.initiative = .idle) :
    ∃ starting, φ = .idle starting := by
  cases φ with
  | idle starting => exact ⟨starting, rfl⟩
  | _ => rcases h with h | h <;> cases h

omit [Hash H] in
lemma Talk.eq_idle (h : Talk me x y φ) (hinit : x.initiative = .starting ∨ x.initiative = .idle) :
    ∃ starting, φ = .idle starting := Phase.eq_idle (h.initiative ▸ hinit)

/-- **Stores are advertised**: every store that runs here is on its way to be found. -/
theorem Sound.advertise (h : Sound own peer into ids me x y φ ψ)
    (hinit : x.initiative = .starting ∨ x.initiative = .idle) (nonce : Manager.Nonce)
    (hfree : CollisionFree D nonce ids) (hlen : ids.length ≤ MAX_ADVERTISE_STORES) :
    Sound own peer into ids me
      { x with
        initiative := .advertising (advertisedStores x.node.activeStores)
        changed := false }
      (y.push (control me) (.manager (.request
        (advertiseRequest nonce (advertisedStores x.node.activeStores)))))
      (.advertised nonce (advertisedStores x.node.activeStores)) ψ := by
  obtain ⟨starting, rfl⟩ := h.dir.talk.eq_idle hinit
  have hall := Node.advertisedStores_eq h.coherent.running hlen
  have htalk := h.dir.talk
  refine ⟨⟨h.coherent.node, h.coherent.has, h.coherent.running, h.coherent.first⟩,
    ⟨h.coherent'.node, h.coherent'.has, h.coherent'.running, h.coherent'.first⟩, h.nodup,
    ⟨⟨rfl, ?_, htalk.responses, htalk.asked⟩, ⟨hfree, fun e he => ?_, nodup_advertisedIds _, ?_⟩,
      h.dir.stage, h.dir.met, ?_, h.dir.budget⟩, ?_, fun a hx _ => ?_⟩
  · rw [inbox_push, if_pos rfl, htalk.requests]
    rfl
  · rw [hall] at he
    exact Node.mem_runningStores.mp he
  · rw [advertisedStores, List.length_take]
    exact min_le_left _ _
  · have hstreams := h.dir.streams
    exact hstreams.congr (fun _ _ h => by cases h) hstreams.latest le_rfl (fun _ _ => rfl) (fun _ _ => rfl)
      (fun _ => Iff.rfl) fun k hk hne hframe =>
        hstreams.frames k hk hne (hframe.imp_left (inbox_of_push hk hne))
  · refine h.dir'.congr rfl rfl (inbox_push_of_ne (control_dual_ne me)) rfl (fun _ he => he)
      (fun _ he => he) rfl (fun _ _ => rfl) (fun _ _ => rfl) (fun _ => rfl) (fun _ => rfl) rfl rfl
      rfl h.dir'.met fun k hk hne hframe => h.dir'.streams.frames k hk hne
        (hframe.imp_right (Or.imp_left (inbox_of_push hk hne)))
  · refine Or.inr (Or.inr (Or.inr (Or.inl ?_)))
    show a ∈ (advertisedStores x.node.activeStores).map Prod.fst
    rw [hall]
    exact Node.mem_runningIds.mpr hx

/-- **A stream is asked for**, with an id that neither side uses. -/
theorem Sound.request (h : Sound own peer into ids me x y φ ψ) (hinit : x.initiative = .idle)
    {store : Store StoreId} {managerChannel : List (Store StoreId)}
    (hqueue : x.managerChannel = store :: managerChannel)
    (hnext : nextStreamId x.latestStreamId = .ok streamId) :
    Sound own peer into ids me
      { x with
        managerChannel
        latestStreamId := streamId
        initiative := .creating streamId store }
      (y.push (control me) (.manager (.request (.createStoreStream streamId store.1))))
      (.requested streamId store) ψ := by
  obtain ⟨starting, rfl⟩ := h.dir.talk.eq_idle (Or.inr hinit)
  have htalk := h.dir.talk
  have hstreams := h.dir.streams
  obtain ⟨hval, howner⟩ := nextStreamId_ok hnext
  have hme : owner streamId = me := howner.trans hstreams.latest
  have hhas : x.node.Has store := h.coherent.has store (by simp [hqueue])
  have hlt : x.latestStreamId < streamId := Fin.lt_def.mpr (by omega)
  have hfree : y.node.streamMap[streamId]? = none := by
    cases hv : y.node.streamMap[streamId]? with
    | none => rfl
    | some v => exact absurd (hstreams.bound streamId v hme hv) (not_le.mpr hlt)
  have hstage : ∀ a, tally a x.managerChannel =
      tally a managerChannel + if store.1 = a then 1 else 0 := fun a => by rw [hqueue, tally_cons]
  have hruns : y.node.Runs store.1 := by
    have hasked := h.dir.stage store.1
    rw [hstage, if_pos rfl] at hasked
    exact h.dir.met _ (Or.inl (Node.knows_of_outRank (hasked.outRank_ne (by omega))))
  refine ⟨⟨h.coherent.node, fun e he => h.coherent.has e ?_, h.coherent.running, h.coherent.first⟩,
    ⟨h.coherent'.node, h.coherent'.has, h.coherent'.running, h.coherent'.first⟩, h.nodup,
    ⟨⟨rfl, ?_, htalk.responses, htalk.asked⟩, ⟨hhas, hruns, rfl, hme, hfree⟩, fun a => ?_,
      h.dir.met, ?_, ?_⟩, ?_, fun a hx hy => ?_⟩
  · rw [hqueue]
    simp only [List.mem_append, List.mem_cons] at he ⊢
    tauto
  · rw [inbox_push, if_pos rfl, htalk.requests]
    rfl
  · have hbefore := h.dir.stage a
    rw [hstage a] at hbefore
    show Stage _ _ (tally a managerChannel) _ _ (if store.1 = a then 1 else 0)
    split_ifs with heq
    · rw [if_pos heq] at hbefore
      exact hbefore.request.2
    · rw [if_neg heq] at hbefore
      exact hbefore
  · exact hstreams.congr (fun _ _ h => by cases h) hme hlt.le (fun _ _ => rfl) (fun _ _ => rfl)
      (fun _ => Iff.rfl) fun k hk hne hframe =>
        hstreams.frames k hk hne (hframe.imp_left (inbox_of_push hk hne))
  · have hbefore := h.dir.budget
    rw [hqueue, List.length_cons] at hbefore
    show streamId.val + 2 * (x.unasked ids peer + managerChannel.length) = _
    omega
  · refine h.dir'.congr rfl rfl (inbox_push_of_ne (control_dual_ne me)) rfl (fun _ he => he)
      (fun _ he => he) rfl (fun _ _ => rfl) (fun _ _ => rfl) (fun _ => rfl) (fun _ => rfl) rfl rfl
      rfl h.dir'.met fun k hk hne hframe => h.dir'.streams.frames k hk hne
        (hframe.imp_right (Or.imp_left (inbox_of_push hk hne)))
  · rcases h.found a hx hy with hmet | (hnews | hnews) | hnews | hcarries | hcarries
    · exact Or.inl hmet
    · exact Or.inr (Or.inl (Or.inl hnews))
    · rw [hinit] at hnews
      cases hnews
    · exact Or.inr (Or.inr (Or.inl hnews))
    · exact hcarries.elim
    · exact Or.inr (Or.inr (Or.inr (Or.inr hcarries)))

/-! ### The manager without initiative answers -/

omit [LinearOrder StoreId] in
lemma collisionFree_mono {nonce : Manager.Nonce} {ids' : List StoreId}
    (h : CollisionFree D nonce ids) (hsub : ids' ⊆ ids) : CollisionFree D nonce ids' :=
  fun a ha b hb => h a (hsub ha) b (hsub hb)

/-- **Advertised stores are looked up**: those that run here are found, and no others. -/
theorem Sound.answer [LinearOrder D] {nonce : Manager.Nonce} {storeIds : List (Store StoreId)}
    (h : Sound own peer into ids me x y φ (.advertised nonce storeIds)) : ∃ haveStores found,
      runAdvertiseStoresClient nonce
          (storeIds.map fun e => hashStoreIdWithNonce (H := D) nonce e.1) x.node.activeStores =
        .ok (⟨haveStores⟩, found) ∧
      Sound own peer into ids me
        { x with
          inbox := Function.update x.inbox (control me.dual) []
          registering := x.registering ++ found }
        (y.push (control me.dual) (.manager (.advertiseStoresResponse ⟨haveStores⟩)))
        φ (.shared storeIds haveStores) ∧
      found.length ≤ ids.length ∧ (sharedStores storeIds haveStores).length ≤ ids.length := by
  obtain ⟨hfree, hhas, hnodup, hlen⟩ := h.dir'.holds
  have hrunning : runningIds x.node.activeStores ⊆ ids := fun a ha =>
    h.coherent.running a (Node.mem_runningIds.mp ha)
  have hadvertised : storeIds.map Prod.fst ⊆ ids := fun a ha => by
    obtain ⟨e, he, rfl⟩ := List.mem_map.mp ha
    exact h.coherent'.running e.1 (hhas e he).runs
  have hours : CollisionFree D nonce (runningIds x.node.activeStores) :=
    collisionFree_mono hfree hrunning
  have hboth : CollisionFree D nonce
      (storeIds.map Prod.fst ++ runningIds x.node.activeStores) :=
    collisionFree_mono hfree (List.append_subset.mpr ⟨hadvertised, hrunning⟩)
  obtain ⟨haveStores, hrun, hbits⟩ := runAdvertiseStoresClient_spec nonce x.node.activeStores
    (storeIds.map fun e => hashStoreIdWithNonce (H := D) nonce e.1) (by rwa [List.length_map])
  have hshared := hours.sharedStores hboth hnodup hlen hbits
  -- a store is found if it is advertised and runs here
  have hfound : ∀ e, e ∈ foundStores nonce
      (storeIds.map fun e => hashStoreIdWithNonce (H := D) nonce e.1) x.node.activeStores ↔
      x.node.Has e ∧ e.1 ∈ storeIds.map Prod.fst := by
    intro e
    rw [hours.mem_found, Node.mem_runningStores]
    refine and_congr_right fun hx => ?_
    rw [List.mem_map]
    constructor
    · rintro ⟨e', he', heq⟩
      have hid := hboth e'.1 (List.mem_append_left _ (List.mem_map_of_mem he')) e.1
        (List.mem_append_right _ (Node.mem_runningIds.mpr hx.runs)) heq
      exact List.mem_map.mpr ⟨e', he', hid⟩
    · intro he
      obtain ⟨e', he', heq⟩ := List.mem_map.mp he
      exact ⟨e', he', by rw [heq]⟩
  have htalk := h.dir'.talk
  have hstreams := h.dir'.streams
  refine ⟨haveStores, _, hrun, ⟨⟨h.coherent.node, fun e he => ?_, h.coherent.running,
    h.coherent.first⟩, ⟨h.coherent'.node, h.coherent'.has, h.coherent'.running, h.coherent'.first⟩,
    h.nodup, ?_, ⟨⟨htalk.initiative, Function.update_self .., ?_, htalk.asked⟩, fun e he => ?_,
      h.dir'.stage, h.dir'.met, ?_, h.dir'.budget⟩, fun a hx hy => ?_⟩, ?_, ?_⟩
  · have hold := h.coherent.has e
    simp only [List.mem_append] at he hold
    rcases he with ((he | he | he) | he) | he
    · exact hold (Or.inl (Or.inl (Or.inl he)))
    · exact hold (Or.inl (Or.inl (Or.inr he)))
    · exact ((hfound e).mp he).1
    · exact hold (Or.inl (Or.inr he))
    · exact hold (Or.inr he)
  · refine h.dir.congr rfl (inbox_push_of_ne (control_dual_ne me).symm)
      (Function.update_of_ne (control_dual_ne me).symm _ _) rfl (fun _ he => he)
      (fun _ he => he) rfl (fun _ _ => rfl) (fun _ _ => rfl) (fun _ => rfl) (fun _ => rfl) rfl rfl
      rfl (fun a ha => ?_) fun k hk hne hframe => h.dir.streams.frames k hk hne
        (hframe.imp (inbox_of_push hk hne) (Or.imp_left (inbox_of_update hk hne)))
    rcases ha with ha | ha
    · exact h.dir.met a (Or.inl ha)
    · obtain ⟨e, he, rfl⟩ := List.mem_map.mp ha
      rcases List.mem_append.mp he with he | he
      · exact h.dir.met e.1 (Or.inr (List.mem_map_of_mem he))
      · obtain ⟨e', he', heq⟩ := List.mem_map.mp ((hfound e).mp he).2
        exact heq ▸ (hhas e' he').runs
  · rw [inbox_push, if_pos rfl, htalk.responses]
    rfl
  · rw [hshared] at he
    obtain ⟨he, hrun⟩ := List.mem_filter.mp he
    exact ⟨hhas e he, Node.mem_runningIds.mp (of_decide_eq_true hrun)⟩
  · exact hstreams.congr (fun _ _ h => by cases h) hstreams.latest le_rfl (fun _ _ => rfl)
      (fun _ _ => rfl) (fun _ => Iff.rfl) fun k hk hne hframe => hstreams.frames k hk hne
        (hframe.imp (inbox_of_update hk hne) (Or.imp_left (inbox_of_push hk hne)))
  · have hseeks : ∀ a, x.Seeks peer a → Side.Seeks { x with
        inbox := Function.update x.inbox (control me.dual) []
        registering := x.registering ++ foundStores nonce
          (storeIds.map fun e => hashStoreIdWithNonce (H := D) nonce e.1) x.node.activeStores }
        peer a := by
      rintro a (ha | ha)
      · exact Or.inl ha
      · refine Or.inr ?_
        rw [List.map_append]
        exact List.mem_append_left _ ha
    rcases h.found a hx hy with ⟨hs, hs'⟩ | hnews | hnews | hcarries | hcarries
    · exact Or.inl ⟨hseeks a hs, hs'⟩
    · exact Or.inr (Or.inl hnews)
    · exact Or.inr (Or.inr (Or.inl hnews))
    · exact Or.inr (Or.inr (Or.inr (Or.inl (hcarries.mono id))))
    · -- the store was advertised, and runs here
      obtain ⟨chan, hc⟩ := hx
      refine Or.inr (Or.inr (Or.inr (Or.inr ⟨?_, Or.inr ?_⟩)))
      · obtain ⟨e, he, rfl⟩ := List.mem_map.mp hcarries
        rw [hshared]
        exact List.mem_map_of_mem (List.mem_filter.mpr ⟨he, decide_eq_true
          (Node.mem_runningIds.mpr ⟨chan, hc⟩)⟩)
      · rw [List.map_append]
        exact List.mem_append_right _
          (List.mem_map.mpr ⟨(a, chan), (hfound (a, chan)).mpr ⟨hc, hcarries⟩, rfl⟩)
  · refine (List.length_map Prod.fst).symm.trans_le (hours.nodup_found.subperm ?_).length_le
    intro a ha
    obtain ⟨e, he, rfl⟩ := List.mem_map.mp ha
    exact hrunning (Node.mem_runningIds.mpr ((hfound e).mp he).1.runs)
  · have hle := (hnodup.subperm hadvertised).length_le
    rw [List.length_map] at hle
    exact hshared ▸ (List.length_filter_le _ _).trans hle

/-- **A stream is asked for**: its store runs, and is asked. -/
theorem Sound.ask {store : Store StoreId}
    (h : Sound own peer into ids me x y φ (.requested streamId store)) : ∃ chan,
      x.node.storeChan store.1 = some chan ∧ owner streamId = me.dual ∧
      Sound own peer into ids me
        { x with
          inbox := Function.update x.inbox (control me.dual) []
          asked := some (streamId, store.1, chan) }
        y φ (.asked streamId store (store.1, chan)) := by
  obtain ⟨hhas, ⟨chan, hc⟩, hlatest, howner, hfree⟩ := h.dir'.holds
  have htalk := h.dir'.talk
  have hstreams := h.dir'.streams
  refine ⟨chan, hc, howner, ⟨h.coherent.node, h.coherent.has, h.coherent.running,
    h.coherent.first⟩, h.coherent', h.nodup, ?_, ⟨⟨htalk.initiative, Function.update_self ..,
      htalk.responses, rfl⟩, ⟨hhas, rfl, hc, hlatest, howner, hfree⟩, h.dir'.stage, h.dir'.met,
      ?_, h.dir'.budget⟩, fun a hx hy => ?_⟩
  · refine h.dir.congr rfl rfl (Function.update_of_ne (control_dual_ne me).symm _ _) rfl
      (fun _ he => he) (fun _ he => he) rfl (fun _ _ => rfl) (fun _ _ => rfl) (fun _ => rfl)
      (fun _ => rfl) rfl rfl rfl h.dir.met fun k hk hne hframe => h.dir.streams.frames k hk hne
        (hframe.imp_right (Or.imp_left (inbox_of_update hk hne)))
  · exact hstreams.congr (fun _ _ h => by cases h) hstreams.latest le_rfl (fun _ _ => rfl)
      (fun _ _ => rfl) (fun _ => Iff.rfl) fun k hk hne hframe =>
        hstreams.frames k hk hne (hframe.imp_left (inbox_of_update hk hne))
  · rcases h.found a hx hy with hmet | hnews | hnews | hcarries | hcarries
    · exact Or.inl hmet
    · exact Or.inr (Or.inl hnews)
    · exact Or.inr (Or.inr (Or.inl hnews))
    · exact Or.inr (Or.inr (Or.inr (Or.inl (hcarries.mono id))))
    · exact hcarries.elim

/-! ### Streams are created -/

omit [StoreBytes StoreId] [LinearOrder StoreId] in
lemma createStream_of_none {streamMap : BTreeMap StreamId (Option StoreId)} {v : Option StoreId}
    (h : streamMap[k]? = none) : createStream streamMap k v = (streamMap.insert k v, true) := by
  refine if_neg fun hc => ?_
  obtain ⟨w, hw⟩ := contains_iff.mp hc
  rw [h] at hw
  cases hw

lemma Sound.first_insert (h : Sound own peer into ids me x y φ ψ) {v : Option StoreId}
    (hfree : x.node.streamMap[k]? = none) (i : Party) :
    (x.node.streamMap.insert k v)[control i]? = some none := by
  refine (get_insert.trans (if_neg ?_)).trans (h.coherent.first i)
  rintro rfl
  rw [h.coherent.first i] at hfree
  cases hfree

section Agree

variable [DecidableEq H] [ECGHeader Header HeaderId] [CRDT T Op (OperationId HeaderId)]
variable {OT : OssaType StoreId H HeaderId Body T Op} {device : Party → DeviceId}

/-- **The store agrees**: the stream is created on this side, and its task is spawned. -/
theorem Sound.agree {store their : Store StoreId}
    (h : Sound (device me) (device me.dual) OT.into ids me x y φ (.asked streamId store their))
    (env : Environment) (chan : Chan) : ∃ x' y',
      Connection.agree OT device me x y env chan = .ok (x', y') ∧
      Sound (device me) (device me.dual) OT.into ids me x' y' φ (.answered streamId store) ∧
      x'.work ids (device me.dual) φ = x.work ids (device me.dual) φ + 1 ∧
      y'.work ids (device me) (.answered streamId store) + 2 =
        y.work ids (device me) (.asked streamId store their) := by
  obtain ⟨hhas, hid, htheir, hlatest, howner, hfree⟩ := h.dir'.holds
  have htalk := h.dir'.talk
  have hstreams := h.dir'.streams
  have hstage := h.dir'.stage store.1
  rw [show Phase.progress store.1 (.asked streamId store their) = 1 from if_pos rfl] at hstage
  obtain ⟨hzero, hstage⟩ := hstage.agree
  obtain ⟨node', htell, hm⟩ :=
    h.coherent.node.syncWithPeer env htheir (hid ▸ hzero) chan
  have hkept : ∀ e, x.node.Has e → node'.Has e := fun e he => (hm.storeChan_eq e.1).trans he
  have hruns : ∀ a, node'.Runs a → x.node.Runs a := fun a ⟨c, hc⟩ =>
    ⟨c, (hm.storeChan_eq a).symm.trans hc⟩
  have hout : ∀ a, node'.outRank (device me.dual) a = x.node.outRank (device me.dual) a :=
    fun a => (hm.outRank a).trans (by split_ifs with heq <;> simp [heq])
  have hother : ∀ k, k ≠ streamId →
      (x.node.streamMap.insert streamId (some their.1))[k]? = x.node.streamMap[k]? := fun k hk =>
    get_insert.trans (if_neg hk)
  have hself : (x.node.streamMap.insert streamId (some their.1))[streamId]? = some (some their.1) :=
    get_insert.trans (if_pos rfl)
  -- an id of this side is not the one that the other side chose
  have hmine : ∀ k, owner k = me → k ≠ streamId := by
    rintro k hk rfl
    exact dual_ne me (howner.symm.trans hk)
  have hunused : y.node.streamMap[streamId]? = none := by
    cases hv : y.node.streamMap[streamId]? with
    | none => rfl
    | some v =>
      rw [hstreams.ours streamId v howner hv] at hfree
      cases hfree
  have heq := Side.tell_eq { x with asked := none } (device me.dual) htell
  refine ⟨{ x with
      node := { node' with streamMap := x.node.streamMap.insert streamId (some their.1) }
      asked := none
      managerChannel := x.managerChannel ++ []
      incoming := x.incoming ++ [their] },
    y.push (control me.dual) (.manager (.createStoreResponse ⟨.ok true⟩)), ?_,
    ⟨⟨⟨hm.coherent.handler⟩, fun e he => ?_, fun a ha => h.coherent.running a (hruns a ha),
      h.first_insert hfree⟩, ⟨h.coherent'.node, h.coherent'.has, h.coherent'.running,
      h.coherent'.first⟩, h.nodup, ?_, ⟨⟨htalk.initiative, htalk.requests, ?_, rfl⟩,
      ⟨hhas, howner, hid ▸ hself, hunused⟩, fun a => ?_, fun a ha => ?_, ?_, h.dir'.budget⟩,
      fun a hx hy => ?_⟩, ?_, ?_⟩
  · unfold Connection.agree
    rw [htalk.asked]
    simp only [Phase.asking, orFault_some, ok_bind, heq]
    simp only [List.findSome?_cons, spawnTask?, if_true, orFault_some, ok_bind, hm.streamMap,
      createStream_of_none hfree]
    rfl
  · have hold := h.coherent.has e
    simp only [List.mem_append, List.append_nil, List.mem_singleton] at he hold
    refine hkept e ?_
    rcases he with he | he | rfl
    · exact hold (Or.inl he)
    · exact hold (Or.inr he)
    · exact htheir
  · refine h.dir.congr rfl (inbox_push_of_ne (control_dual_ne me).symm) rfl rfl hkept
      (fun _ he => he) rfl (fun k hk => hother k (hmine k hk)) (fun _ _ => rfl) hout
      (fun _ => rfl) (List.append_nil _) rfl rfl (fun a ha => ?_) fun k hk hne hframe =>
        h.dir.streams.frames k hk hne (hframe.imp_left (inbox_of_push hk hne))
    rcases ha with ha | ha
    · have hnow : node'.knows (device me.dual) a = true := ha
      rw [hm.knows a] at hnow
      split_ifs at hnow with heq
      · rw [heq, hid]
        exact hhas.runs
      · exact h.dir.met a (Or.inl hnow)
    · exact h.dir.met a (Or.inr ha)
  · rw [inbox_push, if_pos rfl, htalk.responses]
    rfl
  · show Stage _ (node'.inRank (device me.dual) a) _ _ (tally a (x.incoming ++ [their]))
      (if store.1 = a then 2 else 0)
    rw [hm.inRank a]
    by_cases ha : a = store.1
    · rw [if_pos (ha.trans hid.symm), if_pos ha.symm, ha, ← hid, tally_concat]
      rw [← hid] at hstage
      exact hstage
    · have hne : a ≠ their.1 := hid ▸ ha
      have hold := h.dir'.stage a
      rw [show Phase.progress a (.asked streamId store their) = 0 from if_neg (Ne.symm ha)] at hold
      rw [if_neg hne, if_neg (Ne.symm ha), tally_concat_ne _ hne]
      exact hold
  · obtain ⟨c, hc⟩ := h.dir'.met a ha
    exact ⟨c, (hm.storeChan_eq a).trans hc⟩
  · have hrank : ∀ a, node'.inRank (device me.dual) a ≠ 0 ↔
        a = their.1 ∨ x.node.inRank (device me.dual) a ≠ 0 := fun a => by
      rw [hm.inRank a]
      split_ifs with heq
      · simp [heq]
      · simp [heq]
    refine ⟨hstreams.latest, fun k v hk hv => ?_, fun k v hk hv => ?_, fun k v hk hv => ?_,
      fun a ha => ?_, fun k a hk hv => ?_, fun k k' a hk hk' hv hv' => ?_,
      fun k hk hne hframe => hstreams.frames k hk hne
        (hframe.imp_right (Or.imp_left (inbox_of_push hk hne)))⟩
    · by_cases heq : k = streamId
      · exact heq ▸ hlatest.le
      · exact hstreams.bound k v hk ((hother k heq).symm.trans hv)
    · have hne : k ≠ streamId := fun heq => by
        rw [heq] at hv
        cases hunused.symm.trans hv
      exact (hother k hne).trans (hstreams.ours k v hk hv)
    · by_cases heq : k = streamId
      · exact Or.inr ⟨store, heq ▸ rfl⟩
      · obtain hv | ⟨s, hs⟩ := hstreams.theirs k v hk ((hother k heq).symm.trans hv)
        · exact Or.inl hv
        · cases hs
    · rcases (hrank a).mp ha with rfl | ha
      · exact ⟨streamId, howner, hself⟩
      · obtain ⟨k, hk, hv⟩ := hstreams.serves a ha
        refine ⟨k, hk, (hother k fun heq => ?_).trans hv⟩
        rw [heq] at hv
        cases hfree.symm.trans hv
    · refine (hrank a).mpr ?_
      by_cases heq : k = streamId
      · subst heq
        cases hself.symm.trans hv
        exact Or.inl rfl
      · exact Or.inr (hstreams.served k a hk ((hother k heq).symm.trans hv))
    · -- the store had no stream before
      have hnone : ∀ k a, owner k = me.dual → k ≠ streamId →
          (x.node.streamMap.insert streamId (some their.1))[k]? = some (some a) → a ≠ their.1 := by
        rintro k a hk hne hv rfl
        exact hstreams.served k _ hk ((hother k hne).symm.trans hv) (hid ▸ hzero)
      by_cases heq : k = streamId <;> by_cases heq' : k' = streamId
      · exact heq.trans heq'.symm
      · subst heq
        cases hself.symm.trans hv
        exact absurd rfl (hnone k' _ hk' heq' hv')
      · subst heq'
        cases hself.symm.trans hv'
        exact absurd rfl (hnone k _ hk heq hv)
      · exact hstreams.unique k k' a hk hk' ((hother k heq).symm.trans hv)
          ((hother k' heq').symm.trans hv')
  · have hseeks : x.Seeks (device me.dual) a → Side.Seeks { x with
        node := { node' with streamMap := x.node.streamMap.insert streamId (some their.1) }
        asked := none
        managerChannel := x.managerChannel ++ []
        incoming := x.incoming ++ [their] } (device me.dual) a :=
      Or.imp_left fun ha => (hout a).trans_ne ha
    rcases h.found a (hruns a hx) hy with ⟨hs, hs'⟩ | hnews | hnews | hcarries | hcarries
    · exact Or.inl ⟨hseeks hs, hs'⟩
    · exact Or.inr (Or.inl hnews)
    · exact Or.inr (Or.inr (Or.inl hnews))
    · exact Or.inr (Or.inr (Or.inr (Or.inl (hcarries.mono id))))
    · exact hcarries.elim
  · have hunasked : ids.countP (fun a => decide (node'.outRank (device me.dual) a = 0)) =
        x.unasked ids (device me.dual) := List.countP_congr fun a _ => by rw [hout a]
    show 6 * (ids.countP (fun a => decide (node'.outRank (device me.dual) a = 0)) +
      (x.managerChannel ++ []).length) + x.registering.length + x.outgoing.length +
      (x.incoming ++ [their]).length + φ.weight ids.length +
      (if x.changed || φ.isStarting then 2 * ids.length + 3 else 0) =
        x.work ids (device me.dual) φ + 1
    rw [hunasked, List.append_nil, List.length_append, List.length_singleton, Side.work]
    omega
  · have hphase : y.work ids (device me) (.answered streamId store) + 4 =
      y.work ids (device me) (.asked streamId store their) + 2 :=
      y.work_phase (.answered streamId store) (.asked streamId store their) rfl
    show y.work ids (device me) (.answered streamId store) + 2 = _
    omega

end Agree

/-! ### The manager with initiative goes on -/

/-- **The stores that both sides have are known now** to the side that advertised them. -/
theorem Sound.share {storeIds : List (Store StoreId)} {haveStores : StoreBitmap}
    (h : Sound own peer into ids me x y (.shared storeIds haveStores) ψ) :
    Sound own peer into ids me
      { x with
        inbox := Function.update x.inbox (control me) []
        initiative := .idle
        registering := x.registering ++ sharedStores storeIds haveStores }
      y (.idle false) ψ := by
  have hshared := h.dir.holds
  have htalk := h.dir.talk
  have hstreams := h.dir.streams
  refine ⟨⟨h.coherent.node, fun e he => ?_, h.coherent.running, h.coherent.first⟩, h.coherent',
    h.nodup, ⟨⟨rfl, htalk.requests, Function.update_self .., htalk.asked⟩, trivial, h.dir.stage,
      fun a ha => ?_, ?_, h.dir.budget⟩, ?_, fun a hx hy => ?_⟩
  · have hold := h.coherent.has e
    simp only [List.mem_append] at he hold
    rcases he with ((he | he | he) | he) | he
    · exact hold (Or.inl (Or.inl (Or.inl he)))
    · exact hold (Or.inl (Or.inl (Or.inr he)))
    · exact (hshared e he).1
    · exact hold (Or.inl (Or.inr he))
    · exact hold (Or.inr he)
  · rcases ha with ha | ha
    · exact h.dir.met a (Or.inl ha)
    · obtain ⟨e, he, rfl⟩ := List.mem_map.mp ha
      rcases List.mem_append.mp he with he | he
      · exact h.dir.met e.1 (Or.inr (List.mem_map_of_mem he))
      · exact (hshared e he).2
  · exact hstreams.congr (fun _ _ h => by cases h) hstreams.latest le_rfl (fun _ _ => rfl) (fun _ _ => rfl)
      (fun _ => Iff.rfl) fun k hk hne hframe => hstreams.frames k hk hne
        (hframe.imp_right (Or.imp_left (inbox_of_update hk hne)))
  · exact h.dir'.congr rfl (Function.update_of_ne (control_dual_ne me) _ _) rfl rfl
      (fun _ he => he) (fun _ he => he) rfl (fun _ _ => rfl) (fun _ _ => rfl) (fun _ => rfl)
      (fun _ => rfl) rfl rfl rfl h.dir'.met fun k hk hne hframe => h.dir'.streams.frames k hk hne
        (hframe.imp_left (inbox_of_update hk hne))
  · have hseeks : ∀ a, x.Seeks peer a ∨ a ∈ (sharedStores storeIds haveStores).map Prod.fst →
        Side.Seeks { x with
          inbox := Function.update x.inbox (control me) []
          initiative := .idle
          registering := x.registering ++ sharedStores storeIds haveStores } peer a := by
      rintro a ((ha | ha) | ha)
      · exact Or.inl ha
      · exact Or.inr (by rw [List.map_append]; exact List.mem_append_left _ ha)
      · exact Or.inr (by rw [List.map_append]; exact List.mem_append_right _ ha)
    rcases h.found a hx hy with ⟨hs, hs'⟩ | (hnews | hnews) | hnews | hcarries | hcarries
    · exact Or.inl ⟨hseeks a (Or.inl hs), hs'⟩
    · exact Or.inr (Or.inl (Or.inl hnews))
    · cases htalk.initiative.symm.trans hnews
    · exact Or.inr (Or.inr (Or.inl hnews))
    · exact Or.inl ⟨hseeks a (Or.inr hcarries.1), hcarries.2⟩
    · exact Or.inr (Or.inr (Or.inr (Or.inr (hcarries.mono fun ha => hseeks a (Or.inl ha)))))

/-- **The other side has the stream**: it is created on this side too, and its task is spawned. -/
theorem Sound.create {store : Store StoreId}
    (h : Sound own peer into ids me x y (.answered streamId store) ψ) :
    x.node.streamMap[streamId]? = none ∧ Sound own peer into ids me
      { x with
        node := { x.node with streamMap := x.node.streamMap.insert streamId (some store.1) }
        inbox := Function.update x.inbox (control me) []
        initiative := .idle
        outgoing := x.outgoing ++ [store] }
      y (.idle false) ψ := by
  obtain ⟨hhas, howner, hused, hfree⟩ := h.dir.holds
  have htalk := h.dir.talk
  have hstreams := h.dir.streams
  have hother : ∀ k, k ≠ streamId →
      (x.node.streamMap.insert streamId (some store.1))[k]? = x.node.streamMap[k]? := fun k hk =>
    get_insert.trans (if_neg hk)
  have hself : (x.node.streamMap.insert streamId (some store.1))[streamId]? =
      some (some store.1) := get_insert.trans (if_pos rfl)
  have hours : ∀ k v, x.node.streamMap[k]? = some v →
      (x.node.streamMap.insert streamId (some store.1))[k]? = some v := fun k v hv => by
    refine (hother k fun heq => ?_).trans hv
    rw [heq, hfree] at hv
    cases hv
  have htheirs : ∀ k, owner k = me.dual → k ≠ streamId := by
    rintro k hk rfl
    exact dual_ne me (hk.symm.trans howner)
  refine ⟨hfree, ⟨⟨h.coherent.node.handler⟩, fun e he => ?_, h.coherent.running,
    h.first_insert hfree⟩, h.coherent', h.nodup,
    ⟨⟨rfl, htalk.requests, Function.update_self .., htalk.asked⟩, trivial, fun a => ?_,
      h.dir.met, ?_, h.dir.budget⟩, ?_, fun a hx hy => ?_⟩
  · have hold := h.coherent.has e
    simp only [List.mem_append, List.mem_singleton] at he hold
    rcases he with (he | he | rfl) | he
    · exact hold (Or.inl (Or.inl he))
    · exact hold (Or.inl (Or.inr he))
    · exact hhas
    · exact hold (Or.inr he)
  · have hstage := h.dir.stage a
    show Stage _ _ _ (tally a (x.outgoing ++ [store])) _ 0
    by_cases ha : a = store.1
    · rw [show Phase.progress a (.answered streamId store) = 2 from if_pos ha.symm] at hstage
      subst ha
      rw [tally_concat]
      exact hstage.conclude
    · rw [show Phase.progress a (.answered streamId store) = 0 from if_neg (Ne.symm ha)] at hstage
      rw [tally_concat_ne _ ha]
      exact hstage
  · refine ⟨hstreams.latest, hstreams.bound, fun k v hk hv => ?_, fun k v hk hv => Or.inl ?_,
      hstreams.serves, hstreams.served, hstreams.unique, fun k hk hne hframe => ?_⟩
    · by_cases heq : k = streamId
      · subst heq
        exact hused.trans (hself.symm.trans hv)
      · exact hstreams.ours k v hk ((hother k heq).symm.trans hv)
    · by_cases heq : k = streamId
      · subst heq
        exact hself.trans (hused.symm.trans hv)
      · obtain hv | ⟨s, hs⟩ := hstreams.theirs k v hk hv
        · exact hours k v hv
        · cases hs
          exact absurd rfl heq
    · obtain ⟨v, hv⟩ := hstreams.frames k hk hne
        (hframe.imp_right (Or.imp_left (inbox_of_update hk hne)))
      exact ⟨v, hours k v hv⟩
  · exact h.dir'.congr rfl (Function.update_of_ne (control_dual_ne me) _ _) rfl rfl
      (fun _ he => he) (fun _ he => he) rfl (fun _ _ => rfl) (fun k hk => hother k (htheirs k hk))
      (fun _ => rfl) (fun _ => rfl) rfl rfl rfl h.dir'.met fun k hk hne hframe =>
        h.dir'.streams.frames k hk hne (hframe.imp_left (inbox_of_update hk hne))
  · rcases h.found a hx hy with hmet | (hnews | hnews) | hnews | hcarries | hcarries
    · exact Or.inl hmet
    · exact Or.inr (Or.inl (Or.inl hnews))
    · cases htalk.initiative.symm.trans hnews
    · exact Or.inr (Or.inr (Or.inl hnews))
    · exact hcarries.elim
    · exact Or.inr (Or.inr (Or.inr (Or.inr (hcarries.mono id))))

end Ossa.Connection
