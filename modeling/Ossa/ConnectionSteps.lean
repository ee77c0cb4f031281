import Ossa.ConnectionInv

/-!
Each event of a connection can happen when it is enabled, and keeps what holds of the connection.
-/

namespace Ossa.Connection

open Ossa.Loop Ossa.Util Ossa.Collections Ossa.Ecg Ossa.Crdt Ossa.Network Ossa.Store Ossa.Manager

variable {StoreId H HeaderId Header Body T Op D : Type} [LinearOrder StoreId]
variable [LinearOrder HeaderId]
variable {x x' y y' : Side StoreId H HeaderId Header T D} {φ φ' ψ : Phase StoreId}
variable {me : Party} {own peer : DeviceId} {ids : List StoreId} {a : StoreId}

/-! ### What does not depend on everything -/

lemma Streams.congr (h : Streams own me x y φ)
    (hφ : ∀ k store, φ = .answered k store → φ' = .answered k store)
    (howner : owner x'.latestStreamId = me) (hlatest : x.latestStreamId ≤ x'.latestStreamId)
    (hx : ∀ k, owner k = me → x'.node.streamMap[k]? = x.node.streamMap[k]?)
    (hy : ∀ k, owner k = me → y'.node.streamMap[k]? = y.node.streamMap[k]?)
    (hrank : ∀ a, y'.node.inRank own a ≠ 0 ↔ y.node.inRank own a ≠ 0)
    (hframes : ∀ k, owner k = me → k ≠ control me → y'.inbox k ≠ [] ∨ x'.inbox k ≠ [] ∨
      y'.heard k = true → ∃ v, x.node.streamMap[k]? = some v) :
    Streams own me x' y' φ' where
  latest := howner
  bound k v hk hv := (h.bound k v hk (hy k hk ▸ hv)).trans hlatest
  ours k v hk hv := (hy k hk).trans (h.ours k v hk ((hx k hk).symm.trans hv))
  theirs k v hk hv := by
    rw [hx k hk]
    refine (h.theirs k v hk ((hy k hk).symm.trans hv)).imp_right fun ⟨store, hstore⟩ => ?_
    exact ⟨store, hφ k store hstore⟩
  serves a ha := by
    obtain ⟨k, hk, hv⟩ := h.serves a ((hrank a).mp ha)
    exact ⟨k, hk, (hy k hk).trans hv⟩
  served k a hk hv := (hrank a).mpr (h.served k a hk ((hy k hk).symm.trans hv))
  unique k k' a hk hk' hv hv' :=
    h.unique k k' a hk hk' ((hy k hk).symm.trans hv) ((hy k' hk').symm.trans hv')
  frames k hk hne hframe := by
    rw [hx k hk]
    exact hframes k hk hne hframe

lemma Phase.Carries.mono {p : DeviceId} (h : φ.Carries p y a)
    (hseeks : y.Seeks p a → y'.Seeks p a) : φ.Carries p y' a := by
  cases φ with
  | advertised nonce storeIds => exact h
  | shared storeIds haveStores => exact ⟨h.1, hseeks h.2⟩
  | _ => exact h

lemma Found.mono (h : Found own peer x y φ ψ a) (hx : x.Seeks peer a → x'.Seeks peer a)
    (hy : y.Seeks own a → y'.Seeks own a) (hnews : x.News → x'.News) (hnews' : y.News → y'.News) :
    Found own peer x' y' φ ψ a := by
  rcases h with h | h | h | h | h
  · exact Or.inl ⟨hx h.1, hy h.2⟩
  · exact Or.inr (Or.inl (hnews h))
  · exact Or.inr (Or.inr (Or.inl (hnews' h)))
  · exact Or.inr (Or.inr (Or.inr (Or.inl (h.mono hy))))
  · exact Or.inr (Or.inr (Or.inr (Or.inr (h.mono hx))))

lemma Found.symm (h : Found own peer x y φ ψ a) : Found peer own y x ψ φ a := by
  rcases h with h | h | h | h | h
  · exact Or.inl ⟨h.2, h.1⟩
  · exact Or.inr (Or.inr (Or.inl h))
  · exact Or.inr (Or.inl h)
  · exact Or.inr (Or.inr (Or.inr (Or.inr h)))
  · exact Or.inr (Or.inr (Or.inr (Or.inl h)))

variable [StoreBytes StoreId] [Hash D]

lemma Phase.Holds.mono (h : φ.Holds me ids x y) (hx : ∀ e, x.node.Has e → x'.node.Has e)
    (hy : ∀ e, y.node.Has e → y'.node.Has e) (hlatest : x'.latestStreamId = x.latestStreamId)
    (hxs : ∀ k, owner k = me → x'.node.streamMap[k]? = x.node.streamMap[k]?)
    (hys : ∀ k, owner k = me → y'.node.streamMap[k]? = y.node.streamMap[k]?) :
    φ.Holds me ids x' y' := by
  have hruns : ∀ a, y.node.Runs a → y'.node.Runs a := fun a ⟨chan, hc⟩ => ⟨chan, hy (a, chan) hc⟩
  cases φ with
  | idle starting => trivial
  | advertised nonce storeIds =>
    obtain ⟨hfree, hhas, hrest⟩ := h
    exact ⟨hfree, fun e he => hx e (hhas e he), hrest⟩
  | shared storeIds haveStores => exact fun e he => ⟨hx e (h e he).1, hruns _ (h e he).2⟩
  | requested streamId store =>
    obtain ⟨hhas, hrun, hk, howner, hfree⟩ := h
    exact ⟨hx _ hhas, hruns _ hrun, hlatest ▸ hk, howner, (hys _ howner).trans hfree⟩
  | asked streamId store their =>
    obtain ⟨hhas, hid, htheir, hk, howner, hfree⟩ := h
    exact ⟨hx _ hhas, hid, hy _ htheir, hlatest ▸ hk, howner, (hys _ howner).trans hfree⟩
  | answered streamId store =>
    obtain ⟨hhas, howner, hused, hfree⟩ := h
    exact ⟨hx _ hhas, howner, (hys _ howner).trans hused, (hxs _ howner).trans hfree⟩

lemma Talk.congr (h : Talk me x y φ) (hinit : x'.initiative = x.initiative)
    (hy : y'.inbox (control me) = y.inbox (control me))
    (hx : x'.inbox (control me) = x.inbox (control me)) (hasked : y'.asked = y.asked) :
    Talk me x' y' φ :=
  ⟨hinit.trans h.initiative, hy.trans h.requests, hx.trans h.responses, hasked.trans h.asked⟩

lemma Dir.congr (h : Dir own peer me ids x y φ) (hinit : x'.initiative = x.initiative)
    (hy : y'.inbox (control me) = y.inbox (control me))
    (hx : x'.inbox (control me) = x.inbox (control me)) (hasked : y'.asked = y.asked)
    (hhas : ∀ e, x.node.Has e → x'.node.Has e) (hhas' : ∀ e, y.node.Has e → y'.node.Has e)
    (hlatest : x'.latestStreamId = x.latestStreamId)
    (hxs : ∀ k, owner k = me → x'.node.streamMap[k]? = x.node.streamMap[k]?)
    (hys : ∀ k, owner k = me → y'.node.streamMap[k]? = y.node.streamMap[k]?)
    (hout : ∀ a, x'.node.outRank peer a = x.node.outRank peer a)
    (hin : ∀ a, y'.node.inRank own a = y.node.inRank own a)
    (hqueue : x'.managerChannel = x.managerChannel) (houtgoing : x'.outgoing = x.outgoing)
    (hincoming : y'.incoming = y.incoming) (hmet : ∀ a, x'.Met peer a → y.node.Runs a)
    (hframes : ∀ k, owner k = me → k ≠ control me → y'.inbox k ≠ [] ∨ x'.inbox k ≠ [] ∨
      y'.heard k = true → ∃ v, x.node.streamMap[k]? = some v) :
    Dir own peer me ids x' y' φ where
  talk := h.talk.congr hinit hy hx hasked
  holds := h.holds.mono hhas hhas' hlatest hxs hys
  stage a := by
    rw [hout, hin, hqueue, houtgoing, hincoming]
    exact h.stage a
  met a ha := by
    obtain ⟨chan, hc⟩ := hmet a ha
    exact ⟨chan, hhas' (a, chan) hc⟩
  streams := h.streams.congr (fun _ _ => id) (hlatest ▸ h.streams.latest) hlatest.ge hxs hys
    (fun a => by rw [hin]) hframes
  budget := by
    rw [hlatest, hqueue, Side.unasked, List.countP_congr fun a _ => by rw [hout a]]
    exact h.budget

variable [Hash H] {into : H → StoreId}

lemma Sound.symm (h : Sound own peer into ids me x y φ ψ) :
    Sound peer own into ids me.dual y x ψ φ :=
  ⟨h.coherent', h.coherent, h.nodup, h.dir', (dual_dual me).symm ▸ h.dir,
    fun a hy hx => (h.found a hx hy).symm⟩

/-! ### A store moves -/

omit [StoreBytes StoreId] [Hash D] in
lemma unasked_moves {node' : Node StoreId H HeaderId Header T (Option StoreId)} {out inc : ℕ}
    {known : Bool} (hids : ids.Nodup) (ha : a ∈ ids)
    (hm : Node.Moves into peer a x.node node' out inc known) :
    (ids.countP fun b => decide (node'.outRank peer b = 0)) +
        (if x.node.outRank peer a = 0 then 1 else 0) =
      x.unasked ids peer + if out = 0 then 1 else 0 := by
  have hperm := List.perm_cons_erase ha
  have hrest : ((ids.erase a).countP fun b => decide (node'.outRank peer b = 0)) =
      (ids.erase a).countP fun b => decide (x.node.outRank peer b = 0) :=
    List.countP_congr fun b hb => by
      rw [hm.outRank b, if_neg (hids.mem_erase_iff.mp hb).1]
  rw [Side.unasked, hperm.countP_eq, hperm.countP_eq, List.countP_cons, List.countP_cons, hrest,
    hm.outRank a, if_pos rfl]
  simp only [decide_eq_true_eq]
  omega

section Moves

variable {store : Store StoreId} {node' : Node StoreId H HeaderId Header T (Option StoreId)}
variable {registering outgoing incoming : List (Store StoreId)}
variable {out inc : ℕ} {known : Bool}

/-- **One store of the first side moves**, and what is on its way to it changes. -/
theorem Sound.moves (h : Sound own peer into ids me x y φ ψ)
    (managerChannel : List (Store StoreId)) (hstore : x.node.Has store)
    (hm : Node.Moves into peer store.1 x.node node' out inc known)
    (hlists : ∀ a, a ≠ store.1 → tally a managerChannel = tally a x.managerChannel ∧
      tally a outgoing = tally a x.outgoing ∧ tally a incoming = tally a x.incoming)
    (hqueue : managerChannel ⊆ store :: x.managerChannel) (hsub : registering ⊆ x.registering)
    (hout : outgoing ⊆ x.outgoing) (hincoming : incoming ⊆ x.incoming)
    (hkeep : ∀ e ∈ x.registering, e ∈ registering ∨ (e.1 = store.1 ∧ out ≠ 0))
    (hknown : known = true → x.Met peer store.1)
    (hasked : x.node.outRank peer store.1 ≠ 0 → out ≠ 0)
    (hinc : inc ≠ 0 ↔ x.node.inRank peer store.1 ≠ 0)
    (hbudget : managerChannel.length + (if out = 0 then 1 else 0) =
      x.managerChannel.length + if x.node.outRank peer store.1 = 0 then 1 else 0)
    (hstage : Stage out (y.node.inRank own store.1) (tally store.1 managerChannel)
      (tally store.1 outgoing) (tally store.1 y.incoming) (φ.progress store.1))
    (hstage' : Stage (y.node.outRank own store.1) inc (tally store.1 y.managerChannel)
      (tally store.1 y.outgoing) (tally store.1 incoming) (ψ.progress store.1)) :
    Sound own peer into ids me
        { x with node := node', managerChannel, registering, outgoing, incoming } y φ ψ ∧
      Side.work ids peer
          { x with node := node', managerChannel, registering, outgoing, incoming } φ +
        (x.registering.length + x.outgoing.length + x.incoming.length) =
      x.work ids peer φ + (registering.length + outgoing.length + incoming.length) := by
  have hcount := unasked_moves h.nodup (h.coherent.running _ hstore.runs) hm
  have hhas : ∀ e ∈ managerChannel ++ registering ++ outgoing ++ incoming, x.node.Has e := by
    intro e he
    simp only [List.mem_append] at he
    have hold := h.coherent.has e
    simp only [List.mem_append] at hold
    rcases he with ((he | he) | he) | he
    · rcases List.mem_cons.mp (hqueue he) with rfl | he
      · exact hstore
      · exact hold (Or.inl (Or.inl (Or.inl he)))
    · exact hold (Or.inl (Or.inl (Or.inr (hsub he))))
    · exact hold (Or.inl (Or.inr (hout he)))
    · exact hold (Or.inr (hincoming he))
  have hkept : ∀ e, x.node.Has e → node'.Has e := fun e he => (hm.storeChan_eq e.1).trans he
  have hruns : ∀ a, node'.Runs a → x.node.Runs a := fun a ⟨chan, hc⟩ =>
    ⟨chan, (hm.storeChan_eq a).symm.trans hc⟩
  have hseeks : ∀ a, x.Seeks peer a → Side.Seeks
      { x with node := node', managerChannel, registering, outgoing, incoming } peer a := by
    rintro a (ha | ha)
    · refine Or.inl ?_
      show node'.outRank peer a ≠ 0
      rw [hm.outRank a]
      split_ifs with heq
      · exact hasked (heq ▸ ha)
      · exact ha
    · obtain ⟨e, he, rfl⟩ := List.mem_map.mp ha
      rcases hkeep e he with he | ⟨heq, hne⟩
      · exact Or.inr (List.mem_map_of_mem he)
      · refine Or.inl ?_
        show node'.outRank peer e.1 ≠ 0
        rwa [hm.outRank e.1, if_pos heq]
  have hback : ∀ a,
      Side.Met { x with node := node', managerChannel, registering, outgoing, incoming } peer a →
        x.Met peer a := by
    rintro a (ha | ha)
    · have hnow : node'.knows peer a = true := ha
      rw [hm.knows a] at hnow
      split_ifs at hnow with heq
      · exact heq ▸ hknown hnow
      · exact Or.inl hnow
    · obtain ⟨e, he, rfl⟩ := List.mem_map.mp ha
      exact Or.inr (List.mem_map_of_mem (hsub he))
  have hrank : ∀ a, node'.inRank peer a ≠ 0 ↔ x.node.inRank peer a ≠ 0 := fun a => by
    rw [hm.inRank a]
    split_ifs with heq
    · exact heq ▸ hinc
    · rfl
  have hstreams : ∀ {i : Party} k, owner k = i →
      node'.streamMap[k]? = x.node.streamMap[k]? := fun k _ => by rw [hm.streamMap]
  refine ⟨⟨⟨hm.coherent, fun e he => hkept e (hhas e he),
    fun a ha => h.coherent.running a (hruns a ha), fun i => ?_⟩, h.coherent', h.nodup,
    ⟨h.dir.talk.congr rfl rfl rfl rfl, ?_, fun a => ?_,
    fun a ha => h.dir.met a (hback a ha), ?_, ?_⟩, ⟨h.dir'.talk.congr rfl rfl rfl rfl, ?_,
    fun a => ?_, fun a ha => ?_, ?_, h.dir'.budget⟩, fun a hx hy => ?_⟩, ?_⟩
  · exact (congrArg (·[control i]?) hm.streamMap).trans (h.coherent.first i)
  · exact h.dir.holds.mono hkept (fun _ he => he) rfl hstreams fun _ _ => rfl
  · show Stage (node'.outRank peer a) _ _ _ _ _
    rw [hm.outRank a]
    split_ifs with heq
    · exact heq ▸ hstage
    · obtain ⟨hmc, hog, -⟩ := hlists a heq
      show Stage _ _ (tally a managerChannel) (tally a outgoing) _ _
      rw [hmc, hog]
      exact h.dir.stage a
  · exact h.dir.streams.congr (fun _ _ => id) h.dir.streams.latest le_rfl hstreams (fun _ _ => rfl)
      (fun _ => Iff.rfl) h.dir.streams.frames
  · have hbefore := h.dir.budget
    show x.latestStreamId.val + 2 * ((ids.countP fun b => decide (node'.outRank peer b = 0)) +
      managerChannel.length) = _
    omega
  · exact h.dir'.holds.mono (fun _ he => he) hkept rfl (fun _ _ => rfl) hstreams
  · show Stage _ (node'.inRank peer a) _ _ _ _
    rw [hm.inRank a]
    split_ifs with heq
    · exact heq ▸ hstage'
    · obtain ⟨-, -, hic⟩ := hlists a heq
      show Stage _ _ _ _ (tally a incoming) _
      rw [hic]
      exact h.dir'.stage a
  · obtain ⟨chan, hc⟩ := h.dir'.met a ha
    exact ⟨chan, (hm.storeChan_eq a).trans hc⟩
  · exact h.dir'.streams.congr (fun _ _ => id) h.dir'.streams.latest le_rfl (fun _ _ => rfl)
      hstreams hrank h.dir'.streams.frames
  · exact (h.found a (hruns a hx) hy).mono (hseeks a) id id id
  · unfold Side.work Side.unasked at *
    dsimp only
    omega

end Moves

/-! ### The events of a store -/

section Store

variable [DecidableEq H] [ECGHeader Header HeaderId] [CRDT T Op (OperationId HeaderId)]
variable [LinearOrder D]
variable {OT : OssaType StoreId H HeaderId Body T Op} {device : Party → DeviceId}
variable {env : Environment} {store : Store StoreId}

omit [StoreBytes StoreId] [Hash D] [LinearOrder D] in
lemma Side.tell_eq (x : Side StoreId H HeaderId Header T D) (peer : DeviceId)
    {node' : Node StoreId H HeaderId Header T (Option StoreId)}
    {sent : List (Sent StoreId H HeaderId Header T)} {cmd : Command H HeaderId Header Body}
    (h : x.node.tell OT env store.2 cmd = .ok (node', sent)) :
    x.tell OT peer env store cmd = .ok ({ x with
      node := node'
      managerChannel := x.managerChannel ++
        (syncRequested peer sent).map fun storeId => (storeId, store.2) }, sent) := by
  unfold Side.tell
  rw [h]
  rfl

/-- **`RegisterPeers` is handled**: the peer is known, and its manager is asked for a stream. -/
theorem Sound.registerPeer
    (h : Sound (device me) (device me.dual) OT.into ids me x y φ ψ) (hmem : store ∈ x.registering)
    (hconnected : env.connected (device me.dual) = true) :
    ∃ x', act OT device me x y (.registerPeer env store) = .ok (x', y) ∧
      Sound (device me) (device me.dual) OT.into ids me x' y φ ψ ∧
      x'.work ids (device me.dual) φ + 1 = x.work ids (device me.dual) φ := by
  have hhas : x.node.Has store := h.coherent.has store (by simp [hmem])
  have hlength := List.length_erase_of_mem hmem
  have hpos := List.length_pos_of_mem hmem
  have hkeep : ∀ e ∈ x.registering,
      e ∈ x.registering.erase store ∨ e.1 = store.1 := by
    intro e he
    by_cases heq : e = store
    · exact Or.inr (congrArg Prod.fst heq)
    · exact Or.inl ((List.mem_erase_of_ne heq).mpr he)
  have hmet : x.Met (device me.dual) store.1 := Or.inr (List.mem_map_of_mem hmem)
  obtain ⟨node', sent, htell, ⟨hzero, hm, hids⟩ | ⟨hne, hm, hids⟩⟩ :=
    h.coherent.node.registerPeer hhas hconnected
  all_goals
    have heq := Side.tell_eq { x with registering := x.registering.erase store }
      (device me.dual) htell
    rw [hids] at heq
  · have hstage := h.dir.stage store.1
    rw [hzero] at hstage
    obtain ⟨hsound, hwork⟩ := h.moves (x.managerChannel ++ [store]) hhas hm
      (fun a ha => ⟨tally_concat_ne _ ha, rfl, rfl⟩) (by simp) List.erase_subset
      (List.Subset.refl _) (List.Subset.refl _)
      (fun e he => (hkeep e he).imp_right fun heq => ⟨heq, one_ne_zero⟩) (fun _ => hmet)
      (fun _ => one_ne_zero) Iff.rfl (by simp [hzero])
      ((tally_concat store x.managerChannel).symm ▸ hstage.start) (h.dir'.stage store.1)
    exact ⟨_, by rw [act, heq]; rfl, hsound, by omega⟩
  · obtain ⟨hsound, hwork⟩ := h.moves (x.managerChannel ++ []) hhas hm
      (fun a ha => ⟨by simp, rfl, rfl⟩) (by simp) List.erase_subset (List.Subset.refl _)
      (List.Subset.refl _) (fun e he => (hkeep e he).imp_right fun heq => ⟨heq, hne⟩)
      (fun _ => hmet) id Iff.rfl (by simp)
      (by simpa using h.dir.stage store.1) (h.dir'.stage store.1)
    exact ⟨_, by rw [act, heq]; rfl, hsound, by omega⟩

/-- **A command about others** may ask the manager of the peer for a stream as well. -/
theorem Sound.command {storeId : StoreId} {cmd : Command H HeaderId Header Body}
    (h : Sound (device me) (device me.dual) OT.into ids me x y φ ψ)
    (hcmd : cmd.isAbout (device me.dual) = false)
    (hact : act OT device me x y (.command env storeId cmd) = .ok (x', y')) :
    y' = y ∧ Sound (device me) (device me.dual) OT.into ids me x' y φ ψ ∧
      x'.work ids (device me.dual) φ = x.work ids (device me.dual) φ := by
  obtain ⟨chan, hc, hact⟩ := bind_eq_ok.mp hact
  have hhas : x.node.Has (storeId, chan) := orFault_eq_ok.mp hc
  obtain ⟨⟨x₁, sent₁⟩, htell, hact⟩ := bind_eq_ok.mp hact
  cases hact
  obtain ⟨⟨node', sent⟩, hnode, heq⟩ := bind_eq_ok.mp htell
  cases heq
  refine ⟨rfl, ?_⟩
  have hknown : x.node.knows (device me.dual) storeId = true → x.Met (device me.dual) storeId :=
    Or.inl
  rcases h.coherent.node.command hhas hcmd hnode with ⟨hm, hids⟩ | ⟨hzero, hk, hm, hids⟩
  · rw [hids]
    obtain ⟨hsound, hwork⟩ := h.moves (x.managerChannel ++ []) hhas hm
      (fun a ha => ⟨by simp, rfl, rfl⟩) (by simp) (List.Subset.refl _) (List.Subset.refl _)
      (List.Subset.refl _) (fun e he => Or.inl he) hknown id Iff.rfl (by simp)
      (by simpa using h.dir.stage storeId) (h.dir'.stage storeId)
    exact ⟨hsound, Nat.add_right_cancel hwork⟩
  · rw [hids]
    have hstage := h.dir.stage storeId
    rw [show x.node.outRank (device me.dual) storeId = 0 from hzero] at hstage
    obtain ⟨hsound, hwork⟩ := h.moves (x.managerChannel ++ [(storeId, chan)])
      hhas hm (fun a ha => ⟨tally_concat_ne _ ha, rfl, rfl⟩) (by simp) (List.Subset.refl _)
      (List.Subset.refl _) (List.Subset.refl _) (fun e he => Or.inl he) (fun _ => hknown hk)
      (fun _ => one_ne_zero) Iff.rfl
      (by simp [show x.node.outRank (device me.dual) storeId = 0 from hzero])
      ((tally_concat (storeId, chan) x.managerChannel).symm ▸ hstage.start) (h.dir'.stage storeId)
    exact ⟨hsound, Nat.add_right_cancel hwork⟩

/-- **The task registers** that syncs with the peer. -/
theorem Sound.registerOutgoing
    (h : Sound (device me) (device me.dual) OT.into ids me x y φ ψ) (hmem : store ∈ x.outgoing) :
    ∃ x', act OT device me x y (.registerOutgoing env store) = .ok (x', y) ∧
      Sound (device me) (device me.dual) OT.into ids me x' y φ ψ ∧
      x'.work ids (device me.dual) φ + 1 = x.work ids (device me.dual) φ := by
  have hhas : x.node.Has store := h.coherent.has store (by simp [hmem])
  have hlength := List.length_erase_of_mem hmem
  have hpos := List.length_pos_of_mem hmem
  have hstage := h.dir.stage store.1
  rw [tally_erase_self hmem] at hstage
  obtain ⟨hone, hstage⟩ := hstage.registerOutgoing
  obtain ⟨node', sent, htell, hm, hids⟩ :=
    h.coherent.node.registerOutgoing env hhas hone
  have heq := Side.tell_eq { x with outgoing := x.outgoing.erase store } (device me.dual) htell
  rw [hids] at heq
  obtain ⟨hsound, hwork⟩ := h.moves (x.managerChannel ++ []) hhas hm
    (fun a ha => ⟨by simp, tally_erase_ne hmem ha, rfl⟩) (by simp) (List.Subset.refl _)
    List.erase_subset (List.Subset.refl _) (fun e he => Or.inl he) Or.inl (fun _ => two_ne_zero)
    Iff.rfl (by simp [hone]) (by simpa using hstage) (h.dir'.stage store.1)
  exact ⟨_, by rw [act, heq]; rfl, hsound, by omega⟩

/-- **The task registers** that lets the peer sync. -/
theorem Sound.registerIncoming
    (h : Sound (device me) (device me.dual) OT.into ids me x y φ ψ) (hmem : store ∈ x.incoming) :
    ∃ x', act OT device me x y (.registerIncoming env store) = .ok (x', y) ∧
      Sound (device me) (device me.dual) OT.into ids me x' y φ ψ ∧
      x'.work ids (device me.dual) φ + 1 = x.work ids (device me.dual) φ := by
  have hhas : x.node.Has store := h.coherent.has store (by simp [hmem])
  have hlength := List.length_erase_of_mem hmem
  have hpos := List.length_pos_of_mem hmem
  have hstage := h.dir'.stage store.1
  rw [tally_erase_self hmem] at hstage
  obtain ⟨hone, hstage⟩ := hstage.registerIncoming
  obtain ⟨node', sent, htell, hm, hids⟩ :=
    h.coherent.node.registerIncoming env hhas hone
  have heq := Side.tell_eq { x with incoming := x.incoming.erase store } (device me.dual) htell
  rw [hids] at heq
  obtain ⟨hsound, hwork⟩ := h.moves (x.managerChannel ++ []) hhas hm
    (fun a ha => ⟨by simp, rfl, tally_erase_ne hmem ha⟩) (by simp) (List.Subset.refl _)
    (List.Subset.refl _) List.erase_subset (fun e he => Or.inl he) Or.inl id (by simp [hone])
    (by simp) (by simpa using h.dir.stage store.1) hstage
  exact ⟨_, by rw [act, heq]; rfl, hsound, by omega⟩

end Store

end Ossa.Connection
