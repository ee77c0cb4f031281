import Ossa.StoreDownload
import Ossa.StoreSyncing

/-!
A store that syncs and the responders that wait for its graph.

The responder of a peer works on a snapshot of the graph. When it has nothing to send it
subscribes with the tips of its snapshot, and the store answers at once if its own tips
differ, or registers the subscription. No update is lost in between: what a registered
subscriber does not have came from its own peer.
-/

namespace Ossa.Store

open Ossa.Loop Ossa.Util Ossa.Collections Ossa.Ecg Ossa.Crdt

variable {StoreId H HeaderId Header Body T Op : Type} [LinearOrder HeaderId]

/-- What the responder of a peer is at: it works on its last snapshot, it has sent a
subscription that the store has not handled yet, or the store has handled it. -/
inductive Responder (HeaderId Header : Type) [LinearOrder HeaderId]
  | ready (snapshot : Option (UntypedState HeaderId Header))
  | subscribing (snapshot : Option (UntypedState HeaderId Header))
    (tips : Option (BTreeSet HeaderId)) (chan : Chan)
  | waiting (snapshot : Option (UntypedState HeaderId Header)) (chan : Chan)

namespace Responder

variable {HeaderId Header : Type} [LinearOrder HeaderId]

def snapshot : Responder HeaderId Header → Option (UntypedState HeaderId Header)
  | ready snapshot => snapshot
  | subscribing snapshot _ _ => snapshot
  | waiting snapshot _ => snapshot

/-- The channel the responder waits on. -/
def chan : Responder HeaderId Header → Option Chan
  | ready _ => none
  | subscribing _ _ chan => some chan
  | waiting _ chan => some chan

/-- The header is in the snapshot. -/
def Knows (r : Responder HeaderId Header) (h : HeaderId) : Prop :=
  ∃ u, r.snapshot = some u ∧ u.contains h

end Responder

/-- The store, its peers' responders, the next fresh channel, and for each header the peer
whose batch brought it, if any did. -/
structure EcgSystem (StoreId H HeaderId Header T : Type) [LinearOrder HeaderId] where
  handler : Handler StoreId H HeaderId Header T
  responders : DeviceId → Responder HeaderId Header
  nextChan : Chan
  insertedBy : HeaderId → Option DeviceId

inductive EcgEvent (H HeaderId Header Body : Type) [LinearOrder HeaderId]
  | apply (env : Environment) (header : Header) (body : Body)
  | receivedECGOperations (env : Environment) (peer : DeviceId)
    (operations : List (Header × RawECGBody))
  /-- The responder subscribes, with the tips of its snapshot or without. -/
  | subscribe (peer : DeviceId) (withTips : Bool)
  /-- The store handles the responder's subscription. -/
  | arrive (env : Environment) (peer : DeviceId)
  /-- The responder takes the answer. -/
  | pickUp (peer : DeviceId)
  /-- Any other command, short of new metadata. -/
  | other (env : Environment) (cmd : Command H HeaderId Header Body)
    (h : (cmd.isGraph || cmd.isMetadata) = false)

namespace EcgSystem

variable (sys : EcgSystem StoreId H HeaderId Header T)

abbrev store : State StoreId H HeaderId Header T := sys.handler.store

/-- The answers to subscriptions that were sent. -/
def messages : List (Chan × UntypedState HeaderId Header) := ecgMessages sys.store.sent

def setResponder (peer : DeviceId) (r : Responder HeaderId Header) :
    EcgSystem StoreId H HeaderId Header T :=
  { sys with responders := Function.update sys.responders peer r }

/-- The store has the header. -/
def holds (h : HeaderId) : Bool :=
  match sys.store.stateMachine.replica with
  | some (ecg, _) => ecg.contains h
  | none => false

/-- The system after a command; new headers are put down to `origin`. -/
def absorb (handler : Handler StoreId H HeaderId Header T) (origin : Option DeviceId) :
    EcgSystem StoreId H HeaderId Header T :=
  let after := { sys with handler }
  { after with insertedBy := fun h =>
      if after.holds h && !sys.holds h then origin else sys.insertedBy h }

variable [Hash H] [DecidableEq H] [DecidableEq StoreId]
variable [ECGHeader Header HeaderId] [CRDT T Op (OperationId HeaderId)]
variable (OT : OssaType StoreId H HeaderId Body T Op)

/-- The store handles a command. The responders stay, and with them everyone the store tells: one
that left would only end the run. -/
def command (env : Environment) (cmd : Command H HeaderId Header Body)
    (origin : Option DeviceId) : Exec (EcgSystem StoreId H HeaderId Header T) := do
  let handler ← sys.handler.handle OT env.allAlive cmd
  pure (sys.absorb handler origin)

/-- The system after an event; an event that cannot happen leaves it alone. -/
def next : EcgEvent H HeaderId Header Body → Exec (EcgSystem StoreId H HeaderId Header T)
  | .apply env header body => sys.command OT env (.apply header body) none
  | .receivedECGOperations env peer operations =>
    sys.command OT env (.receivedECGOperations peer operations) (some peer)
  | .subscribe peer withTips =>
    match sys.responders peer with
    | .ready snapshot =>
      let tips := if withTips then snapshot.map UntypedState.tips else none
      .ok { sys.setResponder peer (.subscribing snapshot tips sys.nextChan) with
        nextChan := sys.nextChan + 1 }
    | _ => .ok sys
  | .arrive env peer =>
    match sys.responders peer with
    | .subscribing snapshot tips chan =>
      (sys.setResponder peer (.waiting snapshot chan)).command OT env
        (.subscribeECG peer tips chan) none
    | _ => .ok sys
  | .pickUp peer =>
    match sys.responders peer with
    | .waiting _ chan =>
      match sys.messages.lookup chan with
      | some state => .ok (sys.setResponder peer (.ready (some state)))
      | none => .ok sys
    | _ => .ok sys
  | .other env cmd _ => sys.command OT env cmd none

/-- The system after the events of a list. -/
def run (evs : List (EcgEvent H HeaderId Header Body)) :
    Exec (EcgSystem StoreId H HeaderId Header T) :=
  evs.foldlM (fun sys ev => sys.next OT ev) sys

end EcgSystem

/-- A store that syncs, before its responders have subscribed: each has no snapshot yet or an
earlier state of the graph, or it waits since before there was a graph, which is empty. -/
structure EcgSystem.Start (sys : EcgSystem StoreId H HeaderId Header T)
    [ECGHeader Header HeaderId] (ecg : UntypedState HeaderId Header) (latest : T) : Prop where
  replica : sys.store.stateMachine.replica = some (ecg, latest)
  wf : ecg.WellFormed
  ready {p : DeviceId} : sys.store.ecgSubscribers[p]? = none → ∃ snapshot,
    sys.responders p = .ready snapshot ∧ ∀ u ∈ snapshot, u.WellFormed ∧ u.Grows ecg
  waiting {p : DeviceId} {chan : Chan} : sys.store.ecgSubscribers[p]? = some chan →
    sys.responders p = .waiting none chan ∧ chan < sys.nextChan ∧
      chan ∉ sys.messages.map Prod.fst ∧ ∀ h, ¬ ecg.contains h
  distinct {p q : DeviceId} {chan : Chan} : sys.store.ecgSubscribers[p]? = some chan →
    sys.store.ecgSubscribers[q]? = some chan → p = q
  messages {m : Chan × UntypedState HeaderId Header} : m ∈ sys.messages →
    m.1 < sys.nextChan ∧ m.2.WellFormed ∧ m.2.Grows ecg
  once : (sys.messages.map Prod.fst).Nodup
  origins (h : HeaderId) : sys.insertedBy h = none

/-- What responders know, wait for and have been told agrees with the store. -/
structure EcgSystem.Watched (sys : EcgSystem StoreId H HeaderId Header T)
    [ECGHeader Header HeaderId] (ecg : UntypedState HeaderId Header) (latest : T) : Prop where
  replica : sys.store.stateMachine.replica = some (ecg, latest)
  wf : ecg.WellFormed
  snapshots {p : DeviceId} {u : UntypedState HeaderId Header} :
    (sys.responders p).snapshot = some u → u.WellFormed ∧ u.Grows ecg
  tips {p : DeviceId} {snapshot : Option (UntypedState HeaderId Header)}
    {tips : BTreeSet HeaderId} {chan : Chan} :
    sys.responders p = .subscribing snapshot (some tips) chan →
      ∃ u, snapshot = some u ∧ tips = u.tips
  messages {m : Chan × UntypedState HeaderId Header} : m ∈ sys.messages →
    m.1 < sys.nextChan ∧ m.2.WellFormed ∧ m.2.Grows ecg
  fresh {p : DeviceId} {chan : Chan} :
    (sys.responders p).chan = some chan → chan < sys.nextChan
  distinct {p q : DeviceId} {chan : Chan} : (sys.responders p).chan = some chan →
    (sys.responders q).chan = some chan → p = q
  once : (sys.messages.map Prod.fst).Nodup
  subscribing {p : DeviceId} {snapshot : Option (UntypedState HeaderId Header)}
    {tips : Option (BTreeSet HeaderId)} {chan : Chan} :
    sys.responders p = .subscribing snapshot tips chan → chan ∉ sys.messages.map Prod.fst
  registered {p : DeviceId} {chan : Chan} : sys.store.ecgSubscribers[p]? = some chan →
    (∃ snapshot, sys.responders p = .waiting snapshot chan) ∧ chan ∉ sys.messages.map Prod.fst
  waiting {p : DeviceId} {snapshot : Option (UntypedState HeaderId Header)} {chan : Chan} :
    sys.responders p = .waiting snapshot chan →
      sys.store.ecgSubscribers[p]? = some chan ∨ chan ∈ sys.messages.map Prod.fst
  inserted {p : DeviceId} {chan : Chan} {h : HeaderId} :
    sys.store.ecgSubscribers[p]? = some chan → ecg.contains h → ¬ (sys.responders p).Knows h →
      sys.insertedBy h = some p

namespace EcgSystem

variable [ECGHeader Header HeaderId]
variable {sys sys' : EcgSystem StoreId H HeaderId Header T}
variable {ecg ecg' : UntypedState HeaderId Header} {latest latest' : T} {p peer : DeviceId}
variable {snapshot : Option (UntypedState HeaderId Header)} {chan : Chan}

theorem Start.watched (h : sys.Start ecg latest) : sys.Watched ecg latest := by
  -- a responder is ready, or it is registered and waits without a snapshot
  have hcases : ∀ p, (∃ snapshot, sys.responders p = .ready snapshot ∧
      sys.store.ecgSubscribers[p]? = none ∧ ∀ u ∈ snapshot, u.WellFormed ∧ u.Grows ecg) ∨
      ∃ chan, sys.responders p = .waiting none chan ∧
        sys.store.ecgSubscribers[p]? = some chan := by
    intro p
    cases hp : sys.store.ecgSubscribers[p]? with
    | none =>
      obtain ⟨snapshot, hr, hu⟩ := h.ready hp
      exact Or.inl ⟨snapshot, hr, rfl, hu⟩
    | some chan => exact Or.inr ⟨chan, (h.waiting hp).1, rfl⟩
  have hchan : ∀ {p chan}, (sys.responders p).chan = some chan →
      sys.store.ecgSubscribers[p]? = some chan := by
    intro p chan hc
    rcases hcases p with ⟨snapshot, hr, -⟩ | ⟨chan', hr, hs⟩
    · rw [hr] at hc
      cases hc
    · rw [hr] at hc
      cases hc
      exact hs
  constructor
  case replica => exact h.replica
  case wf => exact h.wf
  case snapshots =>
    intro p u hu
    rcases hcases p with ⟨snapshot, hr, -, hall⟩ | ⟨chan, hr, -⟩
    · rw [hr] at hu
      exact hall u hu
    · rw [hr] at hu
      cases hu
  case tips =>
    intro p snapshot tips chan hr
    rcases hcases p with ⟨snapshot', hr', -⟩ | ⟨chan', hr', -⟩
    · rw [hr] at hr'; cases hr'
    · rw [hr] at hr'; cases hr'
  case messages => exact h.messages
  case fresh => exact fun hc => (h.waiting (hchan hc)).2.1
  case distinct => exact fun hp hq => h.distinct (hchan hp) (hchan hq)
  case once => exact h.once
  case subscribing =>
    intro p snapshot tips chan hr
    rcases hcases p with ⟨snapshot', hr', -⟩ | ⟨chan', hr', -⟩
    · rw [hr] at hr'; cases hr'
    · rw [hr] at hr'; cases hr'
  case registered => exact fun hs => ⟨⟨none, (h.waiting hs).1⟩, (h.waiting hs).2.2.1⟩
  case waiting =>
    intro p snapshot chan hr
    refine Or.inl (hchan ?_)
    rw [hr]
    rfl
  case inserted => exact fun hs hc _ => absurd hc ((h.waiting hs).2.2.2 _)

/-! ### What an event does -/

omit [ECGHeader Header HeaderId] in
lemma responders_setResponder (r : Responder HeaderId Header) (q : DeviceId) :
    (sys.setResponder peer r).responders q = if q = peer then r else sys.responders q :=
  Function.update_apply ..

omit [ECGHeader Header HeaderId] in
lemma holds_eq (h : sys.store.stateMachine.replica = some (ecg, latest)) (x : HeaderId) :
    sys.holds x = ecg.contains x := by
  rw [holds, h]

omit [ECGHeader Header HeaderId] in
lemma insertedBy_absorb {handler : Handler StoreId H HeaderId Header T} {origin : Option DeviceId}
    (h : sys.store.stateMachine.replica = some (ecg, latest))
    (h' : handler.store.stateMachine.replica = some (ecg', latest')) (x : HeaderId) :
    (sys.absorb handler origin).insertedBy x =
      if ecg'.contains x && !ecg.contains x then origin else sys.insertedBy x := by
  have hafter : ({ sys with handler } : EcgSystem StoreId H HeaderId Header T).holds x =
      ecg'.contains x := holds_eq h' x
  simp only [absorb, hafter, holds_eq h]

omit [ECGHeader Header HeaderId] in
lemma mem_told {origin : Option DeviceId} {sub : DeviceId × Chan} : sub ∈ sys.store.told origin ↔
      sys.store.ecgSubscribers[sub.1]? = some sub.2 ∧ some sub.1 ≠ origin := by
  rw [State.told, List.mem_filter, mem_toList]
  simp

lemma Watched.chan_of_registered (h : sys.Watched ecg latest)
    (hs : sys.store.ecgSubscribers[p]? = some chan) : (sys.responders p).chan = some chan := by
  obtain ⟨⟨snapshot, hr⟩, -⟩ := h.registered hs
  rw [hr]
  rfl

lemma Watched.nodup_told (h : sys.Watched ecg latest) (origin : Option DeviceId) :
    ((sys.store.told origin).map Prod.snd).Nodup := by
  have hkeys : ((sys.store.told origin).map Prod.fst).Nodup :=
    (nodup_keys sys.store.ecgSubscribers).sublist (List.filter_sublist.map _)
  rw [List.Nodup, List.pairwise_map] at hkeys ⊢
  refine hkeys.imp_of_mem fun {a b} ha hb hne heq => hne ?_
  have hca := h.chan_of_registered (mem_told.mp ha).1
  have hcb := h.chan_of_registered (mem_told.mp hb).1
  rw [heq] at hca
  exact h.distinct hca hcb

/-- **An update** tells every subscriber but the peer it comes from. -/
theorem Watched.updated (h : sys.Watched ecg latest) {handler : Handler StoreId H HeaderId Header T}
    {origin : Option DeviceId} (hu : Updated sys.store handler.store ecg' latest' origin)
    (hwf : ecg'.WellFormed) (hg : ecg.Grows ecg') :
    (sys.absorb handler origin).Watched ecg' latest' := by
  have hmessages : (sys.absorb handler origin).messages =
      sys.messages ++ (sys.store.told origin).map fun sub => (sub.2, ecg') := hu.messages
  have hfst : ((sys.absorb handler origin).messages).map Prod.fst =
      sys.messages.map Prod.fst ++ (sys.store.told origin).map Prod.snd := by
    rw [hmessages, List.map_append, List.map_map]
    rfl
  have hsubs : ∀ p, (sys.absorb handler origin).store.ecgSubscribers[p]? =
      if some p = origin then sys.store.ecgSubscribers[p]? else none := hu.subscribers
  -- a channel is new among the answers only if its subscriber was told
  have htold : ∀ {p chan}, (sys.responders p).chan = some chan →
      chan ∈ (sys.store.told origin).map Prod.snd →
      sys.store.ecgSubscribers[p]? = some chan ∧ some p ≠ origin := by
    intro p chan hp hmem
    obtain ⟨sub, hsub, rfl⟩ := List.mem_map.mp hmem
    obtain ⟨hs, hne⟩ := mem_told.mp hsub
    obtain rfl := h.distinct hp (h.chan_of_registered hs)
    exact ⟨hs, hne⟩
  constructor
  case replica => exact hu.replica
  case wf => exact hwf
  case snapshots => exact fun hs => ⟨(h.snapshots hs).1, (h.snapshots hs).2.trans hg⟩
  case tips => exact h.tips
  case fresh => exact h.fresh
  case distinct => exact h.distinct
  case messages =>
    intro m hm
    rw [hmessages, List.mem_append] at hm
    rcases hm with hm | hm
    · obtain ⟨hlt, hmwf, hmg⟩ := h.messages hm
      exact ⟨hlt, hmwf, hmg.trans hg⟩
    · obtain ⟨sub, hsub, rfl⟩ := List.mem_map.mp hm
      exact ⟨h.fresh (h.chan_of_registered (mem_told.mp hsub).1), hwf, .refl ecg'⟩
  case once =>
    rw [hfst, List.nodup_append]
    refine ⟨h.once, h.nodup_told origin, fun chan hold chan' hnew heq => ?_⟩
    subst heq
    obtain ⟨sub, hsub, rfl⟩ := List.mem_map.mp hnew
    exact (h.registered (mem_told.mp hsub).1).2 hold
  case subscribing =>
    intro p snapshot tips chan hr
    rw [hfst, List.mem_append]
    rintro (hold | hnew)
    · exact h.subscribing hr hold
    · obtain ⟨hs, -⟩ := htold (show (sys.responders p).chan = some chan by
        rw [show sys.responders p = _ from hr]; rfl) hnew
      obtain ⟨⟨snapshot', hr'⟩, -⟩ := h.registered hs
      rw [show sys.responders p = _ from hr] at hr'
      cases hr'
  case registered =>
    intro p chan hs
    rw [hsubs] at hs
    split_ifs at hs with hp
    refine ⟨(h.registered hs).1, ?_⟩
    rw [hfst, List.mem_append]
    rintro (hold | hnew)
    · exact (h.registered hs).2 hold
    · exact (htold (h.chan_of_registered hs) hnew).2 hp
  case waiting =>
    intro p snapshot chan hr
    rw [hsubs, hfst, List.mem_append]
    rcases h.waiting hr with hs | hold
    · by_cases hp : some p = origin
      · rw [if_pos hp]
        exact Or.inl hs
      · exact Or.inr (Or.inr (List.mem_map.mpr ⟨(p, chan), mem_told.mpr ⟨hs, hp⟩, rfl⟩))
    · exact Or.inr (Or.inl hold)
  case inserted =>
    intro p chan x hs hx hk
    rw [hsubs] at hs
    split_ifs at hs with hp
    rw [insertedBy_absorb h.replica hu.replica, hx]
    cases hold : ecg.contains x with
    | true => exact h.inserted hs hold hk
    | false => exact hp.symm

/-- A command that leaves the graph alone. -/
theorem Watched.untouched (h : sys.Watched ecg latest)
    {handler : Handler StoreId H HeaderId Header T} {origin : Option DeviceId}
    (hu : Untouched sys.store handler.store) : (sys.absorb handler origin).Watched ecg latest := by
  have hmessages : (sys.absorb handler origin).messages = sys.messages := hu.messages
  have hsubs : (sys.absorb handler origin).store.ecgSubscribers = sys.store.ecgSubscribers :=
    hu.subscribers
  have hreplica : handler.store.stateMachine.replica = some (ecg, latest) :=
    hu.replica.trans h.replica
  constructor
  case replica => exact hreplica
  case wf => exact h.wf
  case snapshots => exact h.snapshots
  case tips => exact h.tips
  case fresh => exact h.fresh
  case distinct => exact h.distinct
  case messages => rw [hmessages]; exact h.messages
  case once => rw [hmessages]; exact h.once
  case subscribing => rw [hmessages]; exact h.subscribing
  case registered => rw [hmessages, hsubs]; exact h.registered
  case waiting => rw [hmessages, hsubs]; exact h.waiting
  case inserted =>
    intro p chan x hs hx hk
    rw [hsubs] at hs
    rw [insertedBy_absorb h.replica hreplica, hx]
    exact h.inserted hs hx hk

/-- A responder that the store has not registered moves on. -/
theorem Watched.move (h : sys.Watched ecg latest) {r : Responder HeaderId Header}
    (hn : sys.store.ecgSubscribers[peer]? = none)
    (hu : ∀ u, r.snapshot = some u → u.WellFormed ∧ u.Grows ecg)
    (htips : ∀ snapshot tips chan, r = .subscribing snapshot (some tips) chan →
      ∃ u, snapshot = some u ∧ tips = u.tips)
    (hchan : ∀ chan, r.chan = some chan → chan < sys.nextChan ∧
      chan ∉ sys.messages.map Prod.fst ∧ ∀ q, (sys.responders q).chan ≠ some chan)
    (hw : ∀ snapshot chan, r ≠ .waiting snapshot chan) :
    (sys.setResponder peer r).Watched ecg latest := by
  have hresp : ∀ q, (sys.setResponder peer r).responders q =
      if q = peer then r else sys.responders q := responders_setResponder r
  have hne : ∀ {p chan}, sys.store.ecgSubscribers[p]? = some chan → p ≠ peer := by
    rintro p chan hs rfl
    rw [hn] at hs
    cases hs
  constructor
  case replica => exact h.replica
  case wf => exact h.wf
  case messages => exact h.messages
  case once => exact h.once
  case snapshots =>
    intro p u hs
    rw [hresp] at hs
    split_ifs at hs
    · exact hu u hs
    · exact h.snapshots hs
  case tips =>
    intro p snapshot tips chan hs
    rw [hresp] at hs
    split_ifs at hs
    · exact htips _ _ _ hs
    · exact h.tips hs
  case fresh =>
    intro p chan hs
    rw [hresp] at hs
    split_ifs at hs
    · exact (hchan _ hs).1
    · exact h.fresh hs
  case distinct =>
    intro p q chan hp hq
    rw [hresp] at hp hq
    split_ifs at hp hq with hpp hqp hqp
    · rw [hpp, hqp]
    · exact absurd hq ((hchan _ hp).2.2 q)
    · exact absurd hp ((hchan _ hq).2.2 p)
    · exact h.distinct hp hq
  case subscribing =>
    intro p snapshot tips chan hs
    rw [hresp] at hs
    split_ifs at hs
    · exact (hchan chan (by rw [hs]; rfl)).2.1
    · exact h.subscribing hs
  case registered =>
    intro p chan hs
    rw [hresp, if_neg (hne hs)]
    exact h.registered hs
  case waiting =>
    intro p snapshot chan hs
    rw [hresp] at hs
    split_ifs at hs
    · exact absurd hs (hw _ _)
    · exact h.waiting hs
  case inserted =>
    intro p chan x hs hx hk
    rw [hresp, if_neg (hne hs)] at hk
    exact h.inserted hs hx hk

lemma Watched.not_registered (h : sys.Watched ecg latest)
    (hr : ∀ snapshot chan, sys.responders peer ≠ .waiting snapshot chan) :
    sys.store.ecgSubscribers[peer]? = none := by
  by_contra hs
  obtain ⟨chan, hs⟩ := Option.ne_none_iff_exists'.mp hs
  obtain ⟨⟨snapshot, hr'⟩, -⟩ := h.registered hs
  exact hr _ _ hr'

lemma Watched.bump (h : sys.Watched ecg latest) :
    ({ sys with nextChan := sys.nextChan + 1 } : EcgSystem StoreId H HeaderId Header T).Watched
      ecg latest where
  __ := h
  messages hm := ⟨(h.messages hm).1.trans_le (Nat.le_succ _), (h.messages hm).2⟩
  fresh hc := (h.fresh hc).trans_le (Nat.le_succ _)

/-- **A responder that is ready subscribes** on a fresh channel. -/
theorem Watched.subscribe (h : sys.Watched ecg latest) (hr : sys.responders peer = .ready snapshot)
    (withTips : Bool) :
    ({ sys.setResponder peer (.subscribing snapshot
        (if withTips then snapshot.map UntypedState.tips else none) sys.nextChan) with
      nextChan := sys.nextChan + 1 } : EcgSystem StoreId H HeaderId Header T).Watched ecg latest := by
  refine h.bump.move (h.not_registered ?_) ?_ ?_ ?_ ?_
  · intro snapshot' chan hr'
    rw [hr] at hr'
    cases hr'
  · intro u hu
    exact h.snapshots (p := peer) (by rw [hr]; exact hu)
  · intro snapshot' tips chan heq
    cases withTips with
    | false => cases heq
    | true =>
      injection heq with h₁ h₂ h₃
      obtain ⟨u, hu, rfl⟩ := Option.map_eq_some_iff.mp h₂
      exact ⟨u, h₁ ▸ hu, rfl⟩
  · intro chan hc
    cases hc
    refine ⟨Nat.lt_succ_self _, fun hmem => ?_, fun q hq => (h.fresh hq).false⟩
    obtain ⟨m, hm, heq⟩ := List.mem_map.mp hmem
    exact (heq ▸ (h.messages hm).1).false
  · intro snapshot' chan heq
    cases heq

/-- **A responder takes its answer.** -/
theorem Watched.pickUp (h : sys.Watched ecg latest) {u : UntypedState HeaderId Header}
    (hr : sys.responders peer = .waiting snapshot chan) (hm : sys.messages.lookup chan = some u) :
    (sys.setResponder peer (.ready (some u))).Watched ecg latest := by
  have hmem : (chan, u) ∈ sys.messages := by
    obtain ⟨l₁, l₂, heq, -⟩ := List.lookup_eq_some_iff.mp hm
    rw [heq]
    simp
  refine h.move ?_ ?_ ?_ ?_ ?_
  · by_contra hs
    obtain ⟨chan', hs⟩ := Option.ne_none_iff_exists'.mp hs
    obtain ⟨⟨snapshot', hr'⟩, hnot⟩ := h.registered hs
    rw [hr] at hr'
    cases hr'
    exact hnot (List.mem_map.mpr ⟨_, hmem, rfl⟩)
  · intro u' hu'
    cases hu'
    exact (h.messages hmem).2
  · intro snapshot' tips chan' heq
    cases heq
  · intro chan' hc
    cases hc
  · intro snapshot' chan' heq
    cases heq

lemma Watched.knows_of_tips (h : sys.Watched ecg latest) {tips : Option (BTreeSet HeaderId)}
    (hr : sys.responders peer = .subscribing snapshot tips chan)
    (ht : State.respondImmediately ecg tips = false) {x : HeaderId} (hx : ecg.contains x) :
    (sys.responders peer).Knows x := by
  cases tips with
  | none => cases ht
  | some tips =>
    obtain ⟨u, hu, rfl⟩ := h.tips hr
    have hu' : (sys.responders peer).snapshot = some u := by
      rw [hr]
      exact hu
    obtain ⟨hwf, hg⟩ := h.snapshots hu'
    have htips : ecg.tips.toList = u.tips.toList := by
      simpa [State.respondImmediately] using ht
    refine ⟨u, hu', hg.contains_of_tips hwf h.wf (fun y hy => ?_) hx⟩
    rw [← Std.ExtTreeSet.mem_toList, ← htips, Std.ExtTreeSet.mem_toList]
    exact hy

/-- What the store answers to a subscription. -/
def answer (ecg : UntypedState HeaderId Header) (tips : Option (BTreeSet HeaderId)) (chan : Chan) :
    List (Chan × UntypedState HeaderId Header) :=
  if State.respondImmediately ecg tips then [(chan, ecg)] else []

omit [ECGHeader Header HeaderId] in
lemma mem_answer {tips : Option (BTreeSet HeaderId)} {m : Chan × UntypedState HeaderId Header} :
    m ∈ answer ecg tips chan ↔ State.respondImmediately ecg tips = true ∧ m = (chan, ecg) := by
  unfold answer
  split_ifs with hi
  · simp [hi]
  · simp [hi]

omit [ECGHeader Header HeaderId] in
lemma messages_handleEcgSubscribe {tips : Option (BTreeSet HeaderId)}
    (h : sys.store.stateMachine.replica = some (ecg, latest)) :
    ecgMessages (sys.store.handleEcgSubscribe peer tips chan).sent =
      sys.messages ++ answer ecg tips chan := by
  rw [handleEcgSubscribe_eq h, answer]
  split_ifs
  · exact ecgMessages_append ..
  · exact (List.append_nil _).symm

omit [ECGHeader Header HeaderId] in
lemma subscribers_handleEcgSubscribe {tips : Option (BTreeSet HeaderId)}
    (h : sys.store.stateMachine.replica = some (ecg, latest)) (q : DeviceId) :
    (sys.store.handleEcgSubscribe peer tips chan).ecgSubscribers[q]? =
      if State.respondImmediately ecg tips = false ∧ q = peer then some chan
      else sys.store.ecgSubscribers[q]? := by
  rw [handleEcgSubscribe_eq h]
  cases hi : State.respondImmediately ecg tips with
  | true => simp [State.send]
  | false => simp [get_insert]

/-- The system when the subscription of a responder has arrived. -/
def arrived (sys : EcgSystem StoreId H HeaderId Header T) (peer : DeviceId)
    (snapshot : Option (UntypedState HeaderId Header)) (chan : Chan)
    (handler : Handler StoreId H HeaderId Header T) : EcgSystem StoreId H HeaderId Header T :=
  (sys.setResponder peer (.waiting snapshot chan)).absorb handler none

section Arrived

variable {tips : Option (BTreeSet HeaderId)} {handler : Handler StoreId H HeaderId Header T}

omit [ECGHeader Header HeaderId] in
lemma responders_arrived (q : DeviceId) : (sys.arrived peer snapshot chan handler).responders q =
    if q = peer then .waiting snapshot chan else sys.responders q :=
  responders_setResponder _ q

omit [ECGHeader Header HeaderId] in
lemma snapshot_arrived (hr : sys.responders peer = .subscribing snapshot tips chan) (q : DeviceId) :
    ((sys.arrived peer snapshot chan handler).responders q).snapshot = (sys.responders q).snapshot ∧
      ((sys.arrived peer snapshot chan handler).responders q).chan = (sys.responders q).chan := by
  rw [responders_arrived]
  split_ifs with hq
  · rw [hq, hr]
    exact ⟨rfl, rfl⟩
  · exact ⟨rfl, rfl⟩

omit [ECGHeader Header HeaderId] in
lemma messages_arrived (h : sys.store.stateMachine.replica = some (ecg, latest))
    (hs : handler.store = sys.store.handleEcgSubscribe peer tips chan) :
    (sys.arrived peer snapshot chan handler).messages = sys.messages ++ answer ecg tips chan := by
  rw [← messages_handleEcgSubscribe h, ← hs]
  rfl

omit [ECGHeader Header HeaderId] in
lemma mem_messages_arrived (h : sys.store.stateMachine.replica = some (ecg, latest))
    (hs : handler.store = sys.store.handleEcgSubscribe peer tips chan) (c : Chan) :
    c ∈ (sys.arrived peer snapshot chan handler).messages.map Prod.fst ↔
      c ∈ sys.messages.map Prod.fst ∨ State.respondImmediately ecg tips = true ∧ c = chan := by
  rw [messages_arrived h hs, List.map_append, List.mem_append,
    List.mem_map (l := answer ecg tips chan)]
  simp only [mem_answer]
  grind

omit [ECGHeader Header HeaderId] in
lemma subscribers_arrived (h : sys.store.stateMachine.replica = some (ecg, latest))
    (hs : handler.store = sys.store.handleEcgSubscribe peer tips chan) (q : DeviceId) :
    (sys.arrived peer snapshot chan handler).store.ecgSubscribers[q]? =
      if State.respondImmediately ecg tips = false ∧ q = peer then some chan
      else sys.store.ecgSubscribers[q]? := by
  rw [← subscribers_handleEcgSubscribe h, ← hs]
  rfl

lemma Watched.nodup_arrived (h : sys.Watched ecg latest)
    (hr : sys.responders peer = .subscribing snapshot tips chan)
    (hs : handler.store = sys.store.handleEcgSubscribe peer tips chan) :
    ((sys.arrived peer snapshot chan handler).messages.map Prod.fst).Nodup := by
  rw [messages_arrived h.replica hs, answer]
  split_ifs
  · rw [List.map_append, List.nodup_append]
    refine ⟨h.once, List.nodup_singleton _, fun c hc c' hc' heq => h.subscribing hr ?_⟩
    obtain rfl := List.mem_singleton.mp hc'
    exact heq ▸ hc
  · rw [List.append_nil]
    exact h.once

lemma Watched.registered_arrived (h : sys.Watched ecg latest)
    (hr : sys.responders peer = .subscribing snapshot tips chan)
    (hs : handler.store = sys.store.handleEcgSubscribe peer tips chan) {q : DeviceId} {c : Chan}
    (hq : (sys.arrived peer snapshot chan handler).store.ecgSubscribers[q]? = some c) :
    (∃ snapshot', (sys.arrived peer snapshot chan handler).responders q = .waiting snapshot' c) ∧
      c ∉ (sys.arrived peer snapshot chan handler).messages.map Prod.fst := by
  have hpeer : (sys.responders peer).chan = some chan := by rw [hr]; rfl
  rw [subscribers_arrived h.replica hs] at hq
  rw [mem_messages_arrived h.replica hs, responders_arrived]
  split_ifs at hq with hi
  · cases hq
    rw [if_pos hi.2]
    refine ⟨⟨snapshot, rfl⟩, ?_⟩
    rintro (hold | ⟨hi', -⟩)
    · exact h.subscribing hr hold
    · rw [hi.1] at hi'
      cases hi'
  · obtain ⟨⟨snapshot', hw⟩, hnot⟩ := h.registered hq
    have hqp : q ≠ peer := by
      rintro rfl
      rw [hr] at hw
      cases hw
    rw [if_neg hqp]
    refine ⟨⟨snapshot', hw⟩, ?_⟩
    rintro (hold | ⟨-, rfl⟩)
    · exact hnot hold
    · exact hqp (h.distinct (h.chan_of_registered hq) hpeer)

end Arrived

/-- **A subscription arrives**: it is answered, or it is registered and knows all headers. -/
theorem Watched.arrive (h : sys.Watched ecg latest) {tips : Option (BTreeSet HeaderId)}
    (hr : sys.responders peer = .subscribing snapshot tips chan)
    {handler : Handler StoreId H HeaderId Header T}
    (hs : handler.store = sys.store.handleEcgSubscribe peer tips chan) :
    (sys.arrived peer snapshot chan handler).Watched ecg latest := by
  have hreplica : handler.store.stateMachine.replica = some (ecg, latest) := by
    rw [hs, handleEcgSubscribe_eq h.replica]
    split_ifs <;> exact h.replica
  have hpeer : (sys.responders peer).chan = some chan := by rw [hr]; rfl
  constructor
  case replica => exact hreplica
  case wf => exact h.wf
  case snapshots =>
    intro q u hu
    rw [(snapshot_arrived hr q).1] at hu
    exact h.snapshots hu
  case tips =>
    intro q snapshot' tips' chan' hq
    rw [responders_arrived] at hq
    split_ifs at hq
    exact h.tips hq
  case messages =>
    intro m hm
    rw [messages_arrived h.replica hs, List.mem_append, mem_answer] at hm
    rcases hm with hm | ⟨-, rfl⟩
    · exact h.messages hm
    · exact ⟨h.fresh hpeer, h.wf, .refl ecg⟩
  case fresh =>
    intro q c hc
    rw [(snapshot_arrived hr q).2] at hc
    exact h.fresh hc
  case distinct =>
    intro q q' c hq hq'
    rw [(snapshot_arrived hr _).2] at hq hq'
    exact h.distinct hq hq'
  case once => exact h.nodup_arrived hr hs
  case subscribing =>
    intro q snapshot' tips' c hq
    rw [responders_arrived] at hq
    split_ifs at hq with hqp
    rw [mem_messages_arrived h.replica hs]
    rintro (hold | ⟨-, rfl⟩)
    · exact h.subscribing hq hold
    · exact hqp (h.distinct (by rw [hq]; rfl) hpeer)
  case registered => exact h.registered_arrived hr hs
  case waiting =>
    intro q snapshot' c hq
    rw [responders_arrived] at hq
    rw [subscribers_arrived h.replica hs, mem_messages_arrived h.replica hs]
    split_ifs at hq with hqp
    · cases hq
      cases hi : State.respondImmediately ecg tips with
      | true => exact Or.inr (Or.inr ⟨rfl, rfl⟩)
      | false => exact Or.inl (if_pos ⟨rfl, hqp⟩)
    · rw [if_neg fun hc => hqp hc.2]
      exact (h.waiting hq).imp_right Or.inl
  case inserted =>
    intro q c x hq hx hk
    rw [Responder.Knows, (snapshot_arrived hr q).1] at hk
    have hins : (sys.arrived peer snapshot chan handler).insertedBy x =
        if ecg.contains x && !ecg.contains x then none else sys.insertedBy x :=
      insertedBy_absorb h.replica hreplica x
    rw [hins, hx]
    rw [subscribers_arrived h.replica hs] at hq
    split_ifs at hq with hi
    · exact absurd (hi.2 ▸ h.knows_of_tips hr hi.1 hx) hk
    · exact h.inserted hq hx hk

/-- The answers of a step carry the graph of the store after it. -/
def Answers (sys sys' : EcgSystem StoreId H HeaderId Header T)
    (ecg : UntypedState HeaderId Header) : Prop :=
  ∃ l, sys'.messages = sys.messages ++ l ∧ ∀ m ∈ l, m.2 = ecg

omit [ECGHeader Header HeaderId] in
lemma answers_of_eq (h : sys'.messages = sys.messages) : Answers sys sys' ecg :=
  ⟨[], by rw [h, List.append_nil], by simp⟩

omit [ECGHeader Header HeaderId] in
lemma answers_updated {handler : Handler StoreId H HeaderId Header T}
    {origin : Option DeviceId} (hu : Updated sys.store handler.store ecg latest origin) :
    Answers sys (sys.absorb handler origin) ecg := by
  refine ⟨_, hu.messages, fun m hm => ?_⟩
  obtain ⟨sub, -, rfl⟩ := List.mem_map.mp hm
  rfl

end EcgSystem

/-! ### Runs -/

namespace EcgSystem

variable [Hash H] [DecidableEq H] [DecidableEq StoreId]
variable [ECGHeader Header HeaderId] [CRDT T Op (OperationId HeaderId)]
variable {OT : OssaType StoreId H HeaderId Body T Op}
variable {sys₀ sys sys' : EcgSystem StoreId H HeaderId Header T}
variable {ecg ecg₀ ecg' : UntypedState HeaderId Header} {latest latest₀ latest' : T}
variable {p peer : DeviceId} {env : Environment} {origin : Option DeviceId}
variable {cmd : Command H HeaderId Header Body} {ev : EcgEvent H HeaderId Header Body}

lemma command_ok (h : sys.command OT env cmd origin = .ok sys') :
    ∃ handler : Handler StoreId H HeaderId Header T,
      Handler.handleStore OT env sys.handler.listeners sys.store cmd = .ok handler.store ∧
        sys' = sys.absorb handler origin := by
  obtain ⟨handler, hh, heq⟩ := bind_eq_ok.mp h
  cases heq
  exact ⟨handler, Handler.handleStore_allAlive.symm.trans (Handler.handleStore_of_handle hh).1, rfl⟩

/-- **Every event keeps the responders in agreement with the store**, and every answer it sends
carries the whole graph. -/
theorem Watched.step (h : sys.Watched ecg latest) (hnext : sys.next OT ev = .ok sys') :
    ∃ ecg' latest', sys'.Watched ecg' latest' ∧ Answers sys sys' ecg' := by
  cases ev with
  | apply env header body =>
    obtain ⟨handler, hs, rfl⟩ := command_ok hnext
    obtain ⟨ecg', latest', hi, -, hu⟩ := handleStore_apply h.replica hs
    have hfst : (ecg.insertHeader header (OT.bodyToVec body)).1 = ecg' := by rw [hi]
    refine ⟨ecg', latest', h.updated hu ?_ ?_, answers_updated hu⟩
    · exact hfst ▸ h.wf.insertHeader _ _
    · exact hfst ▸ (h.wf.getNode_insertHeader _ _).1
  | receivedECGOperations env peer operations =>
    obtain ⟨handler, hs, rfl⟩ := command_ok hnext
    obtain ⟨ecg', latest', hf, hu⟩ := handleStore_receivedECGOperations h.replica hs
    have hfst : ecg' = insertAll ecg operations := foldlM_receiveOperation_fst hf
    refine ⟨ecg', latest', h.updated hu ?_ ?_, answers_updated hu⟩
    · exact hfst ▸ h.wf.insertAll operations
    · exact hfst ▸ h.wf.grows_insertAll operations
  | subscribe peer withTips =>
    unfold next at hnext
    dsimp only at hnext
    cases hr : sys.responders peer with
    | ready snapshot =>
      simp only [hr] at hnext
      cases hnext
      exact ⟨ecg, latest, h.subscribe hr withTips, answers_of_eq rfl⟩
    | subscribing _ _ _ => simp only [hr] at hnext; cases hnext; exact ⟨_, _, h, answers_of_eq rfl⟩
    | waiting _ _ => simp only [hr] at hnext; cases hnext; exact ⟨_, _, h, answers_of_eq rfl⟩
  | arrive env peer =>
    unfold next at hnext
    dsimp only at hnext
    cases hr : sys.responders peer with
    | subscribing snapshot tips chan =>
      simp only [hr] at hnext
      obtain ⟨handler, hs, rfl⟩ := command_ok hnext
      have hstore : handler.store = sys.store.handleEcgSubscribe peer tips chan :=
        (Except.ok.inj hs).symm
      refine ⟨ecg, latest, h.arrive hr hstore, answer ecg tips chan, ?_, fun m hm => ?_⟩
      · rw [← messages_handleEcgSubscribe h.replica, ← hstore]
        rfl
      · rw [(mem_answer.mp hm).2]
    | ready _ => simp only [hr] at hnext; cases hnext; exact ⟨_, _, h, answers_of_eq rfl⟩
    | waiting _ _ => simp only [hr] at hnext; cases hnext; exact ⟨_, _, h, answers_of_eq rfl⟩
  | pickUp peer =>
    unfold next at hnext
    dsimp only at hnext
    cases hr : sys.responders peer with
    | waiting snapshot chan =>
      simp only [hr] at hnext
      cases hm : sys.messages.lookup chan with
      | some u =>
        simp only [hm] at hnext
        cases hnext
        exact ⟨ecg, latest, h.pickUp hr hm, answers_of_eq rfl⟩
      | none => simp only [hm] at hnext; cases hnext; exact ⟨_, _, h, answers_of_eq rfl⟩
    | ready _ => simp only [hr] at hnext; cases hnext; exact ⟨_, _, h, answers_of_eq rfl⟩
    | subscribing _ _ _ => simp only [hr] at hnext; cases hnext; exact ⟨_, _, h, answers_of_eq rfl⟩
  | other env cmd hother =>
    obtain ⟨handler, hs, rfl⟩ := command_ok hnext
    obtain ⟨hg, hm⟩ := Bool.or_eq_false_iff.mp hother
    have hu := handleStore_untouched h.replica hg hm hs
    exact ⟨ecg, latest, h.untouched hu, answers_of_eq hu.messages⟩

lemma Watched.run (h : sys₀.Watched ecg₀ latest₀) {evs : List (EcgEvent H HeaderId Header Body)}
    (hrun : sys₀.run OT evs = .ok sys) : ∃ ecg latest, sys.Watched ecg latest := by
  refine foldlM_invariant (I := fun sys => ∃ ecg latest, sys.Watched ecg latest) hrun
    ⟨ecg₀, latest₀, h⟩ fun t t' ev _ ⟨ecg, latest, ht⟩ hstep => ?_
  obtain ⟨ecg', latest', ht', -⟩ := ht.step hstep
  exact ⟨ecg', latest', ht'⟩

/-- A subscription that arrives with a stale snapshot is answered at once. -/
lemma Watched.stale (h : sys.Watched ecg latest)
    {snapshot : Option (UntypedState HeaderId Header)} {tips : Option (BTreeSet HeaderId)}
    {chan : Chan} (hr : sys.responders p = .subscribing snapshot tips chan) {x : HeaderId}
    (hx : ecg.contains x) (hk : ¬ (sys.responders p).Knows x) (env : Environment) :
    ∃ sys', sys.next OT (.arrive env p) = .ok sys' ∧
      sys'.messages = sys.messages ++ [(chan, ecg)] ∧
      sys'.store.ecgSubscribers = sys.store.ecgSubscribers := by
  have hi : State.respondImmediately ecg tips = true := by
    by_contra hi
    exact hk (h.knows_of_tips hr (Bool.eq_false_iff.mpr hi) hx)
  have heq : sys.store.handleEcgSubscribe p tips chan = sys.store.send (.ecg chan ecg) := by
    rw [handleEcgSubscribe_eq h.replica, if_pos hi]
  refine ⟨(sys.setResponder p (.waiting snapshot chan)).absorb
    ⟨sys.store.handleEcgSubscribe p tips chan, sys.handler.listeners⟩ none, ?_, ?_, ?_⟩
  · have hs : Handler.handleStore OT env sys.handler.listeners sys.store
        (.subscribeECG p tips chan) = .ok (sys.store.handleEcgSubscribe p tips chan) := rfl
    simp only [next, hr]
    exact bind_eq_ok.mpr ⟨_, Handler.handle_allAlive hs, rfl⟩
  · change ecgMessages (sys.store.handleEcgSubscribe p tips chan).sent = _
    rw [heq]
    exact ecgMessages_append ..
  · change (sys.store.handleEcgSubscribe p tips chan).ecgSubscribers = _
    rw [heq]
    rfl

/-- **No wakeup is lost**: in every run of a store that syncs, what a registered subscriber does
not know came from its own peer; a subscription that is stale when it arrives is answered at
once; no subscription is answered twice, and every answer is the whole graph at that moment. -/
theorem no_wakeup_lost (hstart : sys₀.Start ecg₀ latest₀)
    {evs : List (EcgEvent H HeaderId Header Body)} (hrun : sys₀.run OT evs = .ok sys) :
    ∃ ecg latest, sys.store.stateMachine.replica = some (ecg, latest) ∧
      (∀ p chan, sys.store.ecgSubscribers[p]? = some chan →
        (∃ snapshot, sys.responders p = .waiting snapshot chan) ∧
          ∀ h, ecg.contains h → ¬ (sys.responders p).Knows h → sys.insertedBy h = some p) ∧
      (∀ env p snapshot tips chan h, sys.responders p = .subscribing snapshot tips chan →
        ecg.contains h → ¬ (sys.responders p).Knows h →
          ∃ sys', sys.next OT (.arrive env p) = .ok sys' ∧
            sys'.messages = sys.messages ++ [(chan, ecg)] ∧
            sys'.store.ecgSubscribers = sys.store.ecgSubscribers) ∧
      (∀ p snapshot chan, sys.responders p = .waiting snapshot chan →
        sys.store.ecgSubscribers[p]? = some chan ∨ chan ∈ sys.messages.map Prod.fst) ∧
      (sys.messages.map Prod.fst).Nodup ∧
      ∀ ev sys', sys.next OT ev = .ok sys' → ∃ ecg' latest',
        sys'.store.stateMachine.replica = some (ecg', latest') ∧ Answers sys sys' ecg' := by
  obtain ⟨ecg, latest, h⟩ := hstart.watched.run hrun
  refine ⟨ecg, latest, h.replica, fun p chan hs => ⟨(h.registered hs).1, fun x hx hk => ?_⟩,
    fun env p snapshot tips chan x hr hx hk => h.stale hr hx hk env,
    fun p snapshot chan hr => h.waiting hr, h.once, fun ev sys' hnext => ?_⟩
  · exact h.inserted hs hx hk
  · obtain ⟨ecg', latest', h', hanswers⟩ := h.step hnext
    exact ⟨ecg', latest', h'.replica, hanswers⟩

end EcgSystem

/-! Peer 1 subscribes twice, the second time with the tips of its snapshot. Then it sends a
header, and keeps its subscription. -/

section Counter

open V0

local instance watchHash : Hash UInt8 := tableHash counterTable

def counterWatch : EcgSystem UInt8 UInt8 ℕ TestHeader Counter where
  handler := ⟨.ofStateMachine (.syncing counterMetadata ⟨[0]⟩ [7] .new ⟨7⟩), []⟩
  responders _ := .ready none
  nextChan := 0
  insertedBy _ := none

def counterEvents : List (EcgEvent UInt8 ℕ TestHeader (List ℕ)) :=
  [.other calm (.registerPeers [1]) rfl, .other calm (.registerOutgoingPeerSyncing 1) rfl,
    .subscribe 1 false, .arrive calm 1, .pickUp 1, .subscribe 1 true, .arrive calm 1,
    .receivedECGOperations calm 1 [(⟨0, []⟩, [5])]]

lemma counterWatch_start : counterWatch.Start .new ⟨7⟩ where
  replica := rfl
  wf := UntypedState.wellFormed_new
  ready _ := ⟨none, rfl, by simp⟩
  waiting h := by simp [counterWatch, State.ofStateMachine] at h
  distinct h := by simp [counterWatch, State.ofStateMachine] at h
  messages h := by cases h
  once := .nil
  origins _ := rfl

lemma watch_isOk : (counterWatch.run counterType counterEvents).isOk = true := by
  decide +kernel

theorem no_wakeup_lost_counter : ∃ sys, counterWatch.run counterType counterEvents = .ok sys ∧
    sys.store.ecgSubscribers[(1 : DeviceId)]? = some 1 ∧ sys.insertedBy 0 = some 1 := by
  obtain ⟨ecg, latest, hreplica, hregistered, -⟩ :=
    EcgSystem.no_wakeup_lost counterWatch_start (eq_ok_value watch_isOk)
  have hsub : (value _ watch_isOk).store.ecgSubscribers[(1 : DeviceId)]? = some 1 := by
    decide +kernel
  have hholds : (value _ watch_isOk).holds 0 = true := by decide +kernel
  have hknown : (((value _ watch_isOk).responders 1).snapshot.map fun u => u.contains 0) =
      some false := by
    decide +kernel
  refine ⟨_, eq_ok_value watch_isOk, hsub, (hregistered 1 1 hsub).2 0 ?_ ?_⟩
  · rwa [EcgSystem.holds_eq hreplica] at hholds
  · rintro ⟨u, hu, hc⟩
    rw [hu] at hknown
    simp [hc] at hknown

end Counter

end Ossa.Store
