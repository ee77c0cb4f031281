import Ossa.StoreInFlight

/-!
Tasks that have stopped.

A task whose peer answers `Wait` or `Reject` stops for good. To the store it looks like a task
whose peer has not answered yet, so that what holds of every run without stops holds of every
run: a system with stopped tasks is like one in which they still run.
-/

namespace Ossa.Store

open Ossa.Loop Ossa.Util Ossa.Collections Ossa.Ecg Ossa.Crdt

variable {StoreId H HeaderId Header Body T Op : Type} [LinearOrder HeaderId]

/-- The tasks agree, unless the first has stopped. -/
structure Task.Like (task task' : Task H HeaderId Header Body) : Prop where
  queue : task'.queue = task.queue
  received : task'.received = task.received
  current : task.current = .stopped ∨ task'.current = task.current

namespace System

variable {sys sys' t : System StoreId H HeaderId Header Body T} {peer : DeviceId}

/-- The systems agree, but for tasks that have stopped in the first. -/
structure Like (sys t : System StoreId H HeaderId Header Body T) : Prop where
  handler : t.handler = sys.handler
  outgoing : t.outgoing = sys.outgoing
  incoming : t.incoming = sys.incoming
  tasks (p : DeviceId) : (sys.tasks p).Like (t.tasks p)

namespace Like

lemma refl (sys : System StoreId H HeaderId Header Body T) : sys.Like sys :=
  ⟨rfl, rfl, rfl, fun _ => ⟨rfl, rfl, Or.inr rfl⟩⟩

lemma setTask (h : sys.Like t) {task task' : Task H HeaderId Header Body}
    (ht : task.Like task') : (sys.setTask peer task).Like (t.setTask peer task') where
  handler := h.handler
  outgoing := h.outgoing
  incoming := h.incoming
  tasks p := by
    simp only [System.setTask, Function.update_apply]
    split_ifs
    · exact ht
    · exact h.tasks p

lemma post (h : sys.Like t) (m : Sent StoreId H HeaderId Header T) :
    (sys.post m).Like (t.post m) := by
  cases m with
  | command peer request =>
    have hp := h.tasks peer
    refine h.setTask ⟨?_, hp.received, hp.current⟩
    change (t.tasks peer).queue ++ _ = _
    rw [hp.queue]
  | requestStoreSync peer storeId =>
    refine ⟨h.handler, ?_, h.incoming, h.tasks⟩
    change Function.update t.outgoing _ _ = Function.update sys.outgoing _ _
    rw [h.outgoing]
  | syncResponse chan spawnTask =>
    cases spawnTask with
    | none => exact h
    | some peer =>
      refine ⟨h.handler, h.outgoing, ?_, h.tasks⟩
      change Function.update t.incoming _ _ = Function.update sys.incoming _ _
      rw [h.incoming]
  | response _ _ => exact h
  | notice _ _ => exact h
  | ecg _ _ => exact h
  | stateUpdate _ _ => exact h

lemma absorb (h : sys.Like t) (handler : Handler StoreId H HeaderId Header T) :
    (sys.absorb handler).Like (t.absorb handler) := by
  have hfold : ∀ (l : List (Sent StoreId H HeaderId Header T))
      (u v : System StoreId H HeaderId Header Body T), u.Like v →
      (l.foldl System.post u).Like (l.foldl System.post v) := by
    intro l
    induction l with
    | nil => exact fun u v huv => huv
    | cons m l ih => exact fun u v huv => ih _ _ (huv.post m)
  rw [System.absorb, System.absorb, h.handler]
  obtain ⟨-, hout, hin, htasks⟩ :=
    hfold (handler.store.sent.drop sys.handler.store.sent.length) sys t h
  exact ⟨rfl, hout, hin, htasks⟩

lemma consume (h : sys.Like t) (ev : Event H HeaderId Header Body) :
    (sys.consume ev).Like (t.consume ev) := by
  cases ev with
  | registerOutgoing env peer =>
    refine ⟨h.handler, ?_, h.incoming, h.tasks⟩
    change Function.update t.outgoing _ _ = Function.update sys.outgoing _ _
    rw [h.outgoing]
  | registerIncoming env peer =>
    refine ⟨h.handler, h.outgoing, ?_, h.tasks⟩
    change Function.update t.incoming _ _ = Function.update sys.incoming _ _
    rw [h.incoming]
  | receive env peer =>
    have hp := h.tasks peer
    refine h.setTask ⟨hp.queue, ?_, hp.current⟩
    change (t.tasks peer).received.tail = _
    rw [hp.received]
  | _ => exact h

lemma offered (h : sys.Like t) (ev : Event H HeaderId Header Body) :
    t.offered ev = sys.offered ev := by
  cases ev with
  | receive env peer => simp only [System.offered, (h.tasks peer).received]
  | _ => rfl

lemma enabled (h : sys.Like t) {ev : Event H HeaderId Header Body} (hen : sys.enabled ev = true) :
    t.enabled ev = true := by
  -- a task that takes part in the event has not stopped
  have hcurrent : ∀ peer, (sys.tasks peer).current ≠ .stopped →
      (t.tasks peer).current = (sys.tasks peer).current := fun peer hne =>
    (h.tasks peer).current.resolve_left hne
  cases ev with
  | external env cmd => exact hen
  | registerOutgoing env peer => simpa only [System.enabled, h.outgoing] using hen
  | registerIncoming env peer => simpa only [System.enabled, h.incoming] using hen
  | receive env peer => simpa only [System.enabled, (h.tasks peer).received] using hen
  | take peer =>
    have hne : (sys.tasks peer).current ≠ .stopped := fun hc => by
      simp [System.enabled, hc] at hen
    simpa only [System.enabled, hcurrent peer hne, (h.tasks peer).queue] using hen
  | answer peer cmd =>
    have hne : (sys.tasks peer).current ≠ .stopped := fun hc => by
      simp [System.enabled, hc] at hen
    simpa only [System.enabled, hcurrent peer hne] using hen
  | stop peer =>
    have hne : (sys.tasks peer).current ≠ .stopped := fun hc => by
      simp [System.enabled, hc] at hen
    simpa only [System.enabled, hcurrent peer hne] using hen

variable [Hash H] [DecidableEq H] [DecidableEq StoreId]
variable [ECGHeader Header HeaderId] [CRDT T Op (OperationId HeaderId)]
variable {OT : OssaType StoreId H HeaderId Body T Op} {ev : Event H HeaderId Header Body}

/-- **The second system follows each step of the first**, but for stops. -/
theorem next (h : sys.Like t) (hnext : sys.next OT ev = .ok sys') :
    ev.isStop = true ∧ sys'.Like t ∨
      ev.isStop = false ∧ ∃ t', t.next OT ev = .ok t' ∧ sys'.Like t' := by
  cases ho : sys.offered ev with
  | some c =>
    obtain ⟨env, cmd⟩ := c
    obtain ⟨handler, hs, rfl⟩ := next_command ho hnext
    rw [next_of_offered ho, System.command] at hnext
    obtain ⟨handler', hh, heq⟩ := bind_eq_ok.mp hnext
    have hstop : ev.isStop = false := by
      cases ev with
      | stop peer => cases ho
      | _ => rfl
    have hc : (sys.consume ev).handler = sys.handler := consume_handler ev
    refine Or.inr ⟨hstop, (t.consume ev).absorb handler', ?_, ?_⟩
    · rw [next_of_offered ((h.offered ev).trans ho), System.command, consume_handler, h.handler,
        ← hc, hh]
      rfl
    · rw [← Except.ok.inj heq]
      exact (h.consume ev).absorb handler'
  | none =>
    cases ev with
    | external env cmd => cases ho
    | registerOutgoing env peer => cases ho
    | registerIncoming env peer => cases ho
    | stop peer =>
      cases hnext
      refine Or.inl ⟨rfl, h.handler, h.outgoing, h.incoming, fun p => ?_⟩
      have hp := h.tasks p
      simp only [System.setTask, Function.update_apply]
      split_ifs with heq
      · subst heq
        exact ⟨hp.queue, hp.received, Or.inl rfl⟩
      · exact hp
    | take peer =>
      have hp := h.tasks peer
      refine Or.inr ⟨rfl, ?_⟩
      simp only [System.next] at hnext ⊢
      rw [hp.queue]
      cases hq : (sys.tasks peer).queue with
      | nil =>
        simp only [hq] at hnext
        cases hnext
        exact ⟨t, rfl, h⟩
      | cons request queue =>
        simp only [hq] at hnext
        cases hnext
        exact ⟨_, rfl, h.setTask ⟨rfl, hp.received, Or.inr rfl⟩⟩
    | answer peer cmd =>
      have hp := h.tasks peer
      cases hnext
      refine Or.inr ⟨rfl, _, rfl, h.setTask ⟨hp.queue, ?_, Or.inr rfl⟩⟩
      change (t.tasks peer).received ++ _ = _
      rw [hp.received]
    | receive env peer =>
      have hr : (sys.tasks peer).received = [] := by simpa [System.offered] using ho
      simp only [System.next, hr] at hnext
      cases hnext
      refine Or.inr ⟨rfl, t, ?_, h⟩
      simp only [System.next, (h.tasks peer).received, hr]

end Like

end System

end Ossa.Store
