import Ossa.StorePeer

/-!
Whether the two sides speak the same protocol.

At any time the two sides and the messages in flight are at one of a few stages of a request,
and in each of them what is in flight converts to what is expected. The one way out is a request
for merkle hashes or blocks that is told to wait: the message for this is one of the metadata.
-/

namespace Ossa.StoreSync

open Ossa.Loop Ossa.Util Ossa.Collections Ossa.Ecg Ossa.EcgSync Ossa.Store

variable {H HeaderId Header Body : Type} [LinearOrder HeaderId]

/-- What is pending for a request that the store of the other side answers. -/
def pendingOf : PeerRequest → Pending
  | .metadata => .metadata
  | .merkle ranges => .merkle ranges
  | .blocks ranges => .blocks ranges

omit [LinearOrder HeaderId] in
lemma accepts_buildResponse (q : PeerRequest) (response : StoreSyncResponse (Resp H q)) :
    (pendingOf q).accepts (buildResponse q response : MsgStoreSync H HeaderId Header) = true := by
  cases q <;> rfl

def MsgStoreSyncRequest.isEcg : MsgStoreSyncRequest HeaderId → Bool
  | .ecgInitialSync _ => true
  | .ecgSync _ _ => true
  | _ => false

/-- The request is for what is pending, and `synced` says whether there was an ECG round
before. -/
inductive Asks (synced : Bool) : MsgStoreSyncRequest HeaderId → Pending → Prop
  | metadata : Asks synced .metadataHeader .metadata
  | merkle (ranges) : Asks synced (.merkleHashes ranges) (.merkle ranges)
  | blocks (ranges) : Asks synced (.initialStateBlocks ranges) (.blocks ranges)
  | ecgInitial (tips) : synced = false → Asks synced (.ecgInitialSync tips) (.ecg false)
  | ecg (tips known) : synced = true → Asks synced (.ecgSync tips known) (.ecg false)

lemma asks_of_request {self : Initiator HeaderId} {cmd : StoreSyncCommand HeaderId Header}
    {request : MsgStoreSyncRequest HeaderId} {pending : Pending}
    (h : self.request cmd = .ok (request, pending)) : Asks self.ecgSync.isSome request pending := by
  cases cmd with
  | metadataHeaderRequest => cases h; exact .metadata
  | merkleRequest ranges => cases h; exact .merkle ranges
  | initialStateBlockRequest ranges => cases h; exact .blocks ranges
  | ecgSyncRequest ecgState =>
    rw [Initiator.request] at h
    cases hsync : self.ecgSync with
    | none =>
      rw [hsync] at h
      cases h
      exact .ecgInitial _ rfl
    | some ecgSync =>
      rw [hsync] at h
      obtain ⟨known, -, h⟩ := bind_eq_ok.mp h
      cases h
      exact .ecg _ known rfl

/-- Where the two sides are together: whether each had an ECG round, what each is at, and the
messages in flight. -/
inductive Linked : Bool → Initiating → Bool → Serving HeaderId →
    List (MsgStoreSync H HeaderId Header) → List (MsgStoreSync H HeaderId Header) → Prop
  | idle (b) : Linked b .idle b .idle [] []
  | requested {b request pending} : Asks b request pending →
    Linked b (.receiving pending) b .idle [.request request] []
  | asked (b q) : Linked b (.receiving (pendingOf q)) b (.asked q) [] []
  | answered (b q response) :
    Linked b (.receiving (pendingOf q)) b .idle [] [buildResponse q response]
  -- only the metadata can wait
  | waiting (b) : Linked b (.receiving .metadata) b (.waiting .metadata) []
    [.metadataHeaderResponse .wait]
  | answeredLate (b response) : Linked b (.receiving .metadata) b .idle []
    [.metadataHeaderResponse .wait, .metadataHeaderResponse response]
  | attempting (b) {ecgSync attempt} : attempt.isAgain = false →
    Linked b (.receiving (.ecg false)) b (.attempting ecgSync attempt) [] []
  | subscribed (b) {ecgSync attempt} : attempt.isAgain = true →
    Linked b (.receiving (.ecg false)) b (.attempting ecgSync attempt) [] [.ecgResponse .wait]
  | waited (b) {ecgSync attempt} : attempt.isAgain = true →
    Linked b (.receiving (.ecg true)) b (.attempting ecgSync attempt) [] []
  | responded (b waited haves operations) :
    Linked b (.receiving (.ecg waited)) true .idle [] [.ecgResponse (.response haves operations)]
  | respondedLate (b haves operations) : Linked b (.receiving (.ecg false)) true .idle []
    [.ecgResponse .wait, .ecgResponse (.response haves operations)]
  | stopped (b msgs) : Linked b (.stopped (.fault (.todo ""))) b .idle [] msgs
  | stoppedWaiting (b msgs) :
    Linked b (.stopped (.fault (.todo ""))) b (.waiting .metadata) [] msgs

section Stages

variable {b b' : Bool} {itask : Initiating} {rtask : Serving HeaderId} {pending : Pending}
  {q : PeerRequest} {why : Stop} {toResponder toInitiator : List (MsgStoreSync H HeaderId Header)}

lemma Linked.accepts (h : Linked b (.receiving pending) b' rtask toResponder toInitiator) :
    ∀ msg ∈ toInitiator, pending.accepts msg = true := by
  cases h with
  | answered _ response => exact List.forall_mem_singleton.mpr (accepts_buildResponse _ response)
  | _ => simp [Pending.accepts, MsgStoreSync.toMetadataResponse, MsgStoreSync.toECGResponse]

lemma Linked.expected (h : Linked b .idle b' rtask toResponder toInitiator) : toInitiator = [] := by
  cases h
  rfl

lemma Linked.eq_todo (h : Linked b (.stopped why) b' rtask toResponder toInitiator) :
    why = .fault (.todo "") := by
  cases h <;> rfl

lemma Linked.ne_stopped (h : Linked b itask b' rtask toResponder toInitiator) :
    rtask ≠ .stopped why := by
  rintro rfl
  cases h

lemma Linked.receiving (h : Linked b itask b' (.asked q) toResponder toInitiator) :
    itask = .receiving (pendingOf q) := by
  cases h
  rfl

end Stages

/-- The store tells a request to wait whose message for this is of another kind. -/
def Event.misdirects : Event H HeaderId Header → Bool
  | .answer (.merkle _) none => true
  | .answer (.blocks _) none => true
  | _ => false

namespace Connection

/-- The stage that the connection is at. -/
def Linked (x : Connection H HeaderId Header Body) : Prop :=
  ∃ b b', x.initiator.ecgSync.isSome = b ∧ x.responder.ecgSync.isSome = b' ∧
    StoreSync.Linked b x.initiator.task b' x.responder.task x.toResponder x.toInitiator

variable {peer : DeviceId} {x y : Connection H HeaderId Header Body} {ev : Event H HeaderId Header}

/-! ### What one message does -/

lemma serve_ecgSync (self : Responder HeaderId)
    (result : Except ProtocolError (MsgStoreSyncRequest HeaderId)) :
    (self.serve result).ecgSync = self.ecgSync := by
  unfold Responder.serve
  split <;> try rfl
  · split_ifs <;> rfl
  · split <;> rfl

lemma attempting_serve {self : Responder HeaderId}
    {result : Except ProtocolError (MsgStoreSyncRequest HeaderId)} {r : ECGSyncResponder HeaderId}
    {attempt : Attempt HeaderId} (h : (self.serve result).task = .attempting r attempt) :
    r = .new ∨ self.ecgSync = some r := by
  unfold Responder.serve at h
  split at h <;> try cases h
  · split_ifs at h
    cases h
    exact Or.inl rfl
  · split at h <;> cases h
    next hsync => exact Or.inr hsync

lemma ecgSync_handleResult {A : Type} (self : Initiator HeaderId)
    (tell : A → Command H HeaderId Header Body)
    (result : Except ProtocolError (StoreSyncResponse A)) :
    (self.handleResult tell result).1.ecgSync = self.ecgSync := by
  unfold Initiator.handleResult
  split <;> rfl

lemma ecgSync_receive {pending : Pending} {msg : MsgStoreSync H HeaderId Header}
    {rest : List (MsgStoreSync H HeaderId Header)} {i : ECGSyncInitiator HeaderId}
    (h : (x.receive peer pending msg rest).initiator.ecgSync = some i) :
    x.initiator.ecgSync = some i ∨ ∃ operations, msg = .ecgResponse (.response i.haves operations) := by
  cases pending with
  | metadata => exact Or.inl ((ecgSync_handleResult x.initiator _ _).symm.trans h)
  | merkle ranges => exact Or.inl ((ecgSync_handleResult x.initiator _ _).symm.trans h)
  | blocks ranges => exact Or.inl ((ecgSync_handleResult x.initiator _ _).symm.trans h)
  | ecg waited =>
    cases msg with
    | ecgResponse response =>
      cases response with
      | response haves operations =>
        cases h
        exact Or.inr ⟨operations, rfl⟩
      | wait =>
        cases waited with
        | false => exact Or.inl h
        | true => exact Or.inl h
    | _ => exact Or.inl h

lemma task_handleResult {A : Type} (self : Initiator HeaderId)
    (tell : A → Command H HeaderId Header Body) (response : StoreSyncResponse A) :
    (self.handleResult tell (.ok response)).1.task = .idle ∨
      (self.handleResult tell (.ok response)).1.task = .stopped (.fault (.todo "")) := by
  cases response with
  | response a => exact Or.inl rfl
  | wait => exact Or.inr rfl
  | reject => exact Or.inr rfl

lemma linked_receive (q : PeerRequest) (response : StoreSyncResponse (Resp H q))
    (hresponder : x.responder.task = .idle) (hmsgs : x.toResponder = [])
    (hsync : x.initiator.ecgSync.isSome = x.responder.ecgSync.isSome) :
    (x.receive peer (pendingOf q) (buildResponse q response) []).Linked := by
  have hkeep : (x.receive peer (pendingOf q) (buildResponse q response) []).initiator.ecgSync =
      x.initiator.ecgSync := by
    cases q <;> exact ecgSync_handleResult x.initiator _ _
  have htask : (x.receive peer (pendingOf q) (buildResponse q response) []).initiator.task = .idle ∨
      (x.receive peer (pendingOf q) (buildResponse q response) []).initiator.task =
        .stopped (.fault (.todo "")) := by
    cases q <;> exact task_handleResult x.initiator _ response
  refine ⟨_, _, by rw [hkeep, hsync], rfl, ?_⟩
  change StoreSync.Linked _ _ _ x.responder.task x.toResponder []
  rw [hresponder, hmsgs]
  obtain hidle | hstopped := htask
  · rw [hidle]
    exact .idle _
  · rw [hstopped]
    exact .stopped _ []

/-! ### What is sent for a request -/

/-- One response is sent, preceded by at most one message to wait. -/
def Answered (sent : List (MsgStoreSync H HeaderId Header)) : Prop :=
  ∃ haves operations, sent = [.ecgResponse (.response haves operations)] ∨
    sent = [.ecgResponse .wait, .ecgResponse (.response haves operations)]

/-- Every ECG request of the log is answered. -/
def AllAnswered (log : List (MsgStoreSyncRequest HeaderId × List (MsgStoreSync H HeaderId Header))) :
    Prop := ∀ e ∈ log, e.1.isEcg = true → Answered e.2

/-- The log while the other side is at `task`. -/
inductive Logged : Serving HeaderId →
    List (MsgStoreSyncRequest HeaderId × List (MsgStoreSync H HeaderId Header)) → Prop
  | idle {log} : AllAnswered log → Logged .idle log
  | asked (q) {request sent log} : request.isEcg = false → AllAnswered log →
    Logged (.asked q) ((request, sent) :: log)
  | waiting (q) {request sent log} : request.isEcg = false → AllAnswered log →
    Logged (.waiting q) ((request, sent) :: log)
  | attempting {r attempt request log} : AllAnswered log →
    Logged (.attempting r attempt)
      ((request, if attempt.isAgain then [.ecgResponse .wait] else []) :: log)
  | stopped (why log) : Logged (.stopped why) log

omit [LinearOrder HeaderId] in
lemma AllAnswered.cons {e : MsgStoreSyncRequest HeaderId × List (MsgStoreSync H HeaderId Header)}
    {log : List (MsgStoreSyncRequest HeaderId × List (MsgStoreSync H HeaderId Header))}
    (h : AllAnswered log) (he : e.1.isEcg = true → Answered e.2) : AllAnswered (e :: log) :=
  List.forall_mem_cons.mpr ⟨he, h⟩

lemma Logged.answered {task : Serving HeaderId}
    {log : List (MsgStoreSyncRequest HeaderId × List (MsgStoreSync H HeaderId Header))}
    (h : Logged task log) (htask : ∀ why, task ≠ .stopped why) :
    ∀ e ∈ log, e.1.isEcg = true → Answered e.2 ∨ log.head? = some e ∧ task ≠ .idle ∧
      (e.2 = [] ∨ e.2 = [.ecgResponse .wait]) := by
  intro e he hecg
  cases h with
  | idle hall => exact Or.inl (hall e he hecg)
  | asked q hne hall =>
    rcases List.mem_cons.mp he with rfl | he
    · exact absurd (hecg.symm.trans hne) (by simp)
    · exact Or.inl (hall e he hecg)
  | waiting q hne hall =>
    rcases List.mem_cons.mp he with rfl | he
    · exact absurd (hecg.symm.trans hne) (by simp)
    · exact Or.inl (hall e he hecg)
  | attempting hall =>
    rcases List.mem_cons.mp he with rfl | he
    · refine Or.inr ⟨rfl, nofun, ?_⟩
      dsimp only
      split_ifs
      · exact Or.inr rfl
      · exact Or.inl rfl
    · exact Or.inl (hall e he hecg)
  | stopped why => exact absurd rfl (htask why)

lemma logged_reply {msg : MsgStoreSync H HeaderId Header} {q : PeerRequest}
    {log : List (MsgStoreSyncRequest HeaderId × List (MsgStoreSync H HeaderId Header))}
    (h : Logged (.asked q) log ∨ Logged (.waiting q) log) :
    Logged .idle (logged msg log) ∧ Logged (.waiting q) (logged msg log) := by
  obtain ⟨request, sent, log, rfl, hecg, hall⟩ : ∃ request sent log',
      log = (request, sent) :: log' ∧ request.isEcg = false ∧ AllAnswered log' := by
    rcases h with h | h
    · cases h with | asked _ hecg hall => exact ⟨_, _, _, rfl, hecg, hall⟩
    · cases h with | waiting _ hecg hall => exact ⟨_, _, _, rfl, hecg, hall⟩
  exact ⟨.idle (hall.cons fun hecg' => absurd (hecg'.symm.trans hecg) (by simp)),
    .waiting q hecg hall⟩

lemma logged_accept (h : Logged x.responder.task x.log) (hidle : x.responder.task = .idle)
    (msg : MsgStoreSync H HeaderId Header) (rest : List (MsgStoreSync H HeaderId Header)) :
    Logged (x.accept msg rest).responder.task (x.accept msg rest).log := by
  rw [hidle] at h
  cases h with
  | idle hall =>
    cases msg with
    | request request =>
      change Logged (x.responder.serve (.ok request)).task ((request, []) :: x.log)
      cases request with
      | metadataHeader => exact .asked _ rfl hall
      | merkleHashes ranges => exact .asked _ rfl hall
      | initialStateBlocks ranges => exact .asked _ rfl hall
      | ecgInitialSync tips =>
        simp only [Responder.serve]
        split_ifs
        · exact .stopped _ _
        · exact .attempting hall
      | ecgSync tips known =>
        simp only [Responder.serve]
        split
        · exact .stopped _ _
        · exact .attempting hall
    | _ => exact .stopped _ _

lemma logged_respond {r : ECGSyncResponder HeaderId} {attempt : Attempt HeaderId}
    (h : Logged (.attempting r attempt) x.log)
    (w : ECGSyncResponder HeaderId × List (Header × RawECGBody)) :
    Logged (x.respond attempt w).responder.task (x.respond attempt w).log := by
  obtain ⟨initiator, responder, ecg, toResponder, toInitiator, log, told⟩ := x
  cases h with
  | attempting hall =>
    unfold respond
    split_ifs with hempty hagain
    · exact .attempting hall
    · exact .attempting hall
    · exact .idle (hall.cons fun _ => ⟨w.1.sentHaves, w.2, Or.inr rfl⟩)
    · exact .idle (hall.cons fun _ => ⟨w.1.sentHaves, w.2, Or.inl rfl⟩)

/-! ### The rounds of the ECG sync -/

variable [ECGHeader Header HeaderId]

/-- What the rounds of the ECG sync keep, whatever the stores do. -/
structure Rounds (x : Connection H HeaderId Header Body) : Prop where
  wf : x.ecg.WellFormed
  haves : ∀ i, x.initiator.ecgSync = some i → i.haves.length ≤ maxHaveHeaders
  proposed : ∀ haves operations, .ecgResponse (.response haves operations) ∈ x.toInitiator →
    haves.length ≤ maxHaveHeaders
  known : ∀ r, x.responder.ecgSync = some r → Called x.ecg r
  attempted : ∀ r attempt, x.responder.task = .attempting r attempt → Called x.ecg r

lemma rounds_start : (start : Connection H HeaderId Header Body).Rounds where
  wf := UntypedState.wellFormed_new
  haves := nofun
  proposed := nofun
  known := nofun
  attempted := nofun

lemma Rounds.accept (h : x.Rounds) (msg : MsgStoreSync H HeaderId Header)
    (rest : List (MsgStoreSync H HeaderId Header)) : (x.accept msg rest).Rounds := by
  have hx : (x.accept msg rest).initiator = x.initiator ∧ (x.accept msg rest).ecg = x.ecg ∧
      (x.accept msg rest).toInitiator = x.toInitiator := by
    cases msg <;> exact ⟨rfl, rfl, rfl⟩
  obtain ⟨hinitiator, hecg, hmsgs⟩ := hx
  refine ⟨by rw [hecg]; exact h.wf, by rw [hinitiator]; exact h.haves,
    by rw [hmsgs]; exact h.proposed, fun r hr => ?_, fun r attempt hr => ?_⟩
  · rw [hecg]
    exact h.known r ((serve_ecgSync x.responder _).symm.trans hr)
  · rw [hecg]
    obtain rfl | hsync := attempting_serve hr
    · exact .new h.wf
    · exact h.known r hsync

lemma Rounds.observe (h : x.Rounds) {s : UntypedState HeaderId Header} (hg : x.ecg.Grows s)
    (hs : s.WellFormed) : (x.observe s).Rounds where
  wf := hs
  haves := h.haves
  proposed := h.proposed
  known r hr := (h.known r hr).snapshot hg hs
  attempted r attempt hr := (h.attempted r attempt hr).snapshot hg hs

lemma Rounds.respond (h : x.Rounds) (attempt : Attempt HeaderId)
    {w : ECGSyncResponder HeaderId × List (Header × RawECGBody)} (hw : Called x.ecg w.1) :
    (x.respond attempt w).Rounds := by
  unfold Connection.respond
  split_ifs with hempty hagain
  · exact ⟨h.wf, h.haves, h.proposed, h.known, fun r attempt hr => by cases hr; exact hw⟩
  · refine ⟨h.wf, h.haves, fun haves operations hmem => ?_, h.known,
      fun r attempt hr => by cases hr; exact hw⟩
    rcases List.mem_append.mp hmem with hmem | hmem
    · exact h.proposed haves operations hmem
    · cases List.mem_singleton.mp hmem
  · refine ⟨h.wf, h.haves, fun haves operations hmem => ?_, fun r hr => by cases hr; exact hw,
      nofun⟩
    rcases List.mem_append.mp hmem with hmem | hmem
    · exact h.proposed haves operations hmem
    · cases List.mem_singleton.mp hmem
      exact hw.inGraph.2

lemma Rounds.receive (h : x.Rounds) (peer : DeviceId) (pending : Pending)
    {msg : MsgStoreSync H HeaderId Header} {rest : List (MsgStoreSync H HeaderId Header)}
    (hmsgs : x.toInitiator = msg :: rest) : (x.receive peer pending msg rest).Rounds := by
  refine ⟨h.wf, fun i hi => ?_, fun haves operations hmem => ?_, h.known, h.attempted⟩
  · obtain hi | ⟨operations, rfl⟩ := ecgSync_receive hi
    · exact h.haves i hi
    · exact h.proposed i.haves operations (by rw [hmsgs]; exact List.mem_cons_self)
  · exact h.proposed haves operations (by rw [hmsgs]; exact List.mem_cons_of_mem _ hmem)

lemma Rounds.reply (h : x.Rounds) (q : PeerRequest) (response : StoreSyncResponse (Resp H q))
    {task : Serving HeaderId} (htask : ∀ r attempt, task ≠ .attempting r attempt) :
    (x.reply (buildResponse q response) { x.responder with task }).Rounds where
  wf := h.wf
  haves := h.haves
  proposed haves operations hmem := by
    rcases List.mem_append.mp hmem with hmem | hmem
    · exact h.proposed haves operations hmem
    · cases q <;> cases List.mem_singleton.mp hmem
  known := h.known
  attempted r attempt hr := absurd hr (htask r attempt)

lemma Rounds.step (h : x.Rounds) (hstep : Step peer x ev y) : y.Rounds := by
  cases hstep with
  | @command cmd hidle =>
    unfold issue
    split
    · exact ⟨h.wf, h.haves, h.proposed, h.known, h.attempted⟩
    · exact ⟨h.wf, h.haves, h.proposed, h.known, h.attempted⟩
  | @request msg rest hidle hmsg => exact h.accept msg rest
  | @answered q response hasked => exact h.reply q _ nofun
  | @toldToWait q hasked => exact h.reply .metadata .wait nofun
  | @later q response hwaiting => cases response <;> exact h.reply q _ nofun
  | @ecgState ecgSync attempt s w hattempt hg hs hw =>
    obtain ⟨w', hw', hc⟩ := ((h.attempted _ _ hattempt).snapshot hg hs).exists_attempt attempt
    rw [hw'.unique (steady_attempt attempt s ecgSync) hw] at hc
    exact (h.observe hg hs).respond attempt hc
  | @ecgFault ecgSync attempt s fuel e hattempt hg hs hno he hfuel =>
    obtain ⟨w, hw, -⟩ := ((h.attempted _ _ hattempt).snapshot hg hs).exists_attempt attempt
    exact absurd hw (hno w)
  | @response pending msg rest hreceiving hmsgs => exact h.receive peer pending hmsgs

/-! ### One step -/

lemma Rounds.exists_request (h : x.Rounds) (cmd : StoreSyncCommand HeaderId Header) :
    ∃ request pending, x.initiator.request cmd = .ok (request, pending) := by
  cases cmd with
  | metadataHeaderRequest => exact ⟨_, _, rfl⟩
  | merkleRequest ranges => exact ⟨_, _, rfl⟩
  | initialStateBlockRequest ranges => exact ⟨_, _, rfl⟩
  | ecgSyncRequest ecgState =>
    cases hsync : x.initiator.ecgSync with
    | none => exact ⟨_, _, by rw [Initiator.request, hsync]⟩
    | some ecgSync =>
      obtain ⟨known, hknown⟩ := exists_knownBitmap (h.haves ecgSync hsync) (s := ecgState)
      exact ⟨.ecgSync ecgState.tips.toList known, .ecg false, by
        simp only [Initiator.request, hsync, hknown, ok_bind, pure_eq_ok]⟩

lemma Linked.step (h : x.Linked) (hrounds : x.Rounds) (hstep : Step peer x ev y)
    (hev : ev.misdirects = false) : y.Linked := by
  have hrequest := hrounds.exists_request
  have hattempted := hrounds.attempted
  obtain ⟨⟨isync, itask⟩, ⟨rsync, rtask⟩, ecg, toResponder, toInitiator, log, told⟩ := x
  obtain ⟨b, b', hb, hb', h⟩ := h
  dsimp only at h hb hb'
  cases hstep with
  | @command cmd hidle =>
    obtain rfl : itask = .idle := hidle
    obtain ⟨request, pending, hreq⟩ := hrequest cmd
    cases h
    unfold issue
    rw [hreq]
    exact ⟨_, _, hb, hb', .requested (hb ▸ asks_of_request hreq)⟩
  | @request msg rest hidle hmsg =>
    obtain rfl : rtask = .idle := hidle
    obtain rfl : toResponder = msg :: rest := hmsg
    cases h with
    | requested hasks =>
      cases hasks with
      | metadata => exact ⟨_, _, hb, hb', .asked b .metadata⟩
      | merkle ranges => exact ⟨_, _, hb, hb', .asked b (.merkle ranges)⟩
      | blocks ranges => exact ⟨_, _, hb, hb', .asked b (.blocks ranges)⟩
      | ecgInitial tips hnone =>
        cases rsync with
        | none => exact ⟨_, _, hb, hb', .attempting b rfl⟩
        | some ecgSync => exact absurd (hb'.trans hnone) (by simp)
      | ecg tips known hsome =>
        cases rsync with
        | none => exact absurd (hb'.trans hsome) (by simp)
        | some ecgSync => exact ⟨_, _, hb, hb', .attempting b rfl⟩
  | @answered q response hasked =>
    obtain rfl : rtask = .asked q := hasked
    cases h with
    | asked => exact ⟨_, _, hb, hb', .answered b q _⟩
  | @toldToWait q hasked =>
    obtain rfl : rtask = .asked q := hasked
    cases h with
    | asked =>
      cases q with
      | metadata => exact ⟨_, _, hb, hb', .waiting b⟩
      | merkle ranges => cases hev
      | blocks ranges => cases hev
  | @later q response hwaiting =>
    obtain rfl : rtask = .waiting q := hwaiting
    cases h with
    | waiting => cases response <;> exact ⟨_, _, hb, hb', .answeredLate b _⟩
    | stoppedWaiting => cases response <;> exact ⟨_, _, hb, hb', .stopped b _⟩
  | @ecgState ecgSync attempt s w hattempt hg hs hw =>
    obtain rfl : rtask = .attempting ecgSync attempt := hattempt
    unfold respond
    split_ifs with hempty hagain
    · cases h with
      | attempting hfirst => exact absurd (hagain.symm.trans hfirst) (by simp)
      | subscribed => exact ⟨_, _, hb, hb', .subscribed b rfl⟩
      | waited => exact ⟨_, _, hb, hb', .waited b rfl⟩
    · cases h with
      | attempting => exact ⟨_, _, hb, hb', .subscribed b rfl⟩
      | subscribed hagain' => exact absurd hagain' hagain
      | waited hagain' => exact absurd hagain' hagain
    · cases h with
      | attempting => exact ⟨_, _, hb, rfl, .responded b false _ _⟩
      | subscribed => exact ⟨_, _, hb, rfl, .respondedLate b _ _⟩
      | waited => exact ⟨_, _, hb, rfl, .responded b true _ _⟩
  | @ecgFault ecgSync attempt s fuel e hattempt hg hs hno he hfuel =>
    obtain ⟨w, hw, -⟩ := ((hattempted _ _ hattempt).snapshot hg hs).exists_attempt attempt
    exact absurd hw (hno w)
  | @response pending msg rest hreceiving hmsg =>
    obtain rfl : itask = .receiving pending := hreceiving
    obtain rfl : toInitiator = msg :: rest := hmsg
    cases h with
    | answered q response => exact linked_receive q response rfl rfl (hb.trans hb'.symm)
    | waiting => exact ⟨_, _, hb, hb', .stoppedWaiting b []⟩
    | answeredLate => exact ⟨_, _, hb, hb', .stopped b _⟩
    | subscribed hagain => exact ⟨_, _, hb, hb', .waited b hagain⟩
    | responded waited haves operations => exact ⟨_, _, rfl, hb', .idle true⟩
    | respondedLate haves operations => exact ⟨_, _, hb, hb', .responded b true _ _⟩

lemma logged_step (h : Logged x.responder.task x.log) (hstep : Step peer x ev y) :
    Logged y.responder.task y.log := by
  cases hstep with
  | @command cmd hidle =>
    unfold issue
    split <;> exact h
  | @request msg rest hidle hmsg => exact logged_accept h hidle msg rest
  | @answered q response hasked => exact (logged_reply (Or.inl (hasked ▸ h))).1
  | @toldToWait q hasked => exact (logged_reply (Or.inl (hasked ▸ h))).2
  | @later q response hwaiting => exact (logged_reply (Or.inr (hwaiting ▸ h))).1
  | @ecgState ecgSync attempt s w hattempt hg hs hw =>
    exact logged_respond (x := x.observe s) (hattempt ▸ h) w
  | @ecgFault ecgSync attempt s fuel e hattempt hg hs hno he hfuel => exact .stopped _ _
  | @response pending msg rest hreceiving hmsg => exact h

/-! ### Runs -/

/-- **The two sides speak the same protocol**: what is in flight converts to what is received,
the other side never stops, the side with initiative stops only at a response that is still to
do, and an ECG request is answered by one response unless it is the one that is served. -/
structure Speaks (x : Connection H HeaderId Header Body) : Prop where
  converts : ∀ pending, x.initiator.task = .receiving pending → ∀ msg ∈ x.toInitiator,
    pending.accepts msg = true
  expected : x.initiator.task = .idle → x.toInitiator = []
  initiator : ∀ why, x.initiator.task = .stopped why → why = .fault (.todo "")
  responder : ∀ why, x.responder.task ≠ .stopped why
  answered : ∀ e ∈ x.log, e.1.isEcg = true → Answered e.2 ∨ x.log.head? = some e ∧
    x.responder.task ≠ .idle ∧ (e.2 = [] ∨ e.2 = [.ecgResponse .wait])

omit [ECGHeader Header HeaderId] in
lemma Linked.speaks (h : x.Linked) (hlog : Logged x.responder.task x.log) : x.Speaks := by
  obtain ⟨b, b', -, -, h⟩ := h
  exact ⟨fun pending hpending => (hpending ▸ h).accepts, fun hidle => (hidle ▸ h).expected,
    fun why hwhy => (hwhy ▸ h).eq_todo, fun why => h.ne_stopped,
    hlog.answered fun why => h.ne_stopped⟩

/-- After a message to wait of the wrong kind the sides do not understand each other. -/
lemma Linked.not_speaks (h : x.Linked) (hstep : Step peer x ev y) (hev : ev.misdirects = true) :
    ¬ y.Speaks := by
  obtain ⟨b, b', -, -, h⟩ := h
  intro hspeaks
  cases hstep with
  | @toldToWait q hasked =>
    have haccepts := hspeaks.converts (pendingOf q) (hasked ▸ h).receiving
      (.metadataHeaderResponse .wait) (List.mem_append_right _ List.mem_cons_self)
    cases q with
    | metadata => cases hev
    | merkle ranges => cases haccepts
    | blocks ranges => cases haccepts
  | @answered q response hasked => cases q <;> cases hev
  | _ => cases hev

end Connection

variable [ECGHeader Header HeaderId] {peer : DeviceId} {x : Connection H HeaderId Header Body}
  {past : List (Connection H HeaderId Header Body)} {events : List (Event H HeaderId Header)}

lemma Run.linked (hrun : Run peer events past x) (hev : ∀ ev ∈ events, ev.misdirects = false) :
    x.Linked ∧ x.Rounds ∧ Connection.Logged x.responder.task x.log := by
  induction hrun with
  | start => exact ⟨⟨_, _, rfl, rfl, .idle false⟩, Connection.rounds_start, .idle nofun⟩
  | step hrun hstep ih =>
    obtain ⟨hhead, htail⟩ := List.forall_mem_cons.mp hev
    obtain ⟨hlinked, hrounds, hlog⟩ := ih htail
    exact ⟨hlinked.step hrounds hstep hhead, hrounds.step hstep, Connection.logged_step hlog hstep⟩

/-- **The two sides speak the same protocol as long as no request for merkle hashes or blocks is
told to wait**, whatever else is asked and answered, and only then. -/
theorem speaks_iff (hrun : Run peer events past x) :
    (∀ y ∈ x :: past, y.Speaks) ↔ ∀ ev ∈ events, ev.misdirects = false := by
  constructor
  · intro hspeaks
    induction hrun with
    | start => simp
    | @step events past x ev y hrun hstep ih =>
      obtain ⟨hy, hpast⟩ := List.forall_mem_cons.mp hspeaks
      have hevents := ih hpast
      refine List.forall_mem_cons.mpr ⟨?_, hevents⟩
      cases hmis : ev.misdirects with
      | false => rfl
      | true =>
        obtain ⟨hlinked, -⟩ := hrun.linked hevents
        exact absurd hy (hlinked.not_speaks hstep hmis)
  · intro hev
    induction hrun with
    | start =>
      obtain ⟨hlinked, -, hlog⟩ := Run.linked (.start : Run peer [] [] .start) hev
      exact List.forall_mem_singleton.mpr (hlinked.speaks hlog)
    | @step events past x ev y hrun hstep ih =>
      obtain ⟨hlinked, -, hlog⟩ := (hrun.step hstep).linked hev
      exact List.forall_mem_cons.mpr
        ⟨hlinked.speaks hlog, ih fun e he => hev e (List.mem_cons_of_mem _ he)⟩

omit [ECGHeader Header HeaderId] in
/-- A store that still downloads the metadata tells a request for anything else to wait. -/
theorem misdirects_downloadingMetadata {StoreId T : Type} [Hash H] (storeId : StoreId)
    (q : PeerRequest) :
    (StateMachine.downloadingMetadata storeId : StateMachine StoreId H HeaderId Header T).immediate q
      = .ok none ∧ ((.answer q none : Event H HeaderId Header).misdirects = true ↔ q ≠ .metadata) := by
  cases q with
  | metadata => exact ⟨rfl, by simp [Event.misdirects]⟩
  | merkle ranges => exact ⟨rfl, by simp [Event.misdirects]⟩
  | blocks ranges => exact ⟨rfl, by simp [Event.misdirects]⟩

section Merkle

open V0

/-- The range of the merkle hashes of one block. -/
def merkleRange : List Range := [⟨0, 1⟩]

/-- The graphs of the two stores; the other one gets a header. -/
def noGraph : UntypedState ℕ TestHeader := .new

def rootGraph : UntypedState ℕ TestHeader := (UntypedState.new.insertHeader ⟨0, []⟩ []).1

lemma firstAttempt_isOk :
    ((Attempt.initial noGraph.tips.toList).run 8 noGraph .new).isOk = true := by decide

/-- The first attempt sends nothing. -/
def firstAttempt : ECGSyncResponder ℕ × List (TestHeader × RawECGBody) := value _ firstAttempt_isOk

lemma secondAttempt_isOk :
    ((Attempt.again noGraph.tips.toList).run 8 rootGraph firstAttempt.1).isOk = true := by decide

def secondAttempt : ECGSyncResponder ℕ × List (TestHeader × RawECGBody) :=
  value _ secondAttempt_isOk

/-- A request for merkle hashes that is answered at once, one for operations that waits for a
header, and one for metadata that waits. -/
def bothWait : List (Event UInt8 ℕ TestHeader) :=
  [.response, .answer .metadata none, .request, .command .metadataHeaderRequest, .response,
    .ecgState rootGraph, .response, .ecgState noGraph, .request,
    .command (.ecgSyncRequest noGraph), .response, .answer (.merkle merkleRange) (some [7]),
    .request, .command (.merkleRequest merkleRange)]

lemma bothWait_run : ∃ (past : List (Connection UInt8 ℕ TestHeader Unit))
    (x : Connection UInt8 ℕ TestHeader Unit), Run 1 bothWait past x ∧
      x.told = [.receivedMerkleHashes 1 merkleRange [7],
        .receivedECGOperations 1 secondAttempt.2] := by
  have hfirst : (firstAttempt.2.isEmpty && firstAttempt.1.sentHaves.isEmpty) = true := by decide
  have hsecond : (secondAttempt.2.isEmpty && secondAttempt.1.sentHaves.isEmpty) = false := by decide
  have h₀ : Run 1 [.response, .answer (.merkle merkleRange) (some [7]), .request,
      .command (.merkleRequest merkleRange)] _ (_ : Connection UInt8 ℕ TestHeader Unit) :=
    (((Run.start.step (.command rfl)).step (.request rfl rfl)).step (.answered _ rfl)).step
      (.response rfl rfl)
  have h₁ : Run 1 (.command (.ecgSyncRequest noGraph) :: _) _ _ := h₀.step (.command rfl)
  have h₂ := h₁.step (.request rfl rfl)
  have h₃ := h₂.step (.ecgState (w := firstAttempt) rfl (fun _ _ h => h)
    UntypedState.wellFormed_new ⟨8, eq_ok_value firstAttempt_isOk⟩)
  rw [Connection.respond, if_pos hfirst] at h₃
  have h₄ := h₃.step (.response rfl rfl)
  have h₅ := h₄.step (.ecgState (w := secondAttempt) (s := rootGraph) rfl
    (UntypedState.wellFormed_new.getNode_insertHeader _ _).1
    (UntypedState.wellFormed_new.insertHeader _ _) ⟨8, eq_ok_value secondAttempt_isOk⟩)
  rw [Connection.respond, if_neg (Bool.eq_false_iff.mp hsecond)] at h₅
  have h₆ := h₅.step (.response rfl rfl)
  have h₇ : Run 1 (.command .metadataHeaderRequest :: _) _ _ := h₆.step (.command rfl)
  exact ⟨_, _, ((h₇.step (.request rfl rfl)).step (.toldToWait rfl)).step (.response rfl rfl), rfl⟩

theorem speaks_iff_both_wait : ∃ (past : List (Connection UInt8 ℕ TestHeader Unit))
    (x : Connection UInt8 ℕ TestHeader Unit), Run 1 bothWait past x ∧
      x.told = [.receivedMerkleHashes 1 merkleRange [7],
        .receivedECGOperations 1 secondAttempt.2] ∧ ∀ y ∈ x :: past, y.Speaks := by
  obtain ⟨past, x, hrun, htold⟩ := bothWait_run
  exact ⟨past, x, hrun, htold, (speaks_iff hrun).mpr (by simp [bothWait, Event.misdirects])⟩

/-- A store that still downloads the metadata tells a request for merkle hashes to wait, and the
side with initiative receives a deviation from the protocol. -/
theorem merkle_wait_deviates : ∃ (past : List (Connection UInt8 ℕ TestHeader Unit))
    (x : Connection UInt8 ℕ TestHeader Unit),
    Run 1 [.response, .answer (.merkle merkleRange) none, .request,
      .command (.merkleRequest merkleRange)] past x ∧
    x.initiator.task = .stopped (.protocol .protocolDeviation) ∧
    ¬ ∀ y ∈ x :: past, y.Speaks := by
  refine ⟨_, _, (((Run.start.step (.command rfl)).step (.request rfl rfl)).step
    (.toldToWait rfl)).step (.response rfl rfl), rfl, fun hspeaks => ?_⟩
  cases (hspeaks _ List.mem_cons_self).initiator (.protocol .protocolDeviation) rfl

end Merkle

end Ossa.StoreSync
