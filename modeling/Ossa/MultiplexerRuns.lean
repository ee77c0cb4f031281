import Ossa.Connection

/-!
Two multiplexers at the ends of one connection.

The miniprotocols of a side put their messages into one channel. The multiplexer writes them to
the socket one after the other, reads what has arrived in buffers that are cut anywhere, and adds
streams in between. It waits while the socket or the channel of a stream is full, and stops if the
task that reads it is gone. For the miniprotocols this is one queue in each direction: the messages
that have reached their streams are the first of those that were sent. The inboxes of a connection
are these queues.
-/

namespace Ossa.Network

open Ossa.Loop Ossa.Util Ossa.Collections MultiplexerReadState

def OUTGOING_CAPACITY : ℕ := 32

def PROTOCOL_INCOMING_CAPACITY : ℕ := 4

/-- The capacity of the buffer of one read. -/
def BUFFER_SIZE : ℕ := 4096

/-- What `run_with_miniprotocols` keeps. The channel of a task is a number; what was sent to
channels is kept in `delivered`, and what their tasks took from them in `received`. -/
structure Multiplexer where
  streamMap : BTreeMap StreamId ℕ
  readState : MultiplexerReadState ℕ
  /-- The rest of the buffer that `handle_receive` works on. -/
  buf : Option (List UInt8)
  /-- The rest of the message that is being written. -/
  writing : List UInt8
  channels : ℕ
  /-- The channels whose receiver was dropped. -/
  gone : List ℕ
  /-- The messages that wait in the channels. -/
  waiting : List (ℕ × List UInt8)
  outgoing : List (StreamId × List UInt8)
  delivered : List (ℕ × List UInt8)
  received : List (ℕ × List UInt8)

/-- The messages for one channel. -/
def onChannel (chan : ℕ) (l : List (ℕ × List UInt8)) : List (List UInt8) :=
  (l.filter fun delivery => delivery.1 = chan).map Prod.snd

namespace Multiplexer

/-- Before the miniprotocols are spawned. -/
def new : Multiplexer := ⟨∅, .new, none, [], 0, [], [], [], [], []⟩

/-- Create the window for a miniprotocol, and insert it at its identifier. -/
def spawn (self : Multiplexer) (protocolId : StreamId) : Multiplexer :=
  { self with
    streamMap := self.streamMap.insert protocolId self.channels
    channels := self.channels + 1 }

/-- The miniprotocols are assigned identifiers in order, starting at 0. -/
def withMiniprotocols (count : ℕ) : Exec Multiplexer :=
  (List.range count).foldlM (fun self protocolId =>
    if h : protocolId < 2 ^ 32 then .ok (self.spawn ⟨protocolId, h⟩)
    else .error (.expect "TODO")) new

/-- A miniprotocol sends a message on its stream. -/
def send (self : Multiplexer) (message : StreamId × List UInt8) : Multiplexer :=
  { self with outgoing := self.outgoing ++ [message] }

/-- The loop is within a branch of its `select!`. -/
def isBusy (self : Multiplexer) : Bool := self.buf.isSome || !self.writing.isEmpty

/-- Data to send. -/
def write (self : Multiplexer) : Exec Multiplexer :=
  match self.outgoing with
  | [] => .ok self
  | message :: outgoing => do
    let writing ← writeMessage message
    pure { self with outgoing, writing }

/-- The socket has taken some bytes. -/
def flush (self : Multiplexer) (count : ℕ) : Multiplexer :=
  { self with writing := self.writing.drop count }

/-- Data from the peer. -/
def read (self : Multiplexer) (buf : List UInt8) : Multiplexer := { self with buf := some buf }

/-- One call of `handle_receive`: the state it leaves, the rest of the buffer if there is another
call, and the message it sends on, if any. -/
def call (self : Multiplexer) (buf : List UInt8) :
    Exec (MultiplexerReadState ℕ × Option (List UInt8) × List (ℕ × List UInt8)) := do
  match ← receiveBody self.streamMap (self.readState, buf, []) with
  | .next (readState, buf, sent) => pure (readState, some buf, sent)
  | .done (readState, sent) => pure (readState, none, sent)

def isFull (self : Multiplexer) (chan : ℕ) : Bool :=
  decide (PROTOCOL_INCOMING_CAPACITY ≤ (onChannel chan self.waiting).length)

/-- The next call waits: its message is for a channel that is full. -/
def waits (self : Multiplexer) (buf : List UInt8) : Bool :=
  match self.call buf with
  | .ok (_, _, sent) => sent.any fun delivery =>
    decide (delivery.1 ∉ self.gone) && self.isFull delivery.1
  | .error _ => false

/-- The next call of `handle_receive`. Its message cannot be sent if the receiver is gone. -/
def receive (self : Multiplexer) (buf : List UInt8) : Exec Multiplexer := do
  let (readState, buf, sent) ← self.call buf
  if sent.any fun delivery => decide (delivery.1 ∈ self.gone) then .error (.expect "TODO")
  else pure { self with
    readState
    buf
    waiting := self.waiting ++ sent
    delivered := self.delivered ++ sent }

/-- The task of a channel takes the next message. -/
def take (self : Multiplexer) (chan : ℕ) : Multiplexer :=
  match self.waiting.find? fun delivery => delivery.1 = chan with
  | none => self
  | some delivery =>
    { self with
      waiting := self.waiting.eraseP fun delivery => delivery.1 = chan
      received := self.received ++ [delivery] }

/-- The task of a channel ends, and drops its receiver. -/
def drop (self : Multiplexer) (chan : ℕ) : Multiplexer := { self with gone := chan :: self.gone }

/-- `CreateStream`. The channel is made for the task, also where the stream is not new. -/
def create (self : Multiplexer) (streamId : StreamId) : Multiplexer :=
  { self with
    streamMap := (createStream self.streamMap streamId self.channels).1
    channels := self.channels + 1 }

end Multiplexer

/-- Both ends, and the bytes that each has written and the other has not read. A socket holds so
many of them at most. -/
structure Link where
  capacity : ℕ
  side : Party → Multiplexer
  wire : Party → List UInt8

inductive LinkEvent
  | send (party : Party) (message : StreamId × List UInt8)
  | write (party : Party)
  | flush (party : Party) (count : ℕ)
  | read (party : Party) (count : ℕ)
  | receive (party : Party)
  | take (party : Party) (chan : ℕ)
  | drop (party : Party) (chan : ℕ)
  | create (party : Party) (streamId : StreamId)

namespace Link

def setSide (self : Link) (party : Party) (mux : Multiplexer) : Link :=
  { self with side := Function.update self.side party mux }

def setWire (self : Link) (party : Party) (bytes : List UInt8) : Link :=
  { self with wire := Function.update self.wire party bytes }

/-- A task waits while the channel it sends to is full. The loop of a multiplexer waits while the
socket or the channel is full, and selects nothing else until then. -/
def enabled (self : Link) : LinkEvent → Bool
  | .send party _ => decide ((self.side party).outgoing.length < OUTGOING_CAPACITY)
  | .write party => !(self.side party).isBusy && !(self.side party).outgoing.isEmpty
  | .flush _ _ => true
  | .read party _ => !(self.side party).isBusy
  | .receive party => (self.side party).buf.any fun buf => !(self.side party).waits buf
  | .take party chan =>
    decide (chan ∉ (self.side party).gone) && !(onChannel chan (self.side party).waiting).isEmpty
  | .drop _ _ => true
  | .create party _ => !(self.side party).isBusy

def next (self : Link) : LinkEvent → Exec Link
  | .send party message => .ok (self.setSide party ((self.side party).send message))
  | .write party => do
    let mux ← (self.side party).write
    pure (self.setSide party mux)
  | .flush party count =>
    let count := min count (self.capacity - (self.wire party).length)
    .ok ((self.setSide party ((self.side party).flush count)).setWire party
      (self.wire party ++ (self.side party).writing.take count))
  | .read party count =>
    let arrived := self.wire party.dual
    let count := min count BUFFER_SIZE
    .ok ((self.setSide party ((self.side party).read (arrived.take count))).setWire party.dual
      (arrived.drop count))
  | .receive party =>
    match (self.side party).buf with
    | none => .ok self
    | some buf => do
      let mux ← (self.side party).receive buf
      pure (self.setSide party mux)
  | .take party chan => .ok (self.setSide party ((self.side party).take chan))
  | .drop party chan => .ok (self.setSide party ((self.side party).drop chan))
  | .create party streamId => .ok (self.setSide party ((self.side party).create streamId))

/-- The connection after the events of a list, if they can happen. -/
def exec (self : Link) (events : List LinkEvent) : Exec Link :=
  events.foldlM (fun self ev => if self.enabled ev then self.next ev else .error .assertion) self

/-- Both sides have spawned their miniprotocols. -/
def start (capacity count : ℕ) : Exec Link := do
  let mux ← Multiplexer.withMiniprotocols count
  pure ⟨capacity, fun _ => mux, fun _ => []⟩

end Link

/-- The messages that the miniprotocols of a party have sent. -/
def sentBy (party : Party) (events : List LinkEvent) : List (StreamId × List UInt8) :=
  events.filterMap fun
    | .send party' message => if party' = party then some message else none
    | _ => none

/-! ### A reader that does not fault -/

section Reader

variable {Sender : Type} {streamMap streamMap' : BTreeMap StreamId Sender}
  {messages : List (StreamId × List UInt8)} {sent : List (Sender × List UInt8)}
  {rest buf : List UInt8}

lemma parse_written {message : StreamId × List UInt8} (h : message.2.length < 2 ^ 32) :
    Fin.ofNat (2 ^ 32) (fromBe ((toBe 4 message.1.val ++ toBe 4 message.2.length).take 4)) =
        message.1 ∧
      fromBe ((toBe 4 message.1.val ++ toBe 4 message.2.length).drop 4) = message.2.length := by
  constructor
  · rw [List.take_left' (length_toBe _ _), fromBe_toBe message.1.isLt]
    exact Fin.ofNat_val_eq_self _
  · rw [List.drop_left' (length_toBe _ _), fromBe_toBe h]

lemma receiveBody_ok {st : MultiplexerReadState Sender}
    {f : Flow (MultiplexerReadState Sender × List UInt8 × List (Sender × List UInt8))
      (MultiplexerReadState Sender × List (Sender × List UInt8))}
    (hfit : ∀ message ∈ messages, message.2.length < 2 ^ 32)
    (h : Awaits streamMap messages (buf ++ rest) st)
    (hf : receiveBody streamMap (st, buf, sent) = .ok f) :
    CallResult streamMap messages rest (st, buf, sent) f := by
  cases st with
  | processingBody msgLength sender sendBuffer =>
    have hcall : ∃ f',
        receiveBody streamMap (.processingBody msgLength sender sendBuffer, buf, sent) = .ok f' ∧
        CallResult streamMap messages rest
          (.processingBody msgLength sender sendBuffer, buf, sent) f' := call_body h
    obtain ⟨f', hf', hresult⟩ := hcall
    rwa [Except.ok.inj (hf.symm.trans hf')]
  | processingHeader position header =>
    obtain ⟨hlen, hpos, hnew, hbytes⟩ := h
    have hremaining : remaining HEADER_LENGTH position = .ok (HEADER_LENGTH - position) :=
      if_pos hpos.le
    obtain ⟨k, hk⟩ : ∃ k, k = min buf.length (HEADER_LENGTH - position) := ⟨_, rfl⟩
    obtain ⟨hcopy, hsize⟩ := take_copy hlen (show position + k ≤ HEADER_LENGTH by omega)
      (show k ≤ buf.length by omega)
    simp only [receiveBody, hremaining, ok_bind, ← hk, hcopy] at hf
    have hhead : (header.take position ++ buf.take k) ++ (buf.drop k ++ rest) =
        (messages.map frame).flatten := by
      rw [List.append_assoc, ← List.append_assoc (buf.take k), List.take_append_drop, hbytes]
    by_cases hfull : position + k = HEADER_LENGTH
    · rw [hfull] at hsize
      obtain ⟨message, later, rfl, hheader, hrest⟩ := header_complete hsize hhead
      obtain ⟨hid, hmsg⟩ := parse_written (hfit message List.mem_cons_self)
      have hdrop : header.drop HEADER_LENGTH = [] := List.drop_eq_nil_of_le hlen.le
      rw [if_pos hfull, hfull, hdrop, List.append_nil, hheader, hid, hmsg] at hf
      obtain ⟨sender, hsender, hf⟩ := bind_eq_ok.mp hf
      split_ifs at hf
      cases hf
      refine ⟨message :: later, .refl,
        ⟨message, later, rfl, orFault_eq_ok.mp hsender, rfl, Nat.zero_le _, hrest⟩, ?_⟩
      simp only [callMeasure, List.length_drop]
      omega
    · rw [if_neg hfull] at hf
      cases hf
      have hall : k = buf.length := by omega
      refine ⟨messages, .refl, ⟨?_, by omega, fun hzero => ?_, ?_⟩, trivial⟩
      · rw [List.length_append, hsize, List.length_drop]
        omega
      · have hp : position = 0 := by omega
        have hk0 : k = 0 := by omega
        rw [hp, hk0, List.take_zero, List.take_zero, List.nil_append, List.nil_append, Nat.add_zero,
          List.drop_zero, hnew hp]
      · rw [List.take_left' hsize]
        rw [hall, List.drop_length, List.nil_append] at hhead
        rwa [hall]

lemma Progress.subset {messages' : List (StreamId × List UInt8)}
    {sent' : List (Sender × List UInt8)}
    (h : Progress streamMap messages sent messages' sent') :
    ∀ message ∈ messages', message ∈ messages := by
  obtain ⟨received, deliveries, rfl, -, -⟩ := h
  exact fun message hmem => List.mem_append_right _ hmem

lemma Awaits.append {st : MultiplexerReadState Sender} (h : Awaits streamMap messages rest st)
    (message : StreamId × List UInt8) :
    Awaits streamMap (messages ++ [message]) (rest ++ frame message) st := by
  cases st with
  | processingHeader position header =>
    obtain ⟨hlen, hpos, hnew, hbytes⟩ := h
    refine ⟨hlen, hpos, hnew, ?_⟩
    rw [← List.append_assoc, hbytes]
    simp
  | processingBody msgLength sender sendBuffer =>
    obtain ⟨first, later, rfl, hsender, hmsg, hle, hbytes⟩ := h
    refine ⟨first, later ++ [message], rfl, hsender, hmsg, hle, ?_⟩
    rw [← List.append_assoc, hbytes]
    simp

lemma Awaits.mono {st : MultiplexerReadState Sender} (h : Awaits streamMap messages rest st)
    (hsub : ∀ (k : StreamId) sender, streamMap[k]? = some sender → streamMap'[k]? = some sender) :
    Awaits streamMap' messages rest st := by
  cases st with
  | processingHeader position header => exact h
  | processingBody msgLength sender sendBuffer =>
    obtain ⟨first, later, heq, hsender, hrest⟩ := h
    exact ⟨first, later, heq, hsub _ _ hsender, hrest⟩

end Reader

/-! ### One direction -/

namespace Party

@[simp] lemma dual_dual (p : Party) : p.dual.dual = p := by cases p <;> rfl

@[simp] lemma dual_ne (p : Party) : p.dual ≠ p := by cases p <;> decide

@[simp] lemma ne_dual (p : Party) : p ≠ p.dual := (dual_ne p).symm

lemma eq_or_eq_dual (p q : Party) : p = q ∨ p = q.dual := by
  cases p <;> cases q <;> decide

end Party

/-- The messages sent in one direction: the first have been delivered, the next are awaited by the
reader, and the last are still to be written. -/
structure Flows (sent outgoing : List (StreamId × List UInt8)) (wire : List UInt8)
    (reader : Multiplexer) (arrived awaited : List (StreamId × List UInt8)) : Prop where
  sent : sent = arrived ++ (awaited ++ outgoing)
  delivers : List.Forall₂ (Delivers reader.streamMap) reader.delivered arrived
  awaits : Awaits reader.streamMap awaited (reader.buf.getD [] ++ wire) reader.readState
  settled : reader.buf = none → Settled reader.readState
  fit : ∀ message ∈ awaited, message.2.length < 2 ^ 32

namespace Multiplexer

variable {self self' : Multiplexer} {buf rest : List UInt8} {buf' : Option (List UInt8)}
  {awaited : List (StreamId × List UInt8)} {st' : MultiplexerReadState ℕ}
  {sent : List (ℕ × List UInt8)}

/-- The calls that are left in a buffer, at least. -/
def callsLeft (st : MultiplexerReadState ℕ) : Option (List UInt8) → ℕ
  | none => 0
  | some buf => callMeasure (st, buf, ([] : List (ℕ × List UInt8))) + 1

lemma call_cases (h : self.call buf = .ok (st', buf', sent)) : ∃ f,
    receiveBody self.streamMap (self.readState, buf, []) = .ok f ∧
      (∃ rest, f = .next (st', rest, sent) ∧ buf' = some rest ∨
        f = .done (st', sent) ∧ buf' = none) := by
  obtain ⟨f, hf, h⟩ := bind_eq_ok.mp h
  cases f with
  | next w =>
    cases h
    exact ⟨_, hf, _, Or.inl ⟨rfl, rfl⟩⟩
  | done w =>
    cases h
    exact ⟨_, hf, [], Or.inr ⟨rfl, rfl⟩⟩

lemma call_result {f : Flow (MultiplexerReadState ℕ × List UInt8 × List (ℕ × List UInt8))
      (MultiplexerReadState ℕ × List (ℕ × List UInt8))}
    (hf : receiveBody self.streamMap (self.readState, buf, []) = .ok f)
    (hc : self.call buf = .ok (st', buf', sent))
    (h : CallResult self.streamMap awaited rest (self.readState, buf, []) f) :
    ∃ awaited', Progress self.streamMap awaited [] awaited' sent ∧
      Awaits self.streamMap awaited' (buf'.getD [] ++ rest) st' ∧ (buf' = none → Settled st') ∧
      callsLeft st' buf' < callsLeft self.readState (some buf) := by
  obtain ⟨f', hf', bytes, ⟨rfl, rfl⟩ | ⟨rfl, rfl⟩⟩ := call_cases hc
  · cases hf.symm.trans hf'
    obtain ⟨awaited', hp, ha, hlt⟩ := h
    exact ⟨awaited', hp, ha, by simp, Nat.succ_lt_succ hlt⟩
  · cases hf.symm.trans hf'
    obtain ⟨awaited', hp, ha, hs⟩ := h
    exact ⟨awaited', hp, ha, fun _ => hs, Nat.succ_pos _⟩

lemma length_sent_le (h : self.call buf = .ok (st', buf', sent)) : sent.length ≤ 1 := by
  obtain ⟨f, hf, rest, hor⟩ := call_cases h
  cases hst : self.readState with
  | processingHeader position header =>
    rw [hst] at hf
    obtain ⟨_, -, hf⟩ := bind_eq_ok.mp hf
    obtain ⟨_, -, hf⟩ := bind_eq_ok.mp hf
    dsimp only at hf
    split_ifs at hf
    · obtain ⟨_, -, hf⟩ := bind_eq_ok.mp hf
      cases hf
    · obtain ⟨_, -, hf⟩ := bind_eq_ok.mp hf
      cases hf
      rcases hor with ⟨heq, -⟩ | ⟨heq, -⟩ <;> cases heq
      exact Nat.zero_le _
    · cases hf
      rcases hor with ⟨heq, -⟩ | ⟨heq, -⟩ <;> cases heq
      exact Nat.zero_le _
  | processingBody msgLength sender sendBuffer =>
    rw [hst] at hf
    obtain ⟨_, -, hf⟩ := bind_eq_ok.mp hf
    dsimp only at hf
    split_ifs at hf <;> cases hf <;> rcases hor with ⟨heq, -⟩ | ⟨heq, -⟩ <;> cases heq <;> simp

end Multiplexer

namespace Flows

variable {sent outgoing arrived awaited : List (StreamId × List UInt8)}
  {wire bytes buf : List UInt8} {reader reader' : Multiplexer} {message : StreamId × List UInt8}

lemma send (h : Flows sent outgoing wire reader arrived awaited) :
    Flows (sent ++ [message]) (outgoing ++ [message]) wire reader arrived awaited :=
  { h with sent := by rw [h.sent]; simp }

lemma write (h : Flows sent (message :: outgoing) wire reader arrived awaited)
    (hw : writeMessage message = .ok bytes) :
    Flows sent outgoing (wire ++ bytes) reader arrived (awaited ++ [message]) := by
  unfold writeMessage at hw
  split_ifs at hw with hlt
  cases hw
  refine ⟨by rw [h.sent]; simp, h.delivers, ?_, h.settled, fun m hm => ?_⟩
  · rw [← List.append_assoc]
    exact h.awaits.append message
  · rcases List.mem_append.mp hm with hm | hm
    · exact h.fit m hm
    · rwa [List.mem_singleton.mp hm]

lemma read (h : Flows sent outgoing (bytes ++ wire) reader arrived awaited)
    (hbuf : reader.buf = none) : Flows sent outgoing wire (reader.read bytes) arrived awaited := by
  have hawaits := h.awaits
  rw [hbuf] at hawaits
  exact ⟨h.sent, h.delivers, hawaits, nofun, h.fit⟩

/-- **One call**: the message that it completes, if any, is the next one. -/
theorem receive (h : Flows sent outgoing wire reader arrived awaited) (hbuf : reader.buf = some buf)
    (hr : reader.receive buf = .ok reader') :
    ∃ arrived' awaited', Flows sent outgoing wire reader' arrived' awaited' := by
  obtain ⟨⟨st', buf', more⟩, hcall, hr⟩ := bind_eq_ok.mp hr
  dsimp only at hr
  split_ifs at hr
  cases hr
  have hawaits := h.awaits
  rw [hbuf] at hawaits
  obtain ⟨f, hf, -⟩ := Multiplexer.call_cases hcall
  obtain ⟨awaited', ⟨new, deliveries, hsplit, hmore, hall⟩, ha, hs, -⟩ :=
    Multiplexer.call_result hf hcall (receiveBody_ok h.fit hawaits hf)
  obtain rfl : more = deliveries := hmore
  refine ⟨arrived ++ new, awaited', ?_, List.rel_append h.delivers hall, ha, hs, fun m hm => ?_⟩
  · rw [h.sent, hsplit]
    simp
  · exact h.fit m (hsplit ▸ List.mem_append_right _ hm)

lemma mono (h : Flows sent outgoing wire reader arrived awaited)
    (hsub : ∀ (k : StreamId) chan, reader.streamMap[k]? = some chan →
      reader'.streamMap[k]? = some chan)
    (hstate : reader'.readState = reader.readState) (hbuf : reader'.buf = reader.buf)
    (hdel : reader'.delivered = reader.delivered) :
    Flows sent outgoing wire reader' arrived awaited where
  sent := h.sent
  delivers := hdel ▸ h.delivers.imp fun _ _ hd => ⟨hsub _ _ hd.1, hd.2⟩
  awaits := hstate ▸ hbuf ▸ h.awaits.mono hsub
  settled := hstate ▸ hbuf ▸ h.settled
  fit := h.fit

end Flows

/-! ### Channels -/

section OnChannel

variable {chan : ℕ} {l l' : List (ℕ × List UInt8)} {delivery : ℕ × List UInt8}

@[simp] lemma onChannel_nil : onChannel chan [] = [] := rfl

@[simp] lemma onChannel_append :
    onChannel chan (l ++ l') = onChannel chan l ++ onChannel chan l' := by
  simp [onChannel]

lemma onChannel_cons : onChannel chan (delivery :: l) =
    if delivery.1 = chan then delivery.2 :: onChannel chan l else onChannel chan l := by
  unfold onChannel
  split_ifs with h <;> simp [h]

end OnChannel

namespace Multiplexer

variable {self : Multiplexer} {chan : ℕ}

lemma take_eq (h : onChannel chan self.waiting ≠ []) : ∃ delivery before after,
    self.waiting = before ++ delivery :: after ∧ delivery.1 = chan ∧ onChannel chan before = [] ∧
      self.take chan = { self with
        waiting := before ++ after
        received := self.received ++ [delivery] } := by
  cases hfind : self.waiting.find? fun delivery => delivery.1 = chan with
  | none =>
    refine absurd (List.map_eq_nil_iff.mpr (List.filter_eq_nil_iff.mpr fun d hd => ?_)) h
    exact List.find?_eq_none.mp hfind d hd
  | some delivery =>
    obtain ⟨hchan, before, after, hsplit, hbefore⟩ := List.find?_eq_some_iff_append.mp hfind
    have hnone : ∀ d ∈ before, ¬ decide (d.1 = chan) = true := fun d hd => by
      simpa using hbefore d hd
    refine ⟨delivery, before, after, hsplit, of_decide_eq_true hchan, ?_, ?_⟩
    · exact List.map_eq_nil_iff.mpr (List.filter_eq_nil_iff.mpr hnone)
    · have herase : (self.waiting.eraseP fun delivery => decide (delivery.1 = chan)) =
          before ++ after := by
        rw [hsplit, List.eraseP_append_right _ hnone]
        simp [of_decide_eq_true hchan]
      simp only [take, hfind, herase]

/-- No channel holds more than it can, and what was sent to a channel is what its task has taken,
and what waits. -/
structure Bounded (mux : Multiplexer) : Prop where
  outgoing : mux.outgoing.length ≤ OUTGOING_CAPACITY
  waiting : ∀ chan, (onChannel chan mux.waiting).length ≤ PROTOCOL_INCOMING_CAPACITY
  queue : ∀ chan, onChannel chan mux.delivered =
    onChannel chan mux.received ++ onChannel chan mux.waiting

namespace Bounded

lemma receive {self' : Multiplexer} {buf : List UInt8} (h : self.Bounded)
    (hw : self.waits buf = false) (hr : self.receive buf = .ok self') : self'.Bounded := by
  obtain ⟨⟨st', buf', sent⟩, hcall, hr⟩ := bind_eq_ok.mp hr
  dsimp only at hr
  split_ifs at hr with hgone
  cases hr
  refine ⟨h.outgoing, fun chan => ?_, fun chan => ?_⟩
  · rw [onChannel_append, List.length_append]
    have hle := h.waiting chan
    match sent, length_sent_le hcall, hcall, hgone with
    | [], _, _, _ => simpa using hle
    | [delivery], _, hcall, hgone =>
      -- a message that was sent without waiting found room
      rw [waits, hcall] at hw
      simp only [List.any_cons, List.any_nil, Bool.or_false, decide_eq_true_eq] at hw hgone
      rw [onChannel_cons, onChannel_nil]
      split_ifs with hchan
      · have hroom : (onChannel chan self.waiting).length < PROTOCOL_INCOMING_CAPACITY := by
          rw [← hchan]
          simpa [hgone, isFull] using hw
        exact Nat.succ_le_of_lt hroom
      · simpa using hle
  · rw [onChannel_append, onChannel_append, h.queue chan, List.append_assoc]

lemma take (h : self.Bounded) (hne : onChannel chan self.waiting ≠ []) :
    (self.take chan).Bounded := by
  obtain ⟨delivery, before, after, hsplit, hchan, hnil, heq⟩ := take_eq hne
  rw [heq]
  refine ⟨h.outgoing, fun chan' => ?_, fun chan' => ?_⟩
  · have hle := h.waiting chan'
    rw [hsplit, onChannel_append, onChannel_cons] at hle
    rw [onChannel_append]
    split_ifs at hle
    · simp only [List.length_append, List.length_cons] at hle ⊢
      omega
    · exact hle
  · have hqueue := h.queue chan'
    rw [hsplit, onChannel_append, onChannel_cons] at hqueue
    rw [onChannel_append, onChannel_append, onChannel_cons, onChannel_nil, hqueue]
    split_ifs with heq'
    · rw [← heq', hchan, hnil]
      simp
    · simp

lemma congr {self' : Multiplexer} (h : self.Bounded)
    (hout : self'.outgoing.length ≤ OUTGOING_CAPACITY) (hwait : self'.waiting = self.waiting)
    (hdel : self'.delivered = self.delivered) (hrec : self'.received = self.received) :
    self'.Bounded := by
  refine ⟨hout, fun chan => ?_, fun chan => ?_⟩
  · rw [hwait]
    exact h.waiting chan
  · rw [hdel, hrec, hwait]
    exact h.queue chan

end Bounded

end Multiplexer

namespace Multiplexer

variable {self : Multiplexer}

/-- No two streams have the same channel. -/
structure Tidy (mux : Multiplexer) : Prop where
  fresh : ∀ (k : StreamId) chan, mux.streamMap[k]? = some chan → chan < mux.channels
  injective : ∀ (k k' : StreamId) chan, mux.streamMap[k]? = some chan →
    mux.streamMap[k']? = some chan → k = k'

lemma Tidy.spawn (h : self.Tidy) (k : StreamId) : (self.spawn k).Tidy := by
  have hget : ∀ k', (self.spawn k).streamMap[k']? =
      if k' = k then some self.channels else self.streamMap[k']? := fun k' => get_insert
  refine ⟨fun k' chan hk' => ?_, fun k₁ k₂ chan h₁ h₂ => ?_⟩
  · rw [hget] at hk'
    split_ifs at hk' with heq
    · cases hk'
      exact Nat.lt_succ_self _
    · exact Nat.lt_succ_of_lt (h.fresh k' chan hk')
  · rw [hget] at h₁ h₂
    split_ifs at h₁ h₂ with heq₁ heq₂ heq₂
    · exact heq₁.trans heq₂.symm
    · cases h₁
      exact absurd (h.fresh k₂ _ h₂) (lt_irrefl _)
    · cases h₂
      exact absurd (h.fresh k₁ _ h₁) (lt_irrefl _)
    · exact h.injective k₁ k₂ chan h₁ h₂

lemma Tidy.withMiniprotocols {count : ℕ} (h : withMiniprotocols count = .ok self) : self.Tidy := by
  have hnew : new.Tidy :=
    ⟨fun k chan hk => by simp [new] at hk, fun k _ chan hk => by simp [new] at hk⟩
  refine foldlM_invariant h hnew fun m m' k _ hm hk => ?_
  split_ifs at hk with hlt
  cases hk
  exact hm.spawn _

lemma Tidy.congr {self' : Multiplexer} (h : self.Tidy) (hmap : self'.streamMap = self.streamMap)
    (hchan : self'.channels = self.channels) : self'.Tidy := by
  refine ⟨fun k chan hk => ?_, fun k k' chan hk hk' => ?_⟩
  · rw [hchan]
    exact h.fresh k chan (hmap ▸ hk)
  · exact h.injective k k' chan (hmap ▸ hk) (hmap ▸ hk')

lemma create_of_contains {k : StreamId} (h : self.streamMap.contains k) :
    self.create k = { self with channels := self.channels + 1 } := by
  simp [create, createStream, tryInsert, containsKey, h]

lemma create_of_not_contains {k : StreamId} (h : ¬ self.streamMap.contains k) :
    self.create k = self.spawn k := by
  simp [create, createStream, tryInsert, containsKey, h, spawn]

lemma Tidy.create (h : self.Tidy) (k : StreamId) : (self.create k).Tidy := by
  by_cases hc : self.streamMap.contains k
  · rw [create_of_contains hc]
    exact ⟨fun k' chan hk' => Nat.lt_succ_of_lt (h.fresh k' chan hk'), h.injective⟩
  · rw [create_of_not_contains hc]
    exact h.spawn k

lemma get_create {k k' : StreamId} {chan : ℕ} (h : self.streamMap[k']? = some chan) :
    (self.create k).streamMap[k']? = some chan := by
  by_cases hc : self.streamMap.contains k
  · rwa [create_of_contains hc]
  · rw [create_of_not_contains hc]
    refine get_insert.trans ((if_neg ?_).trans h)
    rintro rfl
    exact hc (contains_iff.mpr ⟨chan, h⟩)

lemma not_busy (h : (!self.isBusy) = true) : self.buf = none ∧ self.writing = [] := by
  simpa [isBusy] using h

lemma of_write {self' : Multiplexer} (hne : self.outgoing ≠ []) (h : self.write = .ok self') :
    ∃ message outgoing writing, self.outgoing = message :: outgoing ∧
      writeMessage message = .ok writing ∧ self' = { self with outgoing, writing } := by
  unfold write at h
  split at h
  · rename_i hnil
    exact absurd hnil hne
  · rename_i message outgoing heq
    obtain ⟨writing, hwriting, hok⟩ := bind_eq_ok.mp h
    cases hok
    exact ⟨message, outgoing, writing, heq, hwriting, rfl⟩

lemma of_receive {self' : Multiplexer} {buf : List UInt8} (h : self.receive buf = .ok self') :
    self'.streamMap = self.streamMap ∧ self'.channels = self.channels ∧
      self'.outgoing = self.outgoing ∧ self'.writing = self.writing ∧ self'.gone = self.gone := by
  obtain ⟨w, -, h⟩ := bind_eq_ok.mp h
  dsimp only at h
  split_ifs at h
  cases h
  exact ⟨rfl, rfl, rfl, rfl, rfl⟩

end Multiplexer

/-! ### Both directions -/

namespace Link

variable {link link' : Link} {events : List LinkEvent} {p q : Party} {mux : Multiplexer}

lemma side_setSide : (link.setSide q mux).side p = if p = q then mux else link.side p :=
  Function.update_apply ..

@[simp] lemma wire_setSide : (link.setSide q mux).wire = link.wire := rfl

lemma wire_setWire {bytes : List UInt8} :
    (link.setWire q bytes).wire p = if p = q then bytes else link.wire p := Function.update_apply ..

@[simp] lemma side_setWire {bytes : List UInt8} : (link.setWire q bytes).side = link.side := rfl

lemma sentBy_concat {e : LinkEvent} : sentBy p (events ++ [e]) = sentBy p events ++ sentBy p [e] :=
  List.filterMap_append

/-- What holds after the events. -/
structure Sound (link : Link) (events : List LinkEvent) : Prop where
  tidy : ∀ p, (link.side p).Tidy
  bounded : ∀ p, (link.side p).Bounded
  flows : ∀ p, ∃ arrived awaited, Flows (sentBy p events) (link.side p).outgoing
    (link.wire p ++ (link.side p).writing) (link.side p.dual) arrived awaited

lemma Sound.reads (h : link.Sound events) (q : Party) : ∃ arrived awaited,
    Flows (sentBy q.dual events) (link.side q.dual).outgoing
      (link.wire q.dual ++ (link.side q.dual).writing) (link.side q) arrived awaited := by
  simpa using h.flows q.dual

lemma Sound.change {events' : List LinkEvent} (h : link.Sound events)
    (hside : link'.side = Function.update link.side q mux) (htidy : mux.Tidy)
    (hbounded : mux.Bounded)
    (hwriter : ∃ arrived awaited, Flows (sentBy q events') mux.outgoing
      (link'.wire q ++ mux.writing) (link.side q.dual) arrived awaited)
    (hreader : ∃ arrived awaited, Flows (sentBy q.dual events') (link.side q.dual).outgoing
      (link'.wire q.dual ++ (link.side q.dual).writing) mux arrived awaited) :
    link'.Sound events' := by
  have hself : link'.side q = mux := by rw [hside, Function.update_self]
  have hother : link'.side q.dual = link.side q.dual := by
    rw [hside, Function.update_of_ne (Party.dual_ne q)]
  refine ⟨fun p => ?_, fun p => ?_, fun p => ?_⟩
  · rcases p.eq_or_eq_dual q with rfl | rfl
    · rwa [hself]
    · rw [hother]
      exact h.tidy q.dual
  · rcases p.eq_or_eq_dual q with rfl | rfl
    · rwa [hself]
    · rw [hother]
      exact h.bounded q.dual
  · rcases p.eq_or_eq_dual q with rfl | rfl
    · rwa [hself, hother]
    · rwa [Party.dual_dual, hself, hother]

lemma Sound.local {e : LinkEvent} (h : link.Sound events)
    (hsub : ∀ (k : StreamId) chan, (link.side q).streamMap[k]? = some chan →
      mux.streamMap[k]? = some chan)
    (hstate : mux.readState = (link.side q).readState) (hbuf : mux.buf = (link.side q).buf)
    (hdel : mux.delivered = (link.side q).delivered)
    (hout : mux.outgoing = (link.side q).outgoing) (hwriting : mux.writing = (link.side q).writing)
    (htidy : mux.Tidy) (hbounded : mux.Bounded) (he : ∀ p, sentBy p [e] = []) :
    (link.setSide q mux).Sound (events ++ [e]) := by
  obtain ⟨arrived, awaited, hf⟩ := h.flows q
  obtain ⟨arrived', awaited', hf'⟩ := h.reads q
  refine h.change rfl htidy hbounded ⟨arrived, awaited, ?_⟩ ⟨arrived', awaited', ?_⟩
  · rw [sentBy_concat, he, List.append_nil, hout, hwriting]
    exact hf
  · rw [sentBy_concat, he, List.append_nil]
    exact hf'.mono hsub hstate hbuf hdel

lemma Sound.send {message : StreamId × List UInt8} (h : link.Sound events)
    (hroom : (link.side q).outgoing.length < OUTGOING_CAPACITY) :
    (link.setSide q ((link.side q).send message)).Sound (events ++ [.send q message]) := by
  obtain ⟨arrived, awaited, hf⟩ := h.flows q
  obtain ⟨arrived', awaited', hf'⟩ := h.reads q
  have hwriter : Flows _ (_ ++ [message]) _ _ _ _ := hf.send
  have hreader : Flows _ _ _ ((link.side q).send message) _ _ :=
    hf'.mono (fun _ _ hk => hk) rfl rfl rfl
  have hout : ((link.side q).outgoing ++ [message]).length ≤ OUTGOING_CAPACITY := by
    rw [List.length_append]
    exact hroom
  refine h.change rfl ((h.tidy q).congr rfl rfl) ((h.bounded q).congr hout rfl rfl rfl)
    ⟨arrived, awaited, ?_⟩ ⟨arrived', awaited', ?_⟩
  · simpa [sentBy_concat, sentBy, Multiplexer.send] using hwriter
  · simpa [sentBy_concat, sentBy] using hreader

lemma Sound.write (h : link.Sound events) (hfree : (!(link.side q).isBusy) = true)
    (hne : (link.side q).outgoing ≠ []) (hw : (link.side q).write = .ok mux) :
    (link.setSide q mux).Sound (events ++ [.write q]) := by
  obtain ⟨message, outgoing, writing, hcons, hwriting, rfl⟩ := Multiplexer.of_write hne hw
  obtain ⟨arrived, awaited, hf⟩ := h.flows q
  obtain ⟨arrived', awaited', hf'⟩ := h.reads q
  rw [hcons, (Multiplexer.not_busy hfree).2, List.append_nil] at hf
  have hreader : Flows _ _ _ { link.side q with outgoing, writing } _ _ :=
    hf'.mono (fun _ _ hk => hk) rfl rfl rfl
  have hroom := (h.bounded q).outgoing
  rw [hcons] at hroom
  refine h.change rfl ((h.tidy q).congr rfl rfl)
    ((h.bounded q).congr (Nat.le_of_succ_le hroom) rfl rfl rfl)
    ⟨arrived, awaited ++ [message], ?_⟩ ⟨arrived', awaited', ?_⟩
  · simpa [sentBy_concat, sentBy] using hf.write hwriting
  · simpa [sentBy_concat, sentBy] using hreader

lemma Sound.flush (h : link.Sound events) (count n : ℕ) :
    ((link.setSide q ((link.side q).flush n)).setWire q
      (link.wire q ++ (link.side q).writing.take n)).Sound (events ++ [.flush q count]) := by
  obtain ⟨arrived, awaited, hf⟩ := h.flows q
  obtain ⟨arrived', awaited', hf'⟩ := h.reads q
  rw [← List.take_append_drop n (link.side q).writing, ← List.append_assoc] at hf
  have hreader : Flows _ _ _ ((link.side q).flush n) _ _ :=
    hf'.mono (fun _ _ hk => hk) rfl rfl rfl
  refine h.change rfl ((h.tidy q).congr rfl rfl)
    ((h.bounded q).congr (h.bounded q).outgoing rfl rfl rfl) ⟨arrived, awaited, ?_⟩
    ⟨arrived', awaited', ?_⟩
  · simpa [wire_setWire, sentBy_concat, sentBy, Multiplexer.flush] using hf
  · simpa [wire_setWire, sentBy_concat, sentBy] using hreader

lemma Sound.read (h : link.Sound events) (hbuf : (link.side q).buf = none) (count n : ℕ) :
    ((link.setSide q ((link.side q).read ((link.wire q.dual).take n))).setWire q.dual
      ((link.wire q.dual).drop n)).Sound (events ++ [.read q count]) := by
  obtain ⟨arrived, awaited, hf⟩ := h.flows q
  obtain ⟨arrived', awaited', hf'⟩ := h.reads q
  rw [← List.take_append_drop n (link.wire q.dual), List.append_assoc] at hf'
  refine h.change rfl ((h.tidy q).congr rfl rfl)
    ((h.bounded q).congr (h.bounded q).outgoing rfl rfl rfl) ⟨arrived, awaited, ?_⟩
    ⟨arrived', awaited', ?_⟩
  · simpa [wire_setWire, sentBy_concat, sentBy, Multiplexer.read] using hf
  · simpa [wire_setWire, sentBy_concat, sentBy] using hf'.read hbuf

lemma Sound.receive {buf : List UInt8} (h : link.Sound events) (hbuf : (link.side q).buf = some buf)
    (hwaits : (link.side q).waits buf = false) (hr : (link.side q).receive buf = .ok mux) :
    (link.setSide q mux).Sound (events ++ [.receive q]) := by
  obtain ⟨hmap, hchan, hout, hwriting, -⟩ := Multiplexer.of_receive hr
  obtain ⟨arrived, awaited, hf⟩ := h.flows q
  obtain ⟨_, _, hf'⟩ := h.reads q
  obtain ⟨arrived', awaited', hreader⟩ := hf'.receive hbuf hr
  refine h.change rfl ((h.tidy q).congr hmap hchan) ((h.bounded q).receive hwaits hr)
    ⟨arrived, awaited, ?_⟩ ⟨arrived', awaited', ?_⟩
  · simpa [sentBy_concat, sentBy, hout, hwriting] using hf
  · simpa [sentBy_concat, sentBy] using hreader

lemma Sound.take {chan : ℕ} (h : link.Sound events)
    (hne : onChannel chan (link.side q).waiting ≠ []) :
    (link.setSide q ((link.side q).take chan)).Sound (events ++ [.take q chan]) := by
  have hbounded := (h.bounded q).take hne
  obtain ⟨delivery, before, after, -, -, -, heq⟩ := Multiplexer.take_eq hne
  rw [heq] at hbounded ⊢
  exact h.local (fun _ _ hk => hk) rfl rfl rfl rfl rfl ((h.tidy q).congr rfl rfl) hbounded
    fun _ => rfl

/-- **Every event** keeps the messages of both directions in order. -/
theorem Sound.next {e : LinkEvent} (h : link.Sound events) (hen : link.enabled e = true)
    (he : link.next e = .ok link') : link'.Sound (events ++ [e]) := by
  cases e with
  | send q message =>
    cases he
    exact h.send (of_decide_eq_true hen)
  | write q =>
    obtain ⟨mux, hw, heq⟩ := bind_eq_ok.mp he
    cases heq
    obtain ⟨hfree, hout⟩ := Bool.and_eq_true_iff.mp hen
    exact h.write hfree (by simpa using hout) hw
  | flush q count =>
    cases he
    exact h.flush count _
  | read q count =>
    cases he
    exact h.read (Multiplexer.not_busy hen).1 count _
  | receive q =>
    cases hbuf : (link.side q).buf with
    | none => simp [Link.enabled, hbuf] at hen
    | some buf =>
      simp only [Link.next, hbuf] at he
      obtain ⟨mux, hr, heq⟩ := bind_eq_ok.mp he
      cases heq
      exact h.receive hbuf (by simpa [Link.enabled, hbuf] using hen) hr
  | take q chan =>
    cases he
    exact h.take (by simpa using (Bool.and_eq_true_iff.mp hen).2)
  | drop q chan =>
    cases he
    exact h.local (fun _ _ hk => hk) rfl rfl rfl rfl rfl ((h.tidy q).congr rfl rfl)
      ((h.bounded q).congr (h.bounded q).outgoing rfl rfl rfl) fun _ => rfl
  | create q k =>
    cases he
    exact h.local (fun _ _ hk => Multiplexer.get_create hk) rfl rfl rfl rfl rfl
      ((h.tidy q).create k) ((h.bounded q).congr (h.bounded q).outgoing rfl rfl rfl) fun _ => rfl

lemma sound_start {capacity count : ℕ} (h : start capacity count = .ok link) : link.Sound [] := by
  obtain ⟨mux, hmux, heq⟩ := bind_eq_ok.mp h
  cases heq
  have hempty : mux =
      { Multiplexer.new with streamMap := mux.streamMap, channels := mux.channels } := by
    refine foldlM_invariant hmux (I := fun m => m = { Multiplexer.new with
      streamMap := m.streamMap, channels := m.channels }) rfl fun m m' k _ hm hk => ?_
    split_ifs at hk with hlt
    cases hk
    rw [hm]
    rfl
  refine ⟨fun _ => .withMiniprotocols hmux, fun _ => ?_, fun p => ⟨[], [], ?_⟩⟩
  · rw [hempty]
    exact ⟨Nat.zero_le _, fun _ => Nat.zero_le _, fun _ => rfl⟩
  · rw [hempty]
    exact ⟨rfl, .nil, awaits_new rfl, fun _ => trivial, by simp⟩

/-- **Every run.** -/
theorem Sound.exec {more : List LinkEvent} (h : link.Sound events)
    (hr : link.exec more = .ok link') : link'.Sound (events ++ more) := by
  induction more generalizing link events with
  | nil =>
    cases hr
    rwa [List.append_nil]
  | cons e more ih =>
    obtain ⟨next, he, hr⟩ := bind_eq_ok.mp hr
    dsimp only at he
    split_ifs at he with hen
    rw [List.append_cons]
    exact ih (h.next hen he) hr

end Link

/-! ### What arrives on a stream -/

/-- The messages for one stream. -/
def onStream (k : StreamId) (messages : List (StreamId × List UInt8)) : List (List UInt8) :=
  (messages.filter fun message => message.1 = k).map Prod.snd

namespace Multiplexer

/-- What the task of a stream has taken. -/
def taken (self : Multiplexer) (k : StreamId) : List (List UInt8) :=
  match self.streamMap[k]? with
  | some chan => onChannel chan self.received
  | none => []

/-- What waits for the task of a stream. -/
def queued (self : Multiplexer) (k : StreamId) : List (List UInt8) :=
  match self.streamMap[k]? with
  | some chan => onChannel chan self.waiting
  | none => []

/-- The tasks of all streams are still there. -/
def Listening (self : Multiplexer) : Prop :=
  ∀ (k : StreamId) chan, self.streamMap[k]? = some chan → chan ∉ self.gone

/-- The bytes that are not in the socket yet. -/
def unsent (self : Multiplexer) : ℕ :=
  self.writing.length + (self.outgoing.map frame).flatten.length

end Multiplexer

section Inbox

variable {Sender : Type} {streamMap : BTreeMap StreamId Sender} {mux : Multiplexer} {k : StreamId}
  {chan : ℕ} {arrived : List (StreamId × List UInt8)}

lemma exists_stream {deliveries : List (Sender × List UInt8)} {delivery : Sender × List UInt8}
    (h : List.Forall₂ (Delivers streamMap) deliveries arrived) (hmem : delivery ∈ deliveries) :
    ∃ k : StreamId, streamMap[k]? = some delivery.1 := by
  induction h with
  | nil => cases hmem
  | @cons _ message _ _ hd _ ih =>
    rcases List.mem_cons.mp hmem with rfl | hmem
    · exact ⟨message.1, hd.1⟩
    · exact ih hmem

lemma onChannel_deliveries {deliveries : List (ℕ × List UInt8)} (ht : mux.Tidy)
    (hk : mux.streamMap[k]? = some chan)
    (h : List.Forall₂ (Delivers mux.streamMap) deliveries arrived) :
    onChannel chan deliveries = onStream k arrived := by
  unfold onChannel onStream
  induction h with
  | nil => rfl
  | @cons delivery message _ _ hd _ ih =>
    have hiff : delivery.1 = chan ↔ message.1 = k := by
      constructor
      · rintro rfl
        exact ht.injective _ _ _ hd.1 hk
      · rintro rfl
        exact Option.some.inj (hd.1.symm.trans hk)
    by_cases hm : message.1 = k
    · simp [hm, hiff.mpr hm, ih, hd.2]
    · simp [hm, mt hiff.mp hm, ih]

lemma taken_append_queued (ht : mux.Tidy) (hb : mux.Bounded) (hk : mux.streamMap.contains k)
    (h : List.Forall₂ (Delivers mux.streamMap) mux.delivered arrived) :
    onStream k arrived = mux.taken k ++ mux.queued k ∧
      (mux.queued k).length ≤ PROTOCOL_INCOMING_CAPACITY := by
  obtain ⟨chan, hchan⟩ := contains_iff.mp hk
  rw [Multiplexer.taken, Multiplexer.queued, hchan]
  exact ⟨(onChannel_deliveries ht hchan h).symm.trans (hb.queue chan), hb.waiting chan⟩

end Inbox

/-! ### Faults -/

/-- The events that move the messages of one direction on. -/
def LinkEvent.Carries (p : Party) : LinkEvent → Prop
  | .write party | .flush party _ => party = p
  | .read party _ | .receive party | .take party _ => party = p.dual
  | .send _ _ | .drop _ _ | .create _ _ => False

lemma Flows.receive_isOk {sent outgoing arrived awaited : List (StreamId × List UInt8)}
    {wire buf : List UInt8} {reader : Multiplexer}
    (h : Flows sent outgoing wire reader arrived awaited) (hbuf : reader.buf = some buf)
    (hall : ∀ message ∈ awaited, Sendable reader.streamMap message)
    (hlisten : reader.Listening) : ∃ readState buf' more,
      reader.receive buf = .ok { reader with
        readState
        buf := buf'
        waiting := reader.waiting ++ more
        delivered := reader.delivered ++ more } ∧
      Multiplexer.callsLeft readState buf' < Multiplexer.callsLeft reader.readState (some buf) ∧
      more.length ≤ 1 := by
  have hawaits := h.awaits
  rw [hbuf] at hawaits
  obtain ⟨f, hf, hresult⟩ := call_spec [] hall hawaits
  obtain ⟨⟨readState, buf', more⟩, hcall⟩ : ∃ w, reader.call buf = .ok w := by
    cases f with
    | next w => exact ⟨_, bind_eq_ok.mpr ⟨_, hf, rfl⟩⟩
    | done w => exact ⟨_, bind_eq_ok.mpr ⟨_, hf, rfl⟩⟩
  obtain ⟨awaited', ⟨new, deliveries, -, hmore, hdelivers⟩, -, -, hlt⟩ :=
    Multiplexer.call_result hf hcall hresult
  obtain rfl : more = deliveries := hmore
  refine ⟨readState, buf', more, bind_eq_ok.mpr ⟨_, hcall, if_neg fun hgone => ?_⟩, hlt,
    Multiplexer.length_sent_le hcall⟩
  obtain ⟨delivery, hmem, hgone⟩ := List.any_eq_true.mp hgone
  obtain ⟨k, hk⟩ := exists_stream hdelivers hmem
  exact hlisten k _ hk (of_decide_eq_true hgone)

namespace Link

variable {link link' : Link} {events : List LinkEvent} {p q : Party} {mux : Multiplexer}

lemma next_receive {buf : List UInt8} (hbuf : (link.side q).buf = some buf)
    (hr : (link.side q).receive buf = .ok mux) :
    link.next (.receive q) = .ok (link.setSide q mux) := by
  simp only [Link.next, hbuf]
  exact bind_eq_ok.mpr ⟨mux, hr, rfl⟩

lemma write_isOk {message : StreamId × List UInt8} {outgoing : List (StreamId × List UInt8)}
    (hout : (link.side p).outgoing = message :: outgoing)
    (hmsg : message.2.length ≤ MAX_MESSAGE_LENGTH) :
    link.next (.write p) =
      .ok (link.setSide p { link.side p with outgoing, writing := frame message }) := by
  have hfit : message.2.length < 2 ^ 32 := lt_of_le_of_lt hmsg (by decide)
  have hwrite : (link.side p).write =
      .ok { link.side p with outgoing, writing := frame message } := by
    rw [Multiplexer.write, hout]
    exact bind_eq_ok.mpr ⟨frame message, if_pos hfit, rfl⟩
  exact bind_eq_ok.mpr ⟨_, hwrite, rfl⟩

/-- **Streams are queues.** In any run of the two multiplexers, whatever is sent, written, read,
taken, dropped and created in between: the messages that have reached the task of a stream, and
then the few that wait for it, are the first of those that the other party has sent on it, in
order. Once all that was written is read, they are all of them. And what moves the messages on
faults only where a message is too large, for a stream that the reader has not got, or for a task
that is gone. -/
theorem streams_are_queues (capacity count : ℕ) (link₀ link : Link) (events : List LinkEvent)
    (hstart : start capacity count = .ok link₀) (hrun : link₀.exec events = .ok link) (p : Party) :
    ∃ arrived pending, sentBy p events = arrived ++ pending ∧
      List.Forall₂ (Delivers (link.side p.dual).streamMap) (link.side p.dual).delivered arrived ∧
      (∀ k, (link.side p.dual).streamMap.contains k →
        onStream k arrived = (link.side p.dual).taken k ++ (link.side p.dual).queued k ∧
        ((link.side p.dual).queued k).length ≤ PROTOCOL_INCOMING_CAPACITY) ∧
      (link.side p).outgoing.length ≤ OUTGOING_CAPACITY ∧
      ((link.side p).outgoing = [] → (link.side p).writing = [] → link.wire p = [] →
        (link.side p.dual).buf = none → pending = []) ∧
      ((∀ message ∈ pending, Sendable (link.side p.dual).streamMap message) →
        (link.side p.dual).Listening →
        ∀ e : LinkEvent, e.Carries p → link.enabled e → ∃ link', link.next e = .ok link') := by
  have hsound : link.Sound events := by simpa using (sound_start hstart).exec hrun
  obtain ⟨arrived, awaited, hf⟩ := hsound.flows p
  refine ⟨arrived, awaited ++ (link.side p).outgoing, hf.sent, hf.delivers,
    fun k hk => taken_append_queued (hsound.tidy p.dual) (hsound.bounded p.dual) hk hf.delivers,
    (hsound.bounded p).outgoing, fun hout hwriting hwire hbuf => ?_,
    fun hall hlisten e he hen => ?_⟩
  · have hawaits := hf.awaits
    rw [hwire, hwriting, hbuf] at hawaits
    rw [(hawaits.done (hf.settled hbuf)).1, hout]
    rfl
  · cases e with
    | send | drop | create => cases he
    | flush | read | take => exact ⟨_, rfl⟩
    | write q =>
      obtain rfl : q = p := he
      cases hout : (link.side q).outgoing with
      | nil => simp [enabled, hout] at hen
      | cons message outgoing =>
        have hmsg : Sendable _ message := hall message (by simp [hout])
        exact ⟨_, write_isOk hout hmsg.length⟩
    | receive q =>
      obtain rfl : q = p.dual := he
      cases hbuf : (link.side p.dual).buf with
      | none => simp [enabled, hbuf] at hen
      | some buf =>
        obtain ⟨_, _, _, hr, -⟩ := hf.receive_isOk hbuf
          (fun m hm => hall m (List.mem_append_left _ hm)) hlisten
        exact ⟨_, next_receive hbuf hr⟩

/-- A client sends on two streams, and the server gets the second one before its message has been
read. The socket holds 16 bytes. The first read stops within a body, and the third within a
header. -/
def twoStreams (k k' : StreamId) : List LinkEvent :=
  [.send .client (k, [7, 8, 9]), .send .client (k', [5]), .write .client, .flush .client 20,
    .read .server 10, .receive .server, .receive .server, .write .client, .flush .client 20,
    .read .server 1, .receive .server, .read .server 3, .receive .server, .create .server k',
    .take .server 0, .send .server (k, [2]), .send .client (k, [6])]

lemma twoStreams_run : (do
    let link₀ ← start 16 3
    let link ← link₀.exec (twoStreams 0 4)
    let server := link.side .server
    let client := link.side .client
    pure (server.delivered, [server.gone, client.gone],
      [server.streamMap.contains 0, server.streamMap.contains 4, client.streamMap.contains 0],
      [link.capacity, client.unsent + (link.wire .client).length])) =
      .ok ([(0, [7, 8, 9])], [[], []], [true, true, true], [16, 15]) := by
  decide +kernel

lemma exists_twoStreams : ∃ link₀ link, start 16 3 = .ok link₀ ∧
    link₀.exec (twoStreams 0 4) = .ok link ∧ (link.side .server).delivered = [(0, [7, 8, 9])] ∧
    (link.capacity = 16 ∧ (link.side .client).unsent + (link.wire .client).length = 15) ∧
    (∀ p, (link.side p).Listening) ∧
    ∀ p, ∀ message ∈ sentBy p (twoStreams 0 4),
      Sendable (link.side p.dual).streamMap message := by
  obtain ⟨link₀, hstart, hrun⟩ := bind_eq_ok.mp twoStreams_run
  obtain ⟨link, hrun, heq⟩ := bind_eq_ok.mp hrun
  simp only [pure_eq_ok, Except.ok.injEq, Prod.mk.injEq, List.cons.injEq, and_true] at heq
  obtain ⟨hdelivered, ⟨hserver, hclient⟩, ⟨hzero, hfour, hback⟩, hroom⟩ := heq
  refine ⟨link₀, link, hstart, hrun, hdelivered, hroom, fun p => ?_, fun p message hmem => ?_⟩
  · intro k chan _
    cases p <;> simp [hserver, hclient]
  · have hsent : sentBy .client (twoStreams 0 4) = [(0, [7, 8, 9]), (4, [5]), (0, [6])] ∧
        sentBy .server (twoStreams 0 4) = [(0, [2])] := ⟨rfl, rfl⟩
    cases p with
    | client =>
      simp only [hsent.1, List.mem_cons, List.not_mem_nil, or_false] at hmem
      rcases hmem with rfl | rfl | rfl
      · exact ⟨hzero, by decide⟩
      · exact ⟨hfour, by decide⟩
      · exact ⟨hzero, by decide⟩
    | server =>
      simp only [hsent.2, List.mem_cons, List.not_mem_nil, or_false] at hmem
      subst hmem
      exact ⟨hback, by decide⟩

/-- The task of the first stream has taken its message, and whatever moves the others on is no
fault. -/
theorem streams_are_queues_two : ∃ link₀ link, start 16 3 = .ok link₀ ∧
    link₀.exec (twoStreams 0 4) = .ok link ∧
    (link.side .server).taken 0 ++ (link.side .server).queued 0 = [[7, 8, 9]] ∧
    ∀ e : LinkEvent, e.Carries .client → link.enabled e → ∃ link', link.next e = .ok link' := by
  obtain ⟨link₀, link, hstart, hrun, hdelivered, -, hlisten, hall⟩ := exists_twoStreams
  obtain ⟨arrived, pending, hsent, hdelivers, hqueue, -, -, hnofault⟩ :=
    streams_are_queues 16 3 link₀ link (twoStreams 0 4) hstart hrun .client
  have hdual : Party.client.dual = .server := rfl
  have harrived : arrived = [(0, [7, 8, 9])] := by
    rw [hdual, hdelivered] at hdelivers
    cases hdelivers with
    | cons hfirst hrest =>
      cases hrest
      rw [← (List.cons.inj hsent).1]
  refine ⟨link₀, link, hstart, hrun, ?_, hnofault (fun message hmem => hall .client message ?_)
    (hlisten .server)⟩
  · have hzero := (hqueue 0 (hall .client (0, [6]) (by decide)).registered).1
    rw [harrived] at hzero
    exact hzero.symm
  · rw [hsent]
    exact List.mem_append_right _ hmem

lemma stuck (hbusy : ∀ p, (link.side p).writing ≠ [])
    (hfull : ∀ p, link.capacity ≤ (link.wire p).length) (n : ℕ) :
    link.enabled (.write p) = false ∧ link.enabled (.read p n) = false ∧
      ∃ link', link.next (.flush p n) = .ok link' ∧ link'.wire p = link.wire p := by
  have hwriting : (link.side p).isBusy = true := by simp [Multiplexer.isBusy, hbusy p]
  refine ⟨by simp [enabled, hwriting], by simp [enabled, hwriting], _, rfl, ?_⟩
  rw [wire_setWire, if_pos rfl, Nat.sub_eq_zero_of_le (hfull p)]
  simp

end Link

/-! ### All that is sent arrives -/

namespace Multiplexer

variable {self : Multiplexer}

/-- What a side has still to do: a byte counts more the further it is from the channel of its
task. -/
def load (self : Multiplexer) : ℕ :=
  11 * (self.outgoing.map frame).flatten.length + 10 * self.writing.length +
    2 * callsLeft self.readState self.buf + self.waiting.length

lemma callsLeft_le (st : MultiplexerReadState ℕ) (buf : List UInt8) :
    callsLeft st (some buf) ≤ 2 * buf.length + 2 := by
  cases st <;> simp only [callsLeft, callMeasure] <;> omega

lemma eq_nil_of_flatten {messages : List (StreamId × List UInt8)}
    (h : (messages.map frame).flatten.length = 0) : messages = [] := by
  cases messages with
  | nil => rfl
  | cons message messages =>
    rw [List.map_cons, List.flatten_cons, List.length_append, length_frame] at h
    simp [HEADER_LENGTH] at h

end Multiplexer

namespace Link

variable {link link' : Link} {events : List LinkEvent} {p q : Party} {mux : Multiplexer}

/-- All that is left to do. -/
def todo (link : Link) : ℕ :=
  (link.side .client).load + (link.side .server).load +
    9 * ((link.wire .client).length + (link.wire .server).length)

lemma todo_eq (p : Party) : link.todo = (link.side p).load + (link.side p.dual).load +
    9 * ((link.wire p).length + (link.wire p.dual).length) := by
  cases p with
  | client => rfl
  | server =>
    simp only [todo, Party.dual]
    omega

/-- A step that moves messages on. -/
structure Advances (link link' : Link) : Prop where
  capacity : link'.capacity = link.capacity
  streamMap : ∀ p, (link'.side p).streamMap = (link.side p).streamMap
  gone : ∀ p, (link'.side p).gone = (link.side p).gone
  unsent : ∀ p, (link'.side p).unsent + (link'.wire p).length ≤
    (link.side p).unsent + (link.wire p).length
  todo : link'.todo < link.todo

lemma Advances.of_side (hmap : mux.streamMap = (link.side q).streamMap)
    (hgone : mux.gone = (link.side q).gone) (hunsent : mux.unsent = (link.side q).unsent)
    (hload : mux.load < (link.side q).load) : link.Advances (link.setSide q mux) := by
  refine ⟨rfl, fun p => ?_, fun p => ?_, fun p => ?_, ?_⟩
  · rw [side_setSide]
    split_ifs with h
    · rw [h, hmap]
    · rfl
  · rw [side_setSide]
    split_ifs with h
    · rw [h, hgone]
    · rfl
  · rw [side_setSide, wire_setSide]
    split_ifs with h
    · rw [h, hunsent]
    · exact le_rfl
  · rw [todo_eq q, todo_eq q, side_setSide, side_setSide, if_pos rfl, if_neg (Party.dual_ne q),
      wire_setSide]
    omega

lemma Advances.of_wire {bytes : List UInt8} {r : Party}
    (hmap : mux.streamMap = (link.side q).streamMap) (hgone : mux.gone = (link.side q).gone)
    (hunsent : mux.unsent ≤ (link.side q).unsent)
    (hbytes : bytes.length ≤ (link.wire r).length ∨
      r = q ∧ mux.unsent + bytes.length = (link.side q).unsent + (link.wire q).length)
    (hload : mux.load + 9 * bytes.length < (link.side q).load + 9 * (link.wire r).length) :
    link.Advances ((link.setSide q mux).setWire r bytes) := by
  refine ⟨rfl, fun p => ?_, fun p => ?_, fun p => ?_, ?_⟩
  · rw [side_setWire, side_setSide]
    split_ifs with h
    · rw [h, hmap]
    · rfl
  · rw [side_setWire, side_setSide]
    split_ifs with h
    · rw [h, hgone]
    · rfl
  · rw [side_setWire, side_setSide, wire_setWire, wire_setSide]
    rcases hbytes with hbytes | ⟨rfl, hbytes⟩
    · split_ifs with h h' h' <;> subst_vars <;> omega
    · split_ifs with h
      · rw [h, hbytes]
      · exact le_rfl
  · rw [todo_eq q, todo_eq q, side_setWire, side_setSide, side_setSide, if_pos rfl,
      if_neg (Party.dual_ne q), wire_setWire, wire_setWire, wire_setSide]
    rcases r.eq_or_eq_dual q with rfl | rfl
    · rw [if_pos rfl, if_neg (Party.dual_ne r)]
      omega
    · rw [if_neg (Party.ne_dual q), if_pos rfl]
      omega

/-- One of the events that move messages on. -/
def CanAdvance (link : Link) : Prop :=
  ∃ (e : LinkEvent) (link' : Link), (∃ p, e.Carries p) ∧ link.enabled e = true ∧
    link.next e = .ok link' ∧ link.Advances link'

lemma Sound.advances_take (h : link.Sound events) (hlisten : (link.side q).Listening)
    (hne : (link.side q).waiting ≠ []) : link.CanAdvance := by
  obtain ⟨delivery, waiting, hwaiting⟩ := List.exists_cons_of_ne_nil hne
  have hqueued : onChannel delivery.1 (link.side q).waiting ≠ [] := by
    rw [hwaiting, onChannel_cons, if_pos rfl]
    exact List.cons_ne_nil _ _
  -- what waits for a task was sent to a stream
  have hsent : onChannel delivery.1 (link.side q).delivered ≠ [] := by
    rw [(h.bounded q).queue]
    exact List.append_ne_nil_of_right_ne_nil _ hqueued
  have hmem : ∃ d ∈ (link.side q).delivered, d.1 = delivery.1 := by
    obtain ⟨body, hbody⟩ := List.exists_mem_of_ne_nil _ hsent
    obtain ⟨d, hd, -⟩ := List.mem_map.mp hbody
    exact ⟨d, (List.mem_filter.mp hd).1, of_decide_eq_true (List.mem_filter.mp hd).2⟩
  obtain ⟨d, hd, heq⟩ := hmem
  obtain ⟨arrived, awaited, hf⟩ := h.reads q
  obtain ⟨k, hk⟩ := exists_stream hf.delivers hd
  have halive : delivery.1 ∉ (link.side q).gone := hlisten k _ (heq ▸ hk)
  obtain ⟨taken, before, after, hsplit, -, -, htake⟩ := Multiplexer.take_eq hqueued
  refine ⟨.take q delivery.1, _, ⟨q.dual, (Party.dual_dual q).symm⟩, ?_, rfl, ?_⟩
  · simpa [enabled, halive] using hqueued
  · rw [htake]
    refine .of_side rfl rfl rfl ?_
    simp only [Multiplexer.load, hsplit, List.length_append, List.length_cons]
    omega

lemma Sound.advances_receive {buf : List UInt8} (h : link.Sound events)
    (hall : ∀ message ∈ sentBy q.dual events, Sendable (link.side q).streamMap message)
    (hlisten : (link.side q).Listening) (hbuf : (link.side q).buf = some buf)
    (hwaiting : (link.side q).waiting = []) : link.CanAdvance := by
  obtain ⟨arrived, awaited, hf⟩ := h.reads q
  obtain ⟨readState, buf', more, hr, hlt, hone⟩ := hf.receive_isOk hbuf (fun m hm => hall m (by
    rw [hf.sent]
    exact List.mem_append_right _ (List.mem_append_left _ hm))) hlisten
  have hfree : (link.side q).waits buf = false := by
    have hroom : ∀ chan, (link.side q).isFull chan = false := by
      simp [Multiplexer.isFull, hwaiting, PROTOCOL_INCOMING_CAPACITY]
    unfold Multiplexer.waits
    split <;> simp [hroom]
  refine ⟨.receive q, _, ⟨q.dual, (Party.dual_dual q).symm⟩, ?_, next_receive hbuf hr,
    .of_side rfl rfl rfl ?_⟩
  · simp [enabled, hbuf, hfree]
  · simp only [Multiplexer.load, hbuf, List.length_append]
    omega

lemma advances_flush (hwriting : (link.side q).writing ≠ [])
    (hroom : (link.wire q).length < link.capacity) : link.CanAdvance := by
  have hpos := List.length_pos_of_ne_nil hwriting
  refine ⟨.flush q link.capacity, _, ⟨q, rfl⟩, rfl, rfl, .of_wire rfl rfl ?_ (.inr ⟨rfl, ?_⟩) ?_⟩
  · simp only [Multiplexer.unsent, Multiplexer.flush, List.length_drop]
    omega
  · simp only [Multiplexer.unsent, Multiplexer.flush, List.length_drop, List.length_append,
      List.length_take]
    omega
  · simp only [Multiplexer.load, Multiplexer.flush, List.length_drop, List.length_append,
      List.length_take]
    omega

lemma advances_read (hfree : (!(link.side q).isBusy) = true) (hwire : link.wire q.dual ≠ []) :
    link.CanAdvance := by
  have hpos := List.length_pos_of_ne_nil hwire
  obtain ⟨hbuf, hwriting⟩ := Multiplexer.not_busy hfree
  refine ⟨.read q BUFFER_SIZE, _, ⟨q.dual, (Party.dual_dual q).symm⟩, hfree, rfl,
    .of_wire rfl rfl le_rfl (.inl ?_) ?_⟩
  · simp
  · have hcalls := Multiplexer.callsLeft_le (link.side q).readState
      ((link.wire q.dual).take (min BUFFER_SIZE BUFFER_SIZE))
    have hsize : 0 < BUFFER_SIZE := by decide
    simp only [Multiplexer.load, Multiplexer.read, hbuf, Multiplexer.callsLeft,
      List.length_drop, List.length_take] at hcalls ⊢
    omega

lemma Sound.advances_write (h : link.Sound events)
    (hall : ∀ message ∈ sentBy q events, Sendable (link.side q.dual).streamMap message)
    (hfree : (!(link.side q).isBusy) = true) (hout : (link.side q).outgoing ≠ []) :
    link.CanAdvance := by
  obtain ⟨message, outgoing, hcons⟩ := List.exists_cons_of_ne_nil hout
  obtain ⟨hbuf, hwriting⟩ := Multiplexer.not_busy hfree
  obtain ⟨arrived, awaited, hf⟩ := h.flows q
  have hmsg : Sendable _ message := hall message (by
    rw [hf.sent, hcons]
    simp)
  refine ⟨.write q, _, ⟨q, rfl⟩, by simp [enabled, hfree, hcons], write_isOk hcons hmsg.length,
    .of_side rfl rfl ?_ ?_⟩
  · simp [Multiplexer.unsent, hcons, hwriting]
  · have hframe := length_frame message
    have hheader : 0 < HEADER_LENGTH := by decide
    simp only [Multiplexer.load, hcons, hwriting, List.map_cons, List.flatten_cons,
      List.length_append, List.length_nil]
    omega

/-- **Progress.** Something can be moved on, if anything is left and one side can write. -/
theorem Sound.canAdvance (h : link.Sound events) (htodo : 0 < link.todo)
    (hall : ∀ p, ∀ message ∈ sentBy p events, Sendable (link.side p.dual).streamMap message)
    (hlisten : ∀ p, (link.side p).Listening) (hcapacity : 0 < link.capacity)
    (hroom : (link.side p).unsent + (link.wire p).length ≤ link.capacity) : link.CanAdvance := by
  by_cases hwaiting : ∃ q, (link.side q).waiting ≠ []
  · obtain ⟨q, hq⟩ := hwaiting
    exact h.advances_take (hlisten q) hq
  by_cases hbuf : ∃ q buf, (link.side q).buf = some buf
  · obtain ⟨q, buf, hq⟩ := hbuf
    have hread := hall q.dual
    rw [Party.dual_dual] at hread
    exact h.advances_receive hread (hlisten q) hq (not_not.mp fun hne => hwaiting ⟨q, hne⟩)
  have hfree : ∀ q, (link.side q).writing = [] → (!(link.side q).isBusy) = true := by
    intro q hq
    have hnone : (link.side q).buf = none :=
      Option.eq_none_iff_forall_ne_some.mpr fun buf hsome => hbuf ⟨q, buf, hsome⟩
    simp [Multiplexer.isBusy, hnone, hq]
  -- the side that has room writes, and then it reads, so that the other one has room, too
  by_cases hp : (link.side p).writing = []
  swap
  · have hpos := List.length_pos_of_ne_nil hp
    exact advances_flush hp (by simp only [Multiplexer.unsent] at hroom; omega)
  by_cases hwire : link.wire p.dual = []
  swap
  · exact advances_read (hfree p hp) hwire
  by_cases hd : (link.side p.dual).writing = []
  swap
  · exact advances_flush hd (by rw [hwire]; exact hcapacity)
  by_cases hwire' : link.wire p = []
  swap
  · exact advances_read (hfree p.dual hd) (by rwa [Party.dual_dual])
  by_cases hout : ∃ q, (link.side q).outgoing ≠ []
  · obtain ⟨q, hq⟩ := hout
    rcases q.eq_or_eq_dual p with rfl | rfl
    · exact h.advances_write (hall q) (hfree q hp) hq
    · exact h.advances_write (hall p.dual) (hfree p.dual hd) hq
  · have hload : ∀ q, (link.side q).writing = [] → (link.side q).load = 0 := by
      intro q hq
      have hnone : (link.side q).buf = none :=
        Option.eq_none_iff_forall_ne_some.mpr fun buf hsome => hbuf ⟨q, buf, hsome⟩
      have hnil : (link.side q).outgoing = [] := not_not.mp fun hne => hout ⟨q, hne⟩
      have hw : (link.side q).waiting = [] := not_not.mp fun hne => hwaiting ⟨q, hne⟩
      simp [Multiplexer.load, hnone, hnil, hw, hq, Multiplexer.callsLeft]
    rw [todo_eq p, hload p hp, hload p.dual hd, hwire, hwire'] at htodo
    simp at htodo

lemma sentBy_carries {e : LinkEvent} (he : e.Carries q) : sentBy p [e] = [] := by
  cases e with
  | send => cases he
  | _ => rfl

lemma Sound.taken_of_done (h : link.Sound events) (htodo : link.todo = 0) (p : Party) {k : StreamId}
    (hk : (link.side p.dual).streamMap.contains k) :
    (link.side p.dual).taken k = onStream k (sentBy p events) := by
  obtain ⟨arrived, awaited, hf⟩ := h.flows p
  rw [todo_eq p] at htodo
  simp only [Multiplexer.load] at htodo
  have hout : (link.side p).outgoing = [] := Multiplexer.eq_nil_of_flatten (by omega)
  have hwriting : (link.side p).writing = [] := List.length_eq_zero_iff.mp (by omega)
  have hwire : link.wire p = [] := List.length_eq_zero_iff.mp (by omega)
  have hwaiting : (link.side p.dual).waiting = [] := List.length_eq_zero_iff.mp (by omega)
  have hbuf : (link.side p.dual).buf = none := by
    cases hbuf : (link.side p.dual).buf with
    | none => rfl
    | some buf =>
      rw [hbuf] at htodo
      simp only [Multiplexer.callsLeft] at htodo
      omega
  have hawaits := hf.awaits
  rw [hwire, hwriting, hbuf] at hawaits
  have hqueued : (link.side p.dual).queued k = [] := by
    unfold Multiplexer.queued
    split <;> simp [hwaiting]
  have hqueue := (taken_append_queued (h.tidy p.dual) (h.bounded p.dual) hk hf.delivers).1
  rw [hqueued, List.append_nil] at hqueue
  rw [hf.sent, (hawaits.done (hf.settled hbuf)).1, hout, List.append_nil, List.append_nil, hqueue]

/-- **All that is sent arrives**: from every state of a run, if each side has the streams of the
messages that were sent to it and their tasks, none is too large, and one of the sides can write
all that it has without waiting for the other one, then some events that move messages on bring
all of them to their tasks. -/
theorem streams_deliver (capacity count : ℕ) (link₀ link : Link) (events : List LinkEvent)
    (hstart : start capacity count = .ok link₀) (hrun : link₀.exec events = .ok link)
    (hall : ∀ p, ∀ message ∈ sentBy p events, Sendable (link.side p.dual).streamMap message)
    (hlisten : ∀ p, (link.side p).Listening) (hcapacity : 0 < link.capacity) (p : Party)
    (hroom : (link.side p).unsent + (link.wire p).length ≤ link.capacity) :
    ∃ more link', (∀ e ∈ more, ∃ q, LinkEvent.Carries q e) ∧ link.exec more = .ok link' ∧
      ∀ q k, (link.side q.dual).streamMap.contains k →
        (link'.side q.dual).taken k = onStream k (sentBy q events) := by
  have hsound : link.Sound events := by simpa using (sound_start hstart).exec hrun
  clear hrun
  induction hn : link.todo using Nat.strong_induction_on generalizing link events with
  | _ n ih =>
    subst hn
    rcases Nat.eq_zero_or_pos link.todo with hzero | hpos
    · exact ⟨[], link, by simp, rfl, fun q k hk => hsound.taken_of_done hzero q hk⟩
    · obtain ⟨e, next, ⟨r, he⟩, hen, hnext, hadv⟩ :=
        hsound.canAdvance hpos hall hlisten hcapacity hroom
      have hsent : ∀ q, sentBy q (events ++ [e]) = sentBy q events := fun q => by
        rw [sentBy_concat, sentBy_carries he, List.append_nil]
      have hlisten' : ∀ q, (next.side q).Listening := fun q k chan hk => by
        rw [hadv.gone]
        rw [hadv.streamMap] at hk
        exact hlisten q k chan hk
      obtain ⟨more, link', hmore, hrest, htaken⟩ := ih _ hadv.todo next (events ++ [e])
        (fun q => by rw [hsent, hadv.streamMap]; exact hall q) hlisten'
        (by rwa [hadv.capacity]) (by rw [hadv.capacity]; exact (hadv.unsent p).trans hroom)
        (hsound.next hen hnext) rfl
      refine ⟨e :: more, link', ?_, bind_eq_ok.mpr ⟨next, (if_pos hen).trans hnext, hrest⟩,
        fun q k hk => ?_⟩
      · rintro e' (_ | ⟨_, he'⟩)
        · exact ⟨r, he⟩
        · exact hmore e' he'
      · rw [← hsent q]
        exact htaken q k (by rwa [hadv.streamMap])

/-- Both streams of the server, and one of the client. -/
theorem streams_deliver_two : ∃ link₀ link, start 16 3 = .ok link₀ ∧
    link₀.exec (twoStreams 0 4) = .ok link ∧ ∃ more link', link.exec more = .ok link' ∧
      (link'.side .server).taken 0 = [[7, 8, 9], [6]] ∧ (link'.side .server).taken 4 = [[5]] ∧
      (link'.side .client).taken 0 = [[2]] := by
  obtain ⟨link₀, link, hstart, hrun, -, ⟨hcapacity, hroom⟩, hlisten, hall⟩ := exists_twoStreams
  obtain ⟨more, link', -, hmore, htaken⟩ :=
    streams_deliver 16 3 link₀ link (twoStreams 0 4) hstart hrun hall hlisten
      (hcapacity ▸ by decide) .client (by rw [hroom, hcapacity]; decide)
  exact ⟨link₀, link, hstart, hrun, more, link', hmore,
    htaken .client 0 (hall .client (0, [6]) (by decide)).registered,
    htaken .client 4 (hall .client (4, [5]) (by decide)).registered,
    htaken .server 0 (hall .server (0, [2]) (by decide)).registered⟩

end Link

end Ossa.Network
