import Mathlib.Data.List.Forall2
import Ossa.Collections
import Ossa.Loop

/-!
The streams of one connection, as `network/multiplexer.rs` runs them.

Messages are written one after the other, each behind a header with the id of its stream and
its length. The reader gets the bytes in buffers that are cut anywhere, and keeps in its state
what it needs to go on with the next buffer. The channel a message is sent to is abstract.
-/

/-! ### Big-endian numbers -/

namespace Ossa.Util

/-- The last `k` bytes of a number, the highest first. -/
def toBe : ℕ → ℕ → List UInt8
  | 0, _ => []
  | k + 1, n => toBe k (n / 256) ++ [UInt8.ofNat n]

def fromBe (bytes : List UInt8) : ℕ := bytes.foldl (fun n b => n * 256 + b.toNat) 0

@[simp] lemma length_toBe (k n : ℕ) : (toBe k n).length = k := by
  induction k generalizing n with
  | zero => rfl
  | succ k ih => simp [toBe, ih]

lemma fromBe_append (bytes : List UInt8) (b : UInt8) :
    fromBe (bytes ++ [b]) = fromBe bytes * 256 + b.toNat := by
  simp [fromBe]

/-- **A number that fits is read back.** -/
theorem fromBe_toBe {k n : ℕ} (h : n < 256 ^ k) : fromBe (toBe k n) = n := by
  induction k generalizing n with
  | zero =>
    have : n = 0 := by simpa using h
    subst this
    rfl
  | succ k ih =>
    have hdiv : n / 256 < 256 ^ k := by
      rw [pow_succ] at h
      exact Nat.div_lt_of_lt_mul (by omega)
    rw [toBe, fromBe_append, ih hdiv, UInt8.toNat_ofNat']
    omega

end Ossa.Util

namespace Ossa.Network

open Ossa.Loop Ossa.Util Ossa.Collections

/-- A `u32`. -/
abbrev StreamId := Fin (2 ^ 32)

def MAX_MESSAGE_LENGTH : ℕ := 1000 * 1000 * 1024

def HEADER_LENGTH : ℕ := 8

/-! ### Writing -/

/-- Write stream id and message length, then the message. -/
def writeMessage (message : StreamId × List UInt8) : Exec (List UInt8) :=
  if message.2.length < 2 ^ 32 then
    .ok (toBe 4 message.1.val ++ toBe 4 message.2.length ++ message.2)
  else .error (.expect "TODO")

def writeMessages (messages : List (StreamId × List UInt8)) : Exec (List UInt8) := do
  let frames ← messages.mapM writeMessage
  pure frames.flatten

/-! ### Reading -/

variable {Sender : Type}

inductive MultiplexerReadState (Sender : Type)
  | processingHeader (position : ℕ) (header : List UInt8)
  | processingBody (msgLength : ℕ) (sender : Sender) (sendBuffer : List UInt8)

namespace MultiplexerReadState

def new : MultiplexerReadState Sender := .processingHeader 0 (List.replicate HEADER_LENGTH 0)

/-- What is still expected, a difference of two `usize`. -/
def remaining (length received : ℕ) : Exec ℕ :=
  if received ≤ length then .ok (length - received) else .error .overflow

/-- Overwrite the entries of an array from `low` to `high`. -/
def copyToSlice (array : List UInt8) (low high : ℕ) (bytes : List UInt8) : Exec (List UInt8) :=
  if low ≤ high ∧ high ≤ array.length then .ok (array.take low ++ bytes ++ array.drop high)
  else .error .outOfBounds

/-- One call of `handle_receive`, up to the call it ends with. The messages sent so far are
part of the state. -/
def receiveBody (streamMap : BTreeMap StreamId Sender) :
    MultiplexerReadState Sender × List UInt8 × List (Sender × List UInt8) →
    Exec (Flow (MultiplexerReadState Sender × List UInt8 × List (Sender × List UInt8))
      (MultiplexerReadState Sender × List (Sender × List UInt8)))
  | (processingHeader position header, buf, sent) => do
    -- Read header.
    let remainingC ← remaining HEADER_LENGTH position
    let receivedC := min buf.length remainingC
    let header ← copyToSlice header position (position + receivedC) (buf.take receivedC)
    let buf := buf.drop receivedC
    let position := position + receivedC
    -- Check if we've received the entire header.
    if position = HEADER_LENGTH then do
      let streamId : StreamId := Fin.ofNat (2 ^ 32) (fromBe (header.take 4))
      let sender ← orFault (.expect "TODO") streamMap[streamId]?
      let msgLength := fromBe (header.drop 4)
      -- Check upper bound on message length.
      if msgLength > MAX_MESSAGE_LENGTH then
        .error (.todo "TODO: Other party sent too large of a message.")
      else pure (.next (processingBody msgLength sender [], buf, sent))
    else pure (.done (processingHeader position header, sent))
  | (processingBody msgLength sender sendBuffer, buf, sent) => do
    -- Append received bytes to the buffer.
    let remainingC ← remaining msgLength sendBuffer.length
    let receivedC := min buf.length remainingC
    let sendBuffer := sendBuffer ++ buf.take receivedC
    let buf := buf.drop receivedC
    -- Send message if we've received the entire message.
    if sendBuffer.length = msgLength then
      -- Keep working if there are still bytes left in the buffer.
      if buf.isEmpty then pure (.done (new, sent ++ [(sender, sendBuffer)]))
      else pure (.next (new, buf, sent ++ [(sender, sendBuffer)]))
    else pure (.done (processingBody msgLength sender sendBuffer, sent))

/-- Two calls per byte are more than enough. -/
def handleReceive (streamMap : BTreeMap StreamId Sender)
    (w : MultiplexerReadState Sender × List (Sender × List UInt8)) (buf : List UInt8) :
    Exec (MultiplexerReadState Sender × List (Sender × List UInt8)) :=
  loop (receiveBody streamMap) (2 * buf.length + 2) (w.1, buf, w.2)

end MultiplexerReadState

/-- Read one buffer after the other. -/
def receiveAll (streamMap : BTreeMap StreamId Sender) (buffers : List (List UInt8)) :
    Exec (MultiplexerReadState Sender × List (Sender × List UInt8)) :=
  buffers.foldlM (MultiplexerReadState.handleReceive streamMap) (.new, [])

/-! ### What the reader waits for -/

variable {streamMap : BTreeMap StreamId Sender} {messages messages' : List (StreamId × List UInt8)}
variable {sent sent' : List (Sender × List UInt8)} {rest buf : List UInt8}

/-- The bytes of one message. -/
def frame (message : StreamId × List UInt8) : List UInt8 :=
  toBe 4 message.1.val ++ toBe 4 message.2.length ++ message.2

/-- A message can be sent and received: its stream is registered, and it is not too large. -/
structure Sendable (streamMap : BTreeMap StreamId Sender) (message : StreamId × List UInt8) :
    Prop where
  registered : streamMap.contains message.1
  length : message.2.length ≤ MAX_MESSAGE_LENGTH

/-- The message was sent to its stream. -/
def Delivers (streamMap : BTreeMap StreamId Sender) (delivery : Sender × List UInt8)
    (message : StreamId × List UInt8) : Prop :=
  streamMap[message.1]? = some delivery.1 ∧ delivery.2 = message.2

/-- The messages that are left to receive, given the bytes that follow. -/
def Awaits (streamMap : BTreeMap StreamId Sender) (messages : List (StreamId × List UInt8))
    (rest : List UInt8) : MultiplexerReadState Sender → Prop
  | .processingHeader position header => header.length = HEADER_LENGTH ∧
    position < HEADER_LENGTH ∧ (position = 0 → header = List.replicate HEADER_LENGTH 0) ∧
    header.take position ++ rest = (messages.map frame).flatten
  | .processingBody msgLength sender sendBuffer => ∃ message later,
    messages = message :: later ∧ streamMap[message.1]? = some sender ∧
    msgLength = message.2.length ∧ sendBuffer.length ≤ msgLength ∧
    sendBuffer ++ rest = message.2 ++ (later.map frame).flatten

/-- Between two buffers, a body that is complete has been sent. -/
def Settled : MultiplexerReadState Sender → Prop
  | .processingHeader _ _ => True
  | .processingBody msgLength _ sendBuffer => sendBuffer.length < msgLength

/-- From one point to another, messages were received and sent on. -/
def Progress (streamMap : BTreeMap StreamId Sender) (messages : List (StreamId × List UInt8))
    (sent : List (Sender × List UInt8)) (messages' : List (StreamId × List UInt8))
    (sent' : List (Sender × List UInt8)) : Prop :=
  ∃ received deliveries, messages = received ++ messages' ∧ sent' = sent ++ deliveries ∧
    List.Forall₂ (Delivers streamMap) deliveries received

lemma Progress.refl : Progress streamMap messages sent messages sent :=
  ⟨[], [], rfl, (List.append_nil _).symm, .nil⟩

lemma Progress.trans {messages'' : List (StreamId × List UInt8)}
    {sent'' : List (Sender × List UInt8)} (h : Progress streamMap messages sent messages' sent')
    (h' : Progress streamMap messages' sent' messages'' sent'') :
    Progress streamMap messages sent messages'' sent'' := by
  obtain ⟨received, deliveries, rfl, rfl, hall⟩ := h
  obtain ⟨received', deliveries', rfl, rfl, hall'⟩ := h'
  exact ⟨received ++ received', deliveries ++ deliveries', (List.append_assoc _ _ _).symm,
    List.append_assoc _ _ _, List.rel_append hall hall'⟩

lemma awaits_new (h : rest = (messages.map frame).flatten) :
    Awaits streamMap messages rest (.new : MultiplexerReadState Sender) :=
  ⟨rfl, by decide, fun _ => rfl, h⟩

lemma length_frame (message : StreamId × List UInt8) :
    (frame message).length = HEADER_LENGTH + message.2.length := by
  simp [frame, HEADER_LENGTH]
  omega

lemma Awaits.done {st : MultiplexerReadState Sender} (h : Awaits streamMap messages [] st)
    (hs : Settled st) : messages = [] ∧ st = .new := by
  cases st with
  | processingHeader position header =>
    obtain ⟨hlen, hpos, hnew, hbytes⟩ := h
    rw [List.append_nil] at hbytes
    have hsize := congrArg List.length hbytes
    rw [List.length_take, hlen] at hsize
    cases messages with
    | nil =>
      have hzero : position = 0 := by simp at hsize; omega
      rw [hzero, hnew hzero]
      exact ⟨rfl, rfl⟩
    | cons message messages =>
      simp only [List.map_cons, List.flatten_cons, List.length_append, length_frame] at hsize
      omega
  | processingBody msgLength sender sendBuffer =>
    obtain ⟨message, later, rfl, -, rfl, -, hbytes⟩ := h
    rw [List.append_nil] at hbytes
    have hlt : sendBuffer.length < message.2.length := hs
    rw [hbytes, List.length_append] at hlt
    omega

/-! ### One call -/

/-- What is measured of a call: it goes down with every further call. -/
def callMeasure (w : MultiplexerReadState Sender × List UInt8 × List (Sender × List UInt8)) : ℕ :=
  match w.1 with
  | .processingHeader _ _ => 2 * w.2.1.length
  | .processingBody _ _ _ => 2 * w.2.1.length + 1

/-- What one call does: it is the last one, or it leaves less to do for the next one. -/
def CallResult (streamMap : BTreeMap StreamId Sender) (messages : List (StreamId × List UInt8))
    (rest : List UInt8)
    (w : MultiplexerReadState Sender × List UInt8 × List (Sender × List UInt8)) :
    Flow (MultiplexerReadState Sender × List UInt8 × List (Sender × List UInt8))
      (MultiplexerReadState Sender × List (Sender × List UInt8)) → Prop
  | .done (st', sent') => ∃ messages', Progress streamMap messages w.2.2 messages' sent' ∧
    Awaits streamMap messages' rest st' ∧ Settled st'
  | .next (st', buf', sent') => ∃ messages', Progress streamMap messages w.2.2 messages' sent' ∧
    Awaits streamMap messages' (buf' ++ rest) st' ∧ callMeasure (st', buf', sent') < callMeasure w

open MultiplexerReadState

lemma take_copy {header : List UInt8} {position k : ℕ} (hlen : header.length = HEADER_LENGTH)
    (hk : position + k ≤ HEADER_LENGTH) (hbuf : k ≤ buf.length) :
    copyToSlice header position (position + k) (buf.take k) =
        .ok (header.take position ++ buf.take k ++ header.drop (position + k)) ∧
      (header.take position ++ buf.take k).length = position + k := by
  constructor
  · exact if_pos ⟨Nat.le_add_right _ _, by omega⟩
  · rw [List.length_append, List.length_take, List.length_take]
    omega

lemma header_complete {head : List UInt8} (hhead : head.length = HEADER_LENGTH)
    (h : head ++ rest = (messages.map frame).flatten) : ∃ message later,
    messages = message :: later ∧ head = toBe 4 message.1.val ++ toBe 4 message.2.length ∧
      rest = message.2 ++ (later.map frame).flatten := by
  cases messages with
  | nil =>
    have hnil := List.append_eq_nil_iff.mp h
    rw [hnil.1] at hhead
    cases hhead
  | cons message later =>
    have hsplit : head ++ rest = (toBe 4 message.1.val ++ toBe 4 message.2.length) ++
        (message.2 ++ (later.map frame).flatten) := by
      rw [h, List.map_cons, List.flatten_cons, frame, List.append_assoc]
    obtain ⟨hhead, hrest⟩ := List.append_inj hsplit (by simp [hhead, HEADER_LENGTH])
    exact ⟨message, later, rfl, hhead, hrest⟩

lemma parse_header {message : StreamId × List UInt8} (hs : Sendable streamMap message) :
    Fin.ofNat (2 ^ 32) (fromBe ((toBe 4 message.1.val ++ toBe 4 message.2.length).take 4)) =
        message.1 ∧
      fromBe ((toBe 4 message.1.val ++ toBe 4 message.2.length).drop 4) = message.2.length := by
  have hlength : message.2.length < 256 ^ 4 := lt_of_le_of_lt hs.length (by decide)
  constructor
  · rw [List.take_left' (length_toBe _ _), fromBe_toBe message.1.isLt]
    exact Fin.ofNat_val_eq_self _
  · rw [List.drop_left' (length_toBe _ _), fromBe_toBe hlength]

lemma call_header {position : ℕ} {header : List UInt8}
    (hall : ∀ message ∈ messages, Sendable streamMap message)
    (h : Awaits streamMap messages (buf ++ rest) (.processingHeader position header)) :
    ∃ f, receiveBody streamMap (.processingHeader position header, buf, sent) = .ok f ∧
      CallResult streamMap messages rest (.processingHeader position header, buf, sent) f := by
  obtain ⟨hlen, hpos, hnew, hbytes⟩ := h
  have hremaining : remaining HEADER_LENGTH position = .ok (HEADER_LENGTH - position) :=
    if_pos hpos.le
  obtain ⟨k, hk⟩ : ∃ k, k = min buf.length (HEADER_LENGTH - position) := ⟨_, rfl⟩
  have hbuf : k ≤ buf.length := by omega
  have hfit : position + k ≤ HEADER_LENGTH := by omega
  obtain ⟨hcopy, hsize⟩ := take_copy hlen hfit hbuf
  simp only [receiveBody, hremaining, ok_bind, ← hk, hcopy]
  have hhead : (header.take position ++ buf.take k) ++ (buf.drop k ++ rest) =
      (messages.map frame).flatten := by
    rw [List.append_assoc, ← List.append_assoc (buf.take k), List.take_append_drop, hbytes]
  by_cases hfull : position + k = HEADER_LENGTH
  · -- The header is complete, and the body is next.
    rw [hfull] at hsize
    obtain ⟨message, later, rfl, hheader, hrest⟩ := header_complete hsize hhead
    have hs := hall message List.mem_cons_self
    obtain ⟨hid, hmsg⟩ := parse_header hs
    obtain ⟨sender, hsender⟩ := contains_iff.mp hs.registered
    have hdrop : header.drop HEADER_LENGTH = [] := List.drop_eq_nil_of_le hlen.le
    rw [if_pos hfull, hfull, hdrop, List.append_nil, hheader, hid, hsender, orFault_some, ok_bind,
      hmsg, if_neg (not_lt.mpr hs.length)]
    refine ⟨_, rfl, message :: later, .refl, ⟨message, later, rfl, hsender, rfl, Nat.zero_le _, hrest⟩, ?_⟩
    simp only [callMeasure, List.length_drop]
    omega
  · -- The buffer is used up within the header.
    rw [if_neg hfull]
    have hall' : k = buf.length := by omega
    refine ⟨_, rfl, messages, .refl, ⟨?_, by omega, fun hzero => ?_, ?_⟩, trivial⟩
    · rw [List.length_append, hsize, List.length_drop]
      omega
    · have hp : position = 0 := by omega
      have hk0 : k = 0 := by omega
      rw [hp, hk0, List.take_zero, List.take_zero, List.nil_append, List.nil_append, Nat.add_zero,
        List.drop_zero, hnew hp]
    · rw [List.take_left' hsize]
      rw [hall', List.drop_length, List.nil_append] at hhead
      rwa [hall']

lemma call_body {msgLength : ℕ} {sender : Sender} {sendBuffer : List UInt8}
    (h : Awaits streamMap messages (buf ++ rest) (.processingBody msgLength sender sendBuffer)) :
    ∃ f, receiveBody streamMap (.processingBody msgLength sender sendBuffer, buf, sent) = .ok f ∧
      CallResult streamMap messages rest
        (.processingBody msgLength sender sendBuffer, buf, sent) f := by
  obtain ⟨message, later, rfl, hsender, rfl, hle, hbytes⟩ := h
  have hremaining : remaining message.2.length sendBuffer.length =
      .ok (message.2.length - sendBuffer.length) := if_pos hle
  obtain ⟨k, hk⟩ : ∃ k, k = min buf.length (message.2.length - sendBuffer.length) := ⟨_, rfl⟩
  have hsize : (sendBuffer ++ buf.take k).length = sendBuffer.length + k := by
    rw [List.length_append, List.length_take]
    omega
  simp only [receiveBody, hremaining, ok_bind, ← hk]
  have hbytes' : (sendBuffer ++ buf.take k) ++ (buf.drop k ++ rest) =
      message.2 ++ (later.map frame).flatten := by
    rw [List.append_assoc, ← List.append_assoc (buf.take k), List.take_append_drop, hbytes]
  by_cases hfull : (sendBuffer ++ buf.take k).length = message.2.length
  · -- The message is complete.
    obtain ⟨hmessage, hrest⟩ := List.append_inj hbytes' hfull
    have hprogress : Progress streamMap (message :: later) sent later
        (sent ++ [(sender, sendBuffer ++ buf.take k)]) :=
      ⟨[message], _, rfl, rfl, .cons ⟨hsender, hmessage⟩ .nil⟩
    rw [if_pos hfull]
    cases hd : buf.drop k with
    | nil =>
      rw [hd] at hrest
      exact ⟨_, rfl, later, hprogress, awaits_new hrest, trivial⟩
    | cons b bytes =>
      refine ⟨_, rfl, later, hprogress, ?_, ?_⟩
      · rw [hd] at hrest
        exact awaits_new hrest
      · have hshort := congrArg List.length hd
        simp only [List.length_drop, List.length_cons] at hshort
        simp only [callMeasure, MultiplexerReadState.new, List.length_cons]
        omega
  · -- The buffer is used up within the body.
    rw [if_neg hfull]
    have hall' : k = buf.length := by omega
    refine ⟨_, rfl, message :: later, .refl, ⟨message, later, rfl, hsender, rfl, by omega, ?_⟩, ?_⟩
    · rw [hall', List.drop_length, List.nil_append] at hbytes'
      rwa [hall']
    · show (sendBuffer ++ buf.take k).length < message.2.length
      omega

theorem call_spec {st : MultiplexerReadState Sender} (sent : List (Sender × List UInt8))
    (hall : ∀ message ∈ messages, Sendable streamMap message)
    (h : Awaits streamMap messages (buf ++ rest) st) :
    ∃ f, receiveBody streamMap (st, buf, sent) = .ok f ∧
      CallResult streamMap messages rest (st, buf, sent) f := by
  cases st with
  | processingHeader position header => exact call_header hall h
  | processingBody msgLength sender sendBuffer => exact call_body h

/-! ### Buffers -/

lemma Progress.sendable (h : Progress streamMap messages sent messages' sent')
    (hall : ∀ message ∈ messages, Sendable streamMap message) :
    ∀ message ∈ messages', Sendable streamMap message := by
  obtain ⟨received, deliveries, rfl, -, -⟩ := h
  exact fun message hmem => hall message (List.mem_append_right _ hmem)

/-- **One buffer**: the messages it completes are sent on, and the reader waits for the rest. -/
theorem handleReceive_spec {st : MultiplexerReadState Sender}
    (sent : List (Sender × List UInt8)) (hall : ∀ message ∈ messages, Sendable streamMap message)
    (h : Awaits streamMap messages (buf ++ rest) st) :
    ∃ w messages', handleReceive streamMap (st, sent) buf = .ok w ∧
      Progress streamMap messages sent messages' w.2 ∧ Awaits streamMap messages' rest w.1 ∧
        Settled w.1 := by
  have hfuel : callMeasure (st, buf, sent) < 2 * buf.length + 2 := by
    cases st <;> simp only [callMeasure] <;> omega
  have hloop : ∃ w, loop (receiveBody streamMap) (2 * buf.length + 2) (st, buf, sent) = .ok w ∧
      ∃ messages', Progress streamMap messages sent messages' w.2 ∧
        Awaits streamMap messages' rest w.1 ∧ Settled w.1 := by
    refine loop_of_measure (I := fun w => ∃ messages',
      Progress streamMap messages sent messages' w.2.2 ∧
        Awaits streamMap messages' (w.2.1 ++ rest) w.1)
      callMeasure ⟨messages, .refl, h⟩ hfuel ?_
    rintro ⟨st, buf, sent'⟩ ⟨messages', hp, ha⟩
    obtain ⟨f, hf, hresult⟩ := call_spec sent' (hp.sendable hall) ha
    cases f with
    | done r =>
      obtain ⟨messages'', hp', ha', hs⟩ := hresult
      exact Or.inl ⟨r, hf, messages'', hp.trans hp', ha', hs⟩
    | next w' =>
      obtain ⟨messages'', hp', ha', hlt⟩ := hresult
      exact Or.inr ⟨w', hf, ⟨messages'', hp.trans hp', ha'⟩, hlt⟩
  obtain ⟨w, hw, messages', hresult⟩ := hloop
  exact ⟨w, messages', hw, hresult⟩

lemma receive_buffers {buffers : List (List UInt8)}
    {w : MultiplexerReadState Sender × List (Sender × List UInt8)}
    (hall : ∀ message ∈ messages, Sendable streamMap message)
    (h : Awaits streamMap messages buffers.flatten w.1) (hs : Settled w.1) :
    ∃ sent', buffers.foldlM (handleReceive streamMap) w = .ok (.new, sent') ∧
      Progress streamMap messages w.2 [] sent' := by
  induction buffers generalizing w messages with
  | nil =>
    obtain ⟨rfl, hnew⟩ := h.done hs
    exact ⟨w.2, by rw [← hnew]; rfl, .refl⟩
  | cons buf buffers ih =>
    obtain ⟨w', messages', hw, hp, ha, hs'⟩ := handleReceive_spec w.2 hall h
    obtain ⟨sent', hrest, hp'⟩ := ih (hp.sendable hall) ha hs'
    refine ⟨sent', ?_, hp.trans hp'⟩
    rw [List.foldlM_cons, hw, ok_bind, hrest]

lemma writeMessages_eq (hall : ∀ message ∈ messages, Sendable streamMap message) :
    writeMessages messages = .ok (messages.map frame).flatten := by
  have hwrite : ∀ message ∈ messages, writeMessage message = .ok (frame message) :=
    fun message hmem => if_pos (lt_of_le_of_lt (hall message hmem).length (by decide))
  have hmap : messages.mapM writeMessage = .ok (messages.map frame) := by
    induction messages with
    | nil => rfl
    | cons message messages ih =>
      rw [List.mapM_cons, hwrite message List.mem_cons_self, ok_bind,
        ih (fun m hm => hall m (List.mem_cons_of_mem _ hm))
          (fun m hm => hwrite m (List.mem_cons_of_mem _ hm))]
      rfl
  rw [writeMessages, hmap]
  rfl

/-- **Frames survive any chunking**: what is written for messages to registered streams can be
cut into buffers anywhere, and the reader sends exactly these messages to their streams, in
order, and ends where it started. -/
theorem frames_survive_chunking (streamMap : BTreeMap StreamId Sender)
    (messages : List (StreamId × List UInt8))
    (hregistered : ∀ message ∈ messages, streamMap.contains message.1)
    (hlength : ∀ message ∈ messages, message.2.length ≤ MAX_MESSAGE_LENGTH) :
    ∃ bytes, writeMessages messages = .ok bytes ∧ ∀ buffers : List (List UInt8),
      buffers.flatten = bytes → ∃ deliveries, receiveAll streamMap buffers = .ok (.new, deliveries) ∧
        List.Forall₂ (Delivers streamMap) deliveries messages := by
  have hall : ∀ message ∈ messages, Sendable streamMap message := fun message hmem =>
    ⟨hregistered message hmem, hlength message hmem⟩
  refine ⟨_, writeMessages_eq hall, fun buffers hcut => ?_⟩
  obtain ⟨sent, hsent, received, deliveries, hreceived, heq, hdelivers⟩ :=
    receive_buffers (w := (.new, [])) hall (awaits_new hcut) trivial
  rw [List.append_nil] at hreceived
  rw [List.nil_append] at heq
  exact ⟨sent, hsent, heq ▸ hreceived ▸ hdelivers⟩

def oneStream : BTreeMap StreamId ℕ := (∅ : BTreeMap StreamId ℕ).insert 3 0

/-- Two messages to stream 3, the first one empty, cut within headers and bodies. -/
theorem frames_survive_chunking_twice : ∃ deliveries,
    receiveAll oneStream [[0, 0], [0, 3, 0], [], [0, 0, 0, 0, 0, 0, 3, 0, 0], [0, 2, 7], [8]] =
      .ok (.new, deliveries) ∧ deliveries.map Prod.snd = [[], [7, 8]] := by
  obtain ⟨bytes, hbytes, hall⟩ :=
    frames_survive_chunking oneStream [(3, []), (3, [7, 8])] (by decide) (by decide)
  have hvalue : writeMessages [(3, []), (3, [7, 8])] =
      .ok [0, 0, 0, 3, 0, 0, 0, 0, 0, 0, 0, 3, 0, 0, 0, 2, 7, 8] := by decide
  obtain ⟨deliveries, hreceive, hdelivers⟩ := hall
    [[0, 0], [0, 3, 0], [], [0, 0, 0, 0, 0, 0, 3, 0, 0], [0, 2, 7], [8]]
    (Except.ok.inj (hvalue.symm.trans hbytes))
  refine ⟨deliveries, hreceive, ?_⟩
  cases hdelivers with
  | cons h₁ hdelivers =>
    cases hdelivers with
    | cons h₂ hdelivers =>
      cases hdelivers
      simp [h₁.2, h₂.2]

end Ossa.Network
