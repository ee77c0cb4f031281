import Ossa.Ecg

/-!
Synchronising two graphs: the two sides of `protocol/store_peer/ecg_sync.rs`.

The initiator sends its tips and says which of the headers last proposed to it it knows. The
responder answers with operations and proposes further headers. The loops of the responder
are given fuel; a function that returns did not run out of it.
-/

namespace Ossa.EcgSync

open Ossa.Loop Ossa.Collections Ossa.Ecg

def maxHaveHeaders : ℕ := 32
def maxDeliverHeaders : ℕ := 32

abbrev HeaderBitmap := Vector Bool maxHaveHeaders

/-- The source subtracts with wrapping; zero counts as a power of two here as there. -/
def isPowerOfTwo (x : ℕ) : Bool := 0 = x &&& (x - 1)

variable {HeaderId Header : Type} [LinearOrder HeaderId]

/-! ### The initiator -/

structure ECGSyncInitiator (HeaderId : Type) where
  haves : List HeaderId

/-- Respond whether we know the header at a position. -/
def setKnown (ecgState : UntypedState HeaderId Header) (knownBitmap : HeaderBitmap) :
    HeaderId × ℕ → Exec HeaderBitmap
  | (headerId, i) =>
    if ecgState.contains headerId then
      if h : i < maxHaveHeaders then .ok (knownBitmap.set i true) else .error .outOfBounds
    else .ok knownBitmap

/-- Check which headers they sent us that we know. -/
def ECGSyncInitiator.knownBitmap (self : ECGSyncInitiator HeaderId)
    (ecgState : UntypedState HeaderId Header) : Exec HeaderBitmap :=
  self.haves.zipIdx.foldlM (setKnown ecgState) (Vector.replicate maxHaveHeaders false)

/-! ### The responder -/

/-- One iteration of `mark_as_known_helper`, on its queue and the known headers. -/
def markBody (state : UntypedState HeaderId Header) :
    List HeaderId × BTreeSet HeaderId → Exec (Flow (List HeaderId × BTreeSet HeaderId) (BTreeSet HeaderId))
  | ([], theirKnown) => .ok (.done theirKnown)
  | (headerId :: queue, theirKnown) =>
    -- `insert` answers whether the header was not there before.
    let contains := !theirKnown.contains headerId
    let theirKnown := theirKnown.insert headerId
    if !contains then do
      let parents ← orFault (.unreachable "Precondition violated. Header must be known.")
        (state.getParents headerId)
      pure (.next (queue ++ parents, theirKnown))
    else .ok (.next (queue, theirKnown))

def markAsKnownHelper (fuel : ℕ) (state : UntypedState HeaderId Header)
    (theirKnown : BTreeSet HeaderId) (headerId : HeaderId) : Exec (BTreeSet HeaderId) :=
  loop (markBody state) fuel ([headerId], theirKnown)

structure ECGSyncResponder (HeaderId : Type) [LinearOrder HeaderId] where
  theirKnown : BTreeSet HeaderId
  ourUnknown : BTreeSet HeaderId
  sendQueue : BinaryHeap (ℕᵒᵈ ×ₗ HeaderId)
  sentHaves : List HeaderId
  havesQueue : BinaryHeap (Bool ×ₗ ℕ ×ₗ HeaderId ×ₗ ℕ)

/-- An entry of the send queue; headers of small depth come first. -/
def sendEntry (depth : ℕ) (headerId : HeaderId) : ℕᵒᵈ ×ₗ HeaderId :=
  toLex (OrderDual.toDual depth, headerId)

/-- An entry of the haves queue; tips come first, then headers of great depth. -/
def haveEntry (isTip : Bool) (depth : ℕ) (headerId : HeaderId) (distance : ℕ) :
    Bool ×ₗ ℕ ×ₗ HeaderId ×ₗ ℕ :=
  toLex (isTip, toLex (depth, toLex (headerId, distance)))

namespace ECGSyncResponder

def new : ECGSyncResponder HeaderId where
  theirKnown := ∅
  ourUnknown := ∅
  sendQueue := .empty
  sentHaves := []
  havesQueue := .empty

variable (self : ECGSyncResponder HeaderId) (fuel : ℕ) (ecgState : UntypedState HeaderId Header)

def theyKnow (headerId : HeaderId) : Bool :=
  self.theirKnown.contains headerId || self.ourUnknown.contains headerId

def markAsKnown (headerId : HeaderId) : Exec (ECGSyncResponder HeaderId) := do
  let theirKnown ← markAsKnownHelper fuel ecgState self.theirKnown headerId
  pure { self with theirKnown }

/-- `send_queue.extend` of headers with their depths. -/
def enqueue (headers : List (ℕ × HeaderId)) : ECGSyncResponder HeaderId :=
  { self with sendQueue := self.sendQueue.extend (headers.map fun (depth, h) => sendEntry depth h) }

/-- Add the children of a header to the send queue. -/
def enqueueChildren (msg : String) (headerId : HeaderId) : Exec (ECGSyncResponder HeaderId) := do
  let children ← orFault (.expect msg) (ecgState.getChildrenWithDepth headerId)
  pure (self.enqueue children)

/-- Deliver a header, unless they know it. -/
def deliver (operations : List (Header × RawECGBody)) (headerId : HeaderId) :
    Exec (ECGSyncResponder HeaderId × List (Header × RawECGBody)) :=
  -- Skip if they already know this header.
  let skip := self.theyKnow headerId
  if skip then .ok (self, operations)
  else do
    let node ← orFault (.unreachable "We know this header.") (ecgState.getNode headerId)
    -- Mark header as known by peer.
    let self ← self.markAsKnown fuel ecgState headerId
    pure (self, operations ++ [(node.header, node.operations)])

/-- One iteration of `prepare_operations`. -/
def operationsBody : ECGSyncResponder HeaderId × List (Header × RawECGBody) →
    Exec (Flow (ECGSyncResponder HeaderId × List (Header × RawECGBody))
      (ECGSyncResponder HeaderId × List (Header × RawECGBody)))
  | (self, operations) =>
    match self.sendQueue.pop with
    | none => .ok (.done (self, operations))
    | some (entry, sendQueue) => do
      let headerId := (ofLex entry).2
      let (self, operations) ← { self with sendQueue }.deliver fuel ecgState operations headerId
      let self ← self.enqueueChildren ecgState "Unreachable since we proposed this header." headerId
      pure (if operations.length = maxDeliverHeaders then .done (self, operations)
        else .next (self, operations))

def prepareOperations : Exec (ECGSyncResponder HeaderId × List (Header × RawECGBody)) :=
  loop (operationsBody fuel ecgState) fuel (self, [])

/-- Propose a header, unless they know it, and look at its parents next. -/
def propose (depth : ℕ) (headerId : HeaderId) (distance : ℕ) :
    Exec (ECGSyncResponder HeaderId) :=
  -- If they already know this header, they already know its ancestors.
  let skip := self.theyKnow headerId
  if skip then .ok self
  else do
    -- If header is at an exponential distance (or is a root node), send it with `haves`.
    let sentHaves := if isPowerOfTwo distance || depth = 1 then self.sentHaves ++ [headerId]
      else self.sentHaves
    let parents ← orFault (.unreachable "Invariant: we know everything in queue.")
      (ecgState.getParentsWithDepth headerId)
    pure { self with
      sentHaves
      havesQueue := self.havesQueue.extend
        (parents.map fun (depth, parentId) => haveEntry false depth parentId (distance + 1)) }

/-- One iteration of `prepare_sent_haves`. -/
def havesBody (self : ECGSyncResponder HeaderId) :
    Exec (Flow (ECGSyncResponder HeaderId) (ECGSyncResponder HeaderId)) :=
  match self.havesQueue.pop with
  | none => .ok (.done self)
  | some (entry, havesQueue) => do
    let depth := (ofLex (ofLex entry).2).1
    let headerId := (ofLex (ofLex (ofLex entry).2).2).1
    let distance := (ofLex (ofLex (ofLex entry).2).2).2
    let self ← { self with havesQueue }.propose ecgState depth headerId distance
    -- If we've reached the upper bound, stop.
    pure (if self.sentHaves.length = maxHaveHeaders then .done self else .next self)

def prepareSentHaves : Exec (ECGSyncResponder HeaderId) :=
  loop (havesBody ecgState) fuel { self with sentHaves := [] }

def handleTheirTip (headerId : HeaderId) : Exec (ECGSyncResponder HeaderId) :=
  if ecgState.contains headerId then do
    -- Mark header and its ancestors as known.
    let self ← self.markAsKnown fuel ecgState headerId
    self.enqueueChildren ecgState "Unreachable since we have this header." headerId
  else
    -- Record header as known by them but not us.
    pure { self with ourUnknown := self.ourUnknown.insert headerId }

def handleTheirTips (theirTips : List HeaderId) : Exec (ECGSyncResponder HeaderId) :=
  -- If they don't have any operations, share all root nodes.
  let self := if theirTips.isEmpty then self.enqueue ecgState.getRootNodesWithDepth else self
  theirTips.foldlM (fun self headerId => self.handleTheirTip fuel ecgState headerId) self

/-- Add one of our tips to the haves queue, at distance 0. -/
def prepareOurTip (x : HeaderId) : Exec (ECGSyncResponder HeaderId) := do
  let depth ← orFault (.unreachable "We have this header") (ecgState.getHeaderDepth x)
  pure { self with havesQueue := self.havesQueue.push (haveEntry true depth x 0) }

def prepareOurTips : Exec (ECGSyncResponder HeaderId) :=
  ecgState.tips.toList.foldlM (fun self x => self.prepareOurTip ecgState x) self

/-- What they claim about one of the headers we proposed. -/
def handleClaim (theyKnow : Bool) (headerId : HeaderId) : Exec (ECGSyncResponder HeaderId) :=
  if theyKnow then do
    let self ← self.markAsKnown fuel ecgState headerId
    self.enqueueChildren ecgState "Unreachable since we sent this header." headerId
  else do
    let parents ← orFault (.expect "Unreachable since we sent this header.")
      (ecgState.getParents headerId)
    -- Send the node if they don't know it and they know all its parents.
    if ecgState.isRootNode headerId || parents.all fun p => self.theirKnown.contains p then
      let depth ← orFault (.expect "Unreachable since we sent this header.")
        (ecgState.getHeaderDepth headerId)
      pure { self with sendQueue := self.sendQueue.push (sendEntry depth headerId) }
    else pure self

def handleTheirKnown (theirKnown : HeaderBitmap) : Exec (ECGSyncResponder HeaderId) :=
  self.sentHaves.zipIdx.foldlM (fun self (headerId, i) => do
    let theyKnow ← orFault (.expect "Unreachable since we're iterating on the headers we sent.")
      theirKnown[i]?
    self.handleClaim fuel ecgState theyKnow headerId) self

/-- If we now know a header, remove it from our unknown and mark it as known to them. -/
def updateOurUnknown : Exec (ECGSyncResponder HeaderId) := do
  let found := self.ourUnknown.toList.filter ecgState.contains
  let theirKnown ← found.foldlM (markAsKnownHelper fuel ecgState) self.theirKnown
  pure { self with theirKnown, ourUnknown := found.foldl Std.ExtTreeSet.erase self.ourUnknown }

/-! ### Rounds -/

/-- The part of one iteration of `run_response_helper` that prepares an answer. -/
def prepareResponse : Exec (ECGSyncResponder HeaderId × List (Header × RawECGBody)) := do
  let self ← self.prepareOurTips ecgState
  let (self, operations) ← self.prepareOperations fuel ecgState
  let self ← self.prepareSentHaves fuel ecgState
  pure (self, operations)

/-- The first round. -/
def runInitial (theirTips : List HeaderId) :
    Exec (ECGSyncResponder HeaderId × List (Header × RawECGBody)) := do
  let self ← self.handleTheirTips fuel ecgState theirTips
  self.prepareResponse fuel ecgState

/-- Any later round. -/
def runRound (theirTips : List HeaderId) (theirKnown : HeaderBitmap) :
    Exec (ECGSyncResponder HeaderId × List (Header × RawECGBody)) := do
  let self ← self.handleTheirTips fuel ecgState theirTips
  let self ← self.handleTheirKnown fuel ecgState theirKnown
  self.prepareResponse fuel ecgState

/-- The iterations of `run_response_helper` after the first, on the updated graph. -/
def rerun (theirTips : List HeaderId) :
    Exec (ECGSyncResponder HeaderId × List (Header × RawECGBody)) := do
  let self ← self.updateOurUnknown fuel ecgState
  let self ← self.handleTheirTips fuel ecgState theirTips
  self.prepareResponse fuel ecgState

end ECGSyncResponder

end Ossa.EcgSync
