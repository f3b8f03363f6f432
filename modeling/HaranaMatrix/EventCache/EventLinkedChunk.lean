import HaranaMatrix.Linked.Stored
import HaranaMatrix.Linked.Sequence

/-!
# The linked chunk of the events of a room

`EventLinkedChunk` wraps a linked chunk of events and gaps, with the updates that were not sent to the store
yet. The linked chunk is the list of its chunks, which the pointer program follows step by step
(`Linked.Simulation`). The observers of the events and their ordering are left out: they read updates and
change nothing.
-/

namespace HaranaMatrix.EventCache

open Linked

/-- What the event cache asks of an event. The redaction rules are those of the room. -/
class RoomEvent (Event : Type) (EventId UserId : outParam Type) where
  eventId : Event → Option EventId
  sender : Event → Option UserId
  timestamp : Event → Option ℕ
  redactionTarget : Event → Option EventId
  /-- The latest event of the thread, if the server has sent it along with the root. -/
  bundledLatestThreadEvent : Event → Option Event
  /-- The redacted form of an event, by a redaction, unless it is redacted already or it has none. -/
  redacted : Event → Event → Option Event
  eventId_redacted {target redaction event : Event} :
    redacted target redaction = some event → eventId event = eventId target

variable {Event EventId UserId Gap : Type} [RoomEvent Event EventId UserId] [DecidableEq EventId]

/-- The linked chunk, and its updates that the store has not taken. -/
structure EventLinkedChunk (Event Gap : Type) where
  chunks : Chain Event Gap
  updates : List (Update Event Gap)

namespace EventLinkedChunk

variable (cap : ℕ)

def new : EventLinkedChunk Event Gap := ⟨.new, []⟩

variable (s : EventLinkedChunk Event Gap)

/-- The linked chunk after it was looked at. -/
def touch : EventLinkedChunk Event Gap :=
  ⟨s.chunks.touch.1, s.updates ++ s.chunks.touch.2⟩

def plainChunks : List (PlainChunk Event Gap) := plain s.chunks.chunks

def events : List (Position × Event) := positioned s.plainChunks

/-- An operation on the linked chunk. -/
def exec (op : Op Event Gap) : Except Fault (Except OpError (Outcome Event Gap) × EventLinkedChunk Event Gap) :=
  (s.chunks.step cap op).map fun y => (y.1, ⟨y.2.1, s.updates ++ y.2.2⟩)

def expect {α : Type} (r : Except OpError α) : Except Fault α :=
  match r with
  | .ok x => .ok x
  | .error _ => .error .assertion

/-- An operation that is expected to succeed. -/
def execExpect (op : Op Event Gap) : Except Fault (EventLinkedChunk Event Gap) := do
  let (r, s) ← s.exec cap op
  let _ ← expect r
  .ok s

/-- All events and all gaps are dropped; so are the updates on their way. -/
def reset (_ : EventLinkedChunk Event Gap) : EventLinkedChunk Event Gap := ⟨.new, [.clear]⟩

/-- The position of the next chunk if the gap is removed, of the first new chunk otherwise. -/
def replaceGapAt (gapIdentifier : ChunkIdentifier) (events : List Event) :
    Except Fault (Except OpError (Option Position) × EventLinkedChunk Event Gap) := do
  let s := s.touch
  let hasOnlyOneChunk := s.plainChunks.length = 1
  if events.isEmpty ∧ ¬ hasOnlyOneChunk then
    -- there are no new events, so the gap is removed
    let (r, s) ← s.exec cap (.removeEmptyChunkAt gapIdentifier)
    match r with
    | .error e => .ok (.error e, s)
    | .ok (.nextPosition position) => .ok (.ok position, s)
    | .ok _ => .ok (.ok none, s)
  else
    let (r, s) ← s.exec cap (.replaceGapAt events gapIdentifier)
    match r with
    | .error e => .ok (.error e, s)
    | .ok (.chunk chunk) => .ok (.ok (some ⟨chunk.identifier, 0⟩), s)
    | .ok _ => .ok (.ok none, s)

/-- The order of `sort_positions_descending`. -/
def Descending (a b : Position) : Prop :=
  b.chunkIdentifier.index < a.chunkIdentifier.index ∨
    (b.chunkIdentifier = a.chunkIdentifier ∧ b.index ≤ a.index)

instance : DecidableRel Descending := fun a b => by unfold Descending; infer_instance

def sortPositionsDescending (positions : List Position) : List Position := positions.insertionSort Descending

/-- The loop of `remove_events_by_position`, which stops at the first error. -/
def removeItems : List Position → EventLinkedChunk Event Gap →
    Except Fault (Except OpError Unit × EventLinkedChunk Event Gap)
  | [], s => .ok (.ok (), s)
  | position :: positions, s => do
    let (r, s) ← s.exec cap (.removeItemAt position)
    match r with
    | .error e => .ok (.error e, s)
    | .ok _ => removeItems positions s

def removeEventsByPosition (positions : List Position) :
    Except Fault (Except OpError Unit × EventLinkedChunk Event Gap) :=
  removeItems cap (sortPositionsDescending positions) s

def replaceEventAt (position : Position) (event : Event) :
    Except Fault (Except OpError (Outcome Event Gap) × EventLinkedChunk Event Gap) :=
  s.exec cap (.replaceItemAt position event)

/-- The first suffix of `known`, the longest one first, whose identifiers start those of
`newEvents`. -/
def findTail (newEvents : List Event) : List (Position × Option EventId) → List (Position × Option EventId)
  | [] => []
  | x :: known =>
    if ((x :: known).zip newEvents).all fun y =>
        y.1.2.isSome && decide (y.1.2 = RoomEvent.eventId y.2) then x :: known
    else findTail newEvents known

/-- The positions of the last events that are, in the same order, the first ones of `newEvents`. -/
def commonTailWith (newEvents : List Event) : List Position :=
  if newEvents.isEmpty then []
  else
    let known := ((s.events.reverse.take newEvents.length).map fun x => (x.1, RoomEvent.eventId x.2)).reverse
    (findTail newEvents known).map Prod.fst

/-- The latest gap. -/
def rgap : Option Gap :=
  s.plainChunks.reverse.findSome? fun c =>
    match c.content with
    | .gap gap => some gap
    | .items _ => none

def pushGap (gap : Gap) : Except Fault (EventLinkedChunk Event Gap) := do
  let s := s.touch
  -- the last chunk, if it is an empty one
  let prevChunkToRemove := s.plainChunks.getLast?.bind fun c =>
    match c.content with
    | .items [] => some c.identifier
    | _ => none
  let (_, s) ← s.exec cap (.pushGapBack gap)
  match prevChunkToRemove with
  | some chunk => s.execExpect cap (.removeEmptyChunkAt chunk)
  | none => .ok s

def pushLiveEvents (newGap : Option Gap) (events : List Event) :
    Except Fault (EventLinkedChunk Event Gap) := do
  let s ← match newGap with
    | some gap => s.pushGap cap gap
    | none => .ok s
  let (_, s) ← s.exec cap (.pushItemsBack events)
  .ok s

/-- The first half of `push_backwards_pagination_events`: the position for the new gap, and the
events put in the place of the previous gap, or before the first event. -/
def insertPaginationEvents (prevGapId : Option ChunkIdentifier)
    (events : List Event) : Except Fault (Option Position × EventLinkedChunk Event Gap) :=
  match prevGapId with
  | some gapId => do
    let (r, s) ← s.replaceGapAt cap gapId events
    let position ← expect r
    .ok (position, s)
  | none =>
    match s.events.head?.map Prod.fst with
    | some pos => do
      let s ← s.execExpect cap (.insertItemsAt pos events)
      .ok (some pos, s)
    | none => do
      let (_, s) ← s.exec cap (.pushItemsBack events)
      .ok (s.events.head?.map Prod.fst, s)

/-- The second half of `push_backwards_pagination_events`. -/
def insertPaginationGap (newGap : Option Gap) (insertNewGapPos : Option Position) :
    Except Fault (EventLinkedChunk Event Gap) :=
  match newGap with
  | none => .ok s
  | some newGap =>
    match insertNewGapPos with
    | some newPos => s.execExpect cap (.insertGapAt newGap newPos)
    | none => do
      let (_, s) ← s.exec cap (.pushGapBack newGap)
      .ok s

/-- The events of a back-pagination, and whether the start of the timeline is reached. -/
def pushBackwardsPaginationEvents (prevGapId : Option ChunkIdentifier)
    (newGap : Option Gap) (events : List Event) : Except Fault (Bool × EventLinkedChunk Event Gap) := do
  let s := s.touch
  let (insertNewGapPos, s) ← s.insertPaginationEvents cap prevGapId events
  let s ← s.insertPaginationGap cap newGap insertNewGapPos
  let hasNewGap := newGap.isSome
  let hasGaps := s.plainChunks.any fun c =>
    match c.content with
    | .gap _ => true
    | .items _ => false
  -- `is_definitive_head` of the first chunk
  let firstChunkIsDefinitiveHead := s.chunks.chunks.head?.map fun c => c.lazyPrevious.isNone
  let networkReachedStart := !hasNewGap
  .ok (!hasGaps && firstChunkIsDefinitiveHead.getD networkReachedStart, s)

/-- The chunks are replaced by the last stored one; these updates do not go to the store. -/
def shrinkToLastReloadedChunk (lastChunk : Option (RawChunk Event Gap))
    (generator : ChunkIdentifierGenerator) : Except LazyLoaderError Unit × EventLinkedChunk Event Gap :=
  let (r, chunks, updates) := s.chunks.replaceWith cap lastChunk generator
  match r with
  | .ok () => (.ok (), ⟨chunks, []⟩)
  | .error e => (.error e, ⟨chunks, s.updates ++ updates⟩)

def insertNewChunkAsFirst (chunk : RawChunk Event Gap) :
    Except LazyLoaderError Unit × EventLinkedChunk Event Gap :=
  let (r, chunks, updates) := s.chunks.insertNewFirstChunk cap chunk
  (r, ⟨chunks, s.updates ++ updates⟩)

end EventLinkedChunk

end HaranaMatrix.EventCache
