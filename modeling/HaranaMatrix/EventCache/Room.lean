import HaranaMatrix.EventCache.EventLinkedChunk

/-!
# The event cache of a room

The state of a room is its linked chunk in memory and the chunks in the store. A sync and a
back-pagination give events, which are compared with those that the store has; chunks are loaded,
unloaded and purged. The store is the list of its chunks; what it answers when it is asked for the
positions of events is a parameter. Of an event only what the cache looks at is kept; read receipts,
observers and the status of paginations are left out. -/

namespace HaranaMatrix.EventCache

open Linked

variable {Event EventId UserId Gap : Type} [RoomEvent Event EventId UserId] [DecidableEq EventId]
  [DecidableEq UserId]

open RoomEvent (eventId sender timestamp redactionTarget redacted bundledLatestThreadEvent)

/-- A panic, or an error of the store. -/
inductive EventCacheError
  | fault (fault : Fault)
  | storage
deriving DecidableEq

/-- The timeline of a room in the response of a sync. -/
structure Timeline (Event Gap : Type) where
  events : List Event
  limited : Bool
  prevBatch : Option Gap

/-- `filter_duplicated_events` of the store. -/
abbrev DuplicateFilter (Event EventId Gap : Type) :=
  List (PlainChunk Event Gap) → List EventId → List (EventId × Position)

/-! ## The deduplicator -/

structure DeduplicationOutcome (Event EventId : Type) where
  allEvents : List Event
  inMemoryDuplicatedEventIds : List (EventId × Position)
  inStoreDuplicatedEventIds : List (EventId × Position)
  nonEmptyAllDuplicates : Bool

/-- The events with an identifier that is not in `seen`, the first ones of each identifier. -/
def retainNew (seen : List EventId) : List Event → List Event
  | [] => []
  | event :: events =>
    match eventId event with
    | none => retainNew seen events
    | some id => if id ∈ seen then retainNew seen events else event :: retainNew (id :: seen) events

/-- The indices of the events in memory; none as soon as one of them is not there. -/
def ordersOf (indices : List (EventId × ℕ)) : List Event → Option (List ℕ)
  | [] => some []
  | event :: events =>
    match eventId event with
    | none => ordersOf indices events
    | some id => do
      let index ← indices.lookup id
      let orders ← ordersOf indices events
      return index :: orders

def duplicatesAreOrderedLikeTheLinkedChunk (newEvents : List Event)
    (inStoreDuplicatedEventIds : List (EventId × Position))
    (linkedChunk : EventLinkedChunk Event Gap) : Bool :=
  if !inStoreDuplicatedEventIds.isEmpty then true
  else
    -- in a map the last one of an identifier counts
    let indices := (linkedChunk.events.zipIdx.filterMap fun x => (eventId x.1.2).map fun id => (id, x.2)).reverse
    match ordersOf indices newEvents with
    | none => true
    | some orders =>
      ((orders.zip orders.tail).all fun pair => decide (pair.1 < pair.2)) ||
        (orders.zip orders.tail).all fun pair => decide (pair.2 < pair.1)

def filterDuplicateEvents (ownUserId : UserId) (filter : DuplicateFilter Event EventId Gap)
    (store : List (PlainChunk Event Gap)) (linkedChunk : EventLinkedChunk Event Gap)
    (newEvents : List Event) :
    DeduplicationOutcome Event EventId :=
  let newEvents := retainNew [] newEvents
  let duplicatedEventIds := filter store (newEvents.filterMap eventId)
  let inMemoryChunkIdentifiers := ids linkedChunk.plainChunks
  let inMemory := duplicatedEventIds.filter fun x => x.2.chunkIdentifier ∈ inMemoryChunkIdentifiers
  let inStore := duplicatedEventIds.filter fun x => x.2.chunkIdentifier ∉ inMemoryChunkIdentifiers
  let atLeastOneEventNotSentByMe := newEvents.any fun event => (sender event).any fun s => s ≠ ownUserId
  let allDuplicates := inMemory.length + inStore.length = newEvents.length
  ⟨newEvents, inMemory, inStore,
    atLeastOneEventNotSentByMe && decide allDuplicates &&
      duplicatesAreOrderedLikeTheLinkedChunk newEvents inStore linkedChunk⟩

/-! ## The state of a room -/

structure RoomEventCacheState (Event Gap : Type) where
  roomLinkedChunk : EventLinkedChunk Event Gap
  store : List (PlainChunk Event Gap)

/-- Where an event was found. -/
inductive EventLocation
  | memory (position : Position)
  | store

namespace RoomEventCacheState

variable (cap : ℕ)

/-- A room without events. -/
def empty : RoomEventCacheState Event Gap := ⟨.new, []⟩

variable (s : RoomEventCacheState Event Gap)

/-- The state after its linked chunk was looked at. -/
def touch : RoomEventCacheState Event Gap :=
  { s with roomLinkedChunk := s.roomLinkedChunk.touch }

/-- A computation on the linked chunk. -/
def lift {α : Type} (x : Except Fault α) : Except EventCacheError α := x.mapError .fault

def sendUpdatesToStore (updates : List (Update Event Gap)) :
    Except EventCacheError (RoomEventCacheState Event Gap) :=
  match Stored.applyUpdates s.store updates with
  | some store => .ok { s with store }
  | none => .error .storage

def propagateChanges : Except EventCacheError (RoomEventCacheState Event Gap) :=
  sendUpdatesToStore { s with roomLinkedChunk := ⟨s.roomLinkedChunk.chunks, []⟩ } s.roomLinkedChunk.updates

/-- The first half of `remove_events`. -/
def removeInStore (inStoreEvents : List (EventId × Position)) :
    Except EventCacheError (RoomEventCacheState Event Gap) :=
  if inStoreEvents.isEmpty then .ok s
  else
    s.sendUpdatesToStore ((EventLinkedChunk.sortPositionsDescending (inStoreEvents.map Prod.snd)).map .removeItem)

/-- The second half of `remove_events`. -/
def removeInMemory (inMemoryEvents : List (EventId × Position)) :
    Except EventCacheError (RoomEventCacheState Event Gap) :=
  if inMemoryEvents.isEmpty then .ok s
  else do
    let (r, chunk) ← lift (s.roomLinkedChunk.removeEventsByPosition cap (inMemoryEvents.map Prod.snd))
    let _ ← lift (EventLinkedChunk.expect r)
    propagateChanges { s with roomLinkedChunk := chunk }

def removeEvents (inMemoryEvents inStoreEvents : List (EventId × Position)) :
    Except EventCacheError (RoomEventCacheState Event Gap) := do
  let s ← s.removeInStore inStoreEvents
  s.removeInMemory cap inMemoryEvents

/-! ### Redactions -/

def findEvent (id : EventId) : Option (EventLocation × Event) :=
  match s.roomLinkedChunk.events.reverse.find? fun x => eventId x.2 = some id with
  | some (position, event) => some (.memory position, event)
  | none => ((flatten s.store).find? fun event => eventId event = some id).map fun event => (.store, event)

/-- `save_event` of the store: the version of the event in its chunk is replaced. What is in no
chunk is of no use to the cache. -/
def saveEvent (event : Event) : RoomEventCacheState Event Gap :=
  match eventId event with
  | none => s
  | some id => { s with store := s.store.map (Stored.mapItems fun x => if eventId x = some id then event else x) }

def replaceEventAt (location : EventLocation) (event : Event) :
    Except EventCacheError (RoomEventCacheState Event Gap) :=
  match location with
  | .memory position => do
    let (r, chunk) ← lift (s.roomLinkedChunk.replaceEventAt cap position event)
    let _ ← lift (EventLinkedChunk.expect r)
    propagateChanges { s with roomLinkedChunk := chunk }
  | .store => .ok (s.saveEvent event)

def maybeApplyNewRedaction (event : Event) : Except EventCacheError (RoomEventCacheState Event Gap) :=
  match redactionTarget event with
  | none => .ok s
  | some targetEventId =>
    match s.findEvent targetEventId with
    | none => .ok s
    | some (location, targetEvent) =>
      match redacted targetEvent event with
      | none => .ok s
      | some redactedEvent => s.replaceEventAt cap location redactedEvent

/-- Only the store gets the bundled event of a thread; the version in memory, if there is one,
stays. -/
def postProcessUpsertedEvents (events : List Event) :
    Except EventCacheError (RoomEventCacheState Event Gap) :=
  events.foldlM (fun s event => do
    let s ← s.maybeApplyNewRedaction cap event
    return match bundledLatestThreadEvent event with
      | some bundledThread => s.saveEvent bundledThread
      | none => s) s

/-! ### Loading and unloading -/

def shrinkToLastReloadedChunk : Except EventCacheError (RoomEventCacheState Event Gap) :=
  let (lastChunk, generator) := Stored.loadLastChunk s.store
  match s.roomLinkedChunk.shrinkToLastReloadedChunk cap lastChunk generator with
  | (.ok (), chunk) => .ok { s with roomLinkedChunk := chunk }
  | (.error _, chunk) => propagateChanges { s with roomLinkedChunk := chunk.reset }

/-- With a gap in memory, or without a previous chunk, nothing is loaded. -/
def loadMoreEventsBackwards : Except EventCacheError (RoomEventCacheState Event Gap) :=
  let s := s.touch
  match s.roomLinkedChunk.rgap with
  | some _ => .ok s
  | none =>
    match s.roomLinkedChunk.plainChunks.head? with
    | none => .ok s
    | some prevFirstChunk =>
      match Stored.loadPreviousChunk s.store prevFirstChunk.identifier with
      | none => .ok s
      | some newFirstChunk =>
        match s.roomLinkedChunk.insertNewChunkAsFirst cap newFirstChunk with
        | (.ok (), chunk) => .ok { s with roomLinkedChunk := ⟨chunk.chunks, []⟩ }
        | (.error _, _) => .error .storage

/-- `reload` that forgets all events -/
def forgetAll : Except EventCacheError (RoomEventCacheState Event Gap) := do
  let s ← propagateChanges { s with roomLinkedChunk := s.roomLinkedChunk.reset }
  s.shrinkToLastReloadedChunk cap

/-! ### Purging -/

/-- The events that were sent before `cutoff`, up to the first one that was not. Events without a
timestamp or an identifier are kept. -/
def expired (cutoff : ℕ) : List (Position × Event) → List (EventId × Position)
  | [] => []
  | (position, event) :: events =>
    match timestamp event with
    | none => expired cutoff events
    | some t =>
      if cutoff ≤ t then []
      else
        match eventId event with
        | none => expired cutoff events
        | some id => (id, position) :: expired cutoff events

def purgeEventsOlderThan (cutoff : ℕ) : Except EventCacheError (RoomEventCacheState Event Gap) :=
  if s.store.isEmpty then .ok s
  else
    let s := s.touch
    let inMemoryChunks := ids s.roomLinkedChunk.plainChunks
    let expired := expired cutoff (positioned s.store)
    let inMemoryExpired := expired.filter fun x => x.2.chunkIdentifier ∈ inMemoryChunks
    let inStoreExpired := expired.filter fun x => x.2.chunkIdentifier ∉ inMemoryChunks
    if expired.isEmpty then .ok s else s.removeEvents cap inMemoryExpired inStoreExpired

def inMemoryEventsSentBy (sentBy : UserId → Bool) : List (EventId × Position) :=
  (s.roomLinkedChunk.events.filter fun x => (sender x.2).any sentBy).filterMap fun x =>
    (eventId x.2).map fun id => (id, x.1)

/-- The stored events of the senders in `sentBy` that are not in memory; `roomEvents` is the answer of
`get_room_events`. -/
def inStoreEventsSentBy (filter : DuplicateFilter Event EventId Gap) (roomEvents : List Event)
    (s : RoomEventCacheState Event Gap) (sentBy : UserId → Bool) : List (EventId × Position) :=
  let storedEventIds := (roomEvents.filter fun event => (sender event).any sentBy).filterMap eventId
  if storedEventIds.isEmpty then []
  else (filter s.store storedEventIds).filter fun x => x.2.chunkIdentifier ∉ ids s.roomLinkedChunk.plainChunks

def removeEventsSentBy (filter : DuplicateFilter Event EventId Gap) (roomEvents : List Event)
    (s : RoomEventCacheState Event Gap) (sentBy : UserId → Bool) :
    Except EventCacheError (RoomEventCacheState Event Gap) :=
  let s := s.touch
  let inMemoryEvents := s.inMemoryEventsSentBy sentBy
  let inStoreEvents := s.inStoreEventsSentBy filter roomEvents sentBy
  if inMemoryEvents.isEmpty && inStoreEvents.isEmpty then .ok s
  else s.removeEvents cap inMemoryEvents inStoreEvents

/-! ### Syncs and paginations -/

section Network

variable (ownUserId : UserId) (filter : DuplicateFilter Event EventId Gap)

/-- The loop of `handle_sync` over the events that stay in place. -/
def replaceInPlace (s : EventLinkedChunk Event Gap) :
    List (Position × Event) → Except Fault (EventLinkedChunk Event Gap)
  | [] => .ok s
  | (position, event) :: inPlace => do
    let (r, s) ← s.replaceEventAt cap position event
    let _ ← EventLinkedChunk.expect r
    replaceInPlace s inPlace

variable (s : RoomEventCacheState Event Gap)

/-- The rest of `handle_sync` when there is something new, up to the post-processing. -/
def insertSynced (outcome : DeduplicationOutcome Event EventId)
    (prevBatchToken : Option Gap) : Except EventCacheError (RoomEventCacheState Event Gap) := do
  let events := outcome.allEvents
  let inPlace := if prevBatchToken.isNone then s.roomLinkedChunk.commonTailWith events else []
  let inMemory := outcome.inMemoryDuplicatedEventIds.filter fun x => x.2 ∉ inPlace
  let chunk ← lift (replaceInPlace cap s.roomLinkedChunk (inPlace.zip events))
  let s ← removeEvents cap { s with roomLinkedChunk := chunk } inMemory outcome.inStoreDuplicatedEventIds
  let chunk ← lift (s.roomLinkedChunk.pushLiveEvents cap prevBatchToken (events.drop inPlace.length))
  propagateChanges { s with roomLinkedChunk := chunk }

/-- Whether a new gap was inserted, and the state. -/
def handleSync (timeline : Timeline Event Gap) :
    Except EventCacheError (Bool × RoomEventCacheState Event Gap) := do
  let s := s.touch
  let outcome := filterDuplicateEvents ownUserId filter s.store s.roomLinkedChunk timeline.events
  let prevBatchToken :=
    if (!timeline.limited && !s.roomLinkedChunk.events.isEmpty) || outcome.nonEmptyAllDuplicates then none
    else timeline.prevBatch
  if outcome.nonEmptyAllDuplicates then return (false, s)
  let hasNewGap := prevBatchToken.isSome
  let s ← s.insertSynced cap outcome prevBatchToken
  let s ← s.postProcessUpsertedEvents cap outcome.allEvents
  let s ← if timeline.limited && hasNewGap then s.shrinkToLastReloadedChunk cap else pure s
  return (hasNewGap, s)

/-- The gap of a token, the first one in memory. -/
def findGap [DecidableEq Gap] (s : RoomEventCacheState Event Gap) (token : Gap) : Option ChunkIdentifier :=
  (s.roomLinkedChunk.plainChunks.find? fun c =>
    match c.content with
    | .gap gap => decide (gap = token)
    | .items _ => false).map (·.identifier)

/-- The end of `conclude_backwards_pagination_from_network`. -/
def pushPaginated (prevGapId : Option ChunkIdentifier) (newToken : Option Gap)
    (topoOrderedEvents : List Event) : Except EventCacheError (Bool × RoomEventCacheState Event Gap) := do
  let (reachedStart, chunk) ←
    lift (s.roomLinkedChunk.pushBackwardsPaginationEvents cap prevGapId newToken topoOrderedEvents)
  let s ← propagateChanges { s with roomLinkedChunk := chunk }
  let s ← s.postProcessUpsertedEvents cap topoOrderedEvents
  return (reachedStart, s)

/-- The rest of `conclude_backwards_pagination_from_network`, once the previous gap is found. -/
def insertPaginated (prevGapId : Option ChunkIdentifier) (events : List Event)
    (newToken : Option Gap) : Except EventCacheError (Bool × RoomEventCacheState Event Gap) := do
  let outcome := filterDuplicateEvents ownUserId filter s.store s.roomLinkedChunk events
  if outcome.nonEmptyAllDuplicates then
    -- the events and the new gap are ignored
    s.pushPaginated cap prevGapId none []
  else
    let s ← s.removeEvents cap outcome.inMemoryDuplicatedEventIds outcome.inStoreDuplicatedEventIds
    s.pushPaginated cap prevGapId newToken outcome.allEvents.reverse

/-- `none` if the gap of the pagination is gone. -/
def concludeBackwardsPaginationFromNetwork [DecidableEq Gap] (s : RoomEventCacheState Event Gap)
    (events : List Event) (prevToken newToken : Option Gap) :
    Except EventCacheError (Option Bool × RoomEventCacheState Event Gap) :=
  let s := s.touch
  match prevToken with
  | none => do
    let (reachedStart, s) ← s.insertPaginated cap ownUserId filter none events newToken
    return (some reachedStart, s)
  | some token =>
    match s.findGap token with
    | none => .ok (none, s)
    | some gapId => do
      let (reachedStart, s) ← s.insertPaginated cap ownUserId filter (some gapId) events newToken
      return (some reachedStart, s)

end Network

end RoomEventCacheState

end HaranaMatrix.EventCache
