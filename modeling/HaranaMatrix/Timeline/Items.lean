import Mathlib

/-!
# Timeline items and their remote events

`ObservableItems` holds the items of a timeline and, beside them, the remote events they are made from. An event that
is shown has the index of its item, and the indices are shifted as items are inserted and removed. An operation that
panics returns `none`. The content of an event item is a parameter.
-/

namespace HaranaMatrix.Timeline

abbrev EventId := String
abbrev TransactionId := String
abbrev UserId := String
abbrev TimelineUniqueId := String
abbrev Timestamp := ℕ

/-- `EventTimelineItemKind`; a local echo that was sent knows the ID of its event. -/
inductive EventItemKind
  | localEcho (transactionId : TransactionId) (sent : Option EventId)
  | remote (eventId : EventId) (transactionId : Option TransactionId)
deriving DecidableEq

/-- `EventTimelineItem` -/
structure EventItem (C : Type) where
  sender : UserId
  timestamp : Timestamp
  content : C
  kind : EventItemKind
deriving DecidableEq

/-- `TimelineItemKind`, with the virtual items -/
inductive ItemKind (C : Type)
  | event (event : EventItem C)
  | dateDivider (ts : Timestamp)
  | readMarker
  | timelineStart
deriving DecidableEq

structure TimelineItem (C : Type) where
  kind : ItemKind C
  internalId : TimelineUniqueId
deriving DecidableEq

variable {C : Type}

namespace TimelineItem

variable (item : TimelineItem C)

def asEvent : Option (EventItem C) :=
  match item.kind with
  | .event event => some event
  | _ => none

def isEvent : Bool := item.asEvent.isSome

def isDateDivider : Bool :=
  match item.kind with
  | .dateDivider _ => true
  | _ => false

def isReadMarker : Bool :=
  match item.kind with
  | .readMarker => true
  | _ => false

def isTimelineStart : Bool :=
  match item.kind with
  | .timelineStart => true
  | _ => false

variable (kind : ItemKind C) (id : TimelineUniqueId)

@[simp] lemma isEvent_mk : isEvent ⟨kind, id⟩ = (kind matches .event _) := by cases kind <;> rfl

@[simp] lemma isDateDivider_mk : isDateDivider ⟨kind, id⟩ = (kind matches .dateDivider _) := rfl

@[simp] lemma isTimelineStart_mk : isTimelineStart ⟨kind, id⟩ = (kind matches .timelineStart) := rfl

end TimelineItem

/-! ## All remote events -/

structure EventMeta where
  eventId : EventId
  visible : Bool
  canShowReadReceipts : Bool
  timelineItemIndex : Option ℕ
deriving DecidableEq

abbrev AllRemoteEvents := List EventMeta

namespace AllRemoteEvents

/-- The loop from back to front, on the reversed list: it stops at the first index below the new
one. -/
def incrementFrom (newTimelineItemIndex : ℕ) : List EventMeta → List EventMeta
  | [] => []
  | event :: rest =>
    match event.timelineItemIndex with
    | none => event :: incrementFrom newTimelineItemIndex rest
    | some index =>
      if newTimelineItemIndex ≤ index then
        { event with timelineItemIndex := some (index + 1) } :: incrementFrom newTimelineItemIndex rest
      else event :: rest

variable (events : AllRemoteEvents)

def incrementAllTimelineItemIndexAfter (newTimelineItemIndex : ℕ) : AllRemoteEvents :=
  (incrementFrom newTimelineItemIndex events.reverse).reverse

def decrementFrom (removedTimelineItemIndex : ℕ) : List EventMeta → List EventMeta
  | [] => []
  | event :: rest =>
    match event.timelineItemIndex with
    | none => event :: decrementFrom removedTimelineItemIndex rest
    | some index =>
      if removedTimelineItemIndex < index then
        { event with timelineItemIndex := some (index - 1) } :: decrementFrom removedTimelineItemIndex rest
      else event :: rest

def decrementAllTimelineItemIndexAfter (removedTimelineItemIndex : ℕ) : AllRemoteEvents :=
  (decrementFrom removedTimelineItemIndex events.reverse).reverse

/-- The other indices make room for the one of a new event. -/
def makeRoom (event : EventMeta) : AllRemoteEvents :=
  match event.timelineItemIndex with
  | some index => events.incrementAllTimelineItemIndexAfter index
  | none => events

def pushFront (event : EventMeta) : AllRemoteEvents := event :: makeRoom events event

def pushBack (event : EventMeta) : AllRemoteEvents := makeRoom events event ++ [event]

def insert (eventIndex : ℕ) (event : EventMeta) : Option AllRemoteEvents :=
  if eventIndex ≤ events.length then some ((makeRoom events event).insertIdx eventIndex event) else none

def remove (eventIndex : ℕ) : AllRemoteEvents :=
  match events[eventIndex]? with
  | none => events
  | some event =>
    match event.timelineItemIndex with
    | some index => decrementAllTimelineItemIndexAfter (events.eraseIdx eventIndex) index
    | none => events.eraseIdx eventIndex

def timelineItemHasBeenInsertedAt (newTimelineItemIndex : ℕ) (eventIndex : Option ℕ) : AllRemoteEvents :=
  let events := events.incrementAllTimelineItemIndexAfter newTimelineItemIndex
  match eventIndex with
  | none => events
  | some eventIndex => events.modify eventIndex fun event => { event with timelineItemIndex := some newTimelineItemIndex }

def indexAfterRemoval (removed index : ℕ) : Option ℕ :=
  if index = removed then none else if removed < index then some (index - 1) else some index

def timelineItemHasBeenRemovedAt (removed : ℕ) : AllRemoteEvents :=
  events.map fun event => { event with timelineItemIndex := event.timelineItemIndex.bind (indexAfterRemoval removed) }

/-! ### Adding and removing -/

lemma length_incrementFrom (index : ℕ) : (incrementFrom index events).length = events.length := by
  fun_induction incrementFrom index events <;> simp_all

/-- Both loops stop at the same event. -/
lemma decrementFrom_incrementFrom (index : ℕ) :
    decrementFrom index (incrementFrom index events) = events := by
  fun_induction incrementFrom index events with
  | case1 => rfl
  | case2 event rest hnone ih => simp [decrementFrom, hnone, ih]
  | case3 event rest i hi hle ih => simp [decrementFrom, Nat.lt_succ_of_le hle, ih, ← hi]
  | case4 event rest i hi hle => simp [decrementFrom, hi, Nat.le_of_not_le hle]

variable (event : EventMeta)

lemma length_makeRoom : (makeRoom events event).length = events.length := by
  unfold makeRoom
  split <;> simp [incrementAllTimelineItemIndexAfter, length_incrementFrom]

lemma remove_insertIdx {i : ℕ} (hi : i ≤ events.length) :
    remove ((makeRoom events event).insertIdx i event) i = events := by
  rw [← length_makeRoom events event] at hi
  simp only [remove, List.getElem?_insertIdx_self, hi, if_true, List.eraseIdx_insertIdx_self]
  unfold makeRoom
  split
  · simp [decrementAllTimelineItemIndexAfter, incrementAllTimelineItemIndexAfter, decrementFrom_incrementFrom]
  · rfl

/-- **A remote event that is added and removed again leaves no trace** in the indices of the
others. -/
theorem remove_added : (events.pushFront event).remove 0 = events ∧
    (events.pushBack event).remove events.length = events ∧
    ∀ i events', events.insert i event = some events' → events'.remove i = events := by
  refine ⟨remove_insertIdx events event (Nat.zero_le _), ?_, fun i events' h => ?_⟩
  · rw [pushBack, ← List.insertIdx_length_self, length_makeRoom]
    exact remove_insertIdx events event le_rfl
  · obtain ⟨hi, h⟩ := Option.ite_none_right_eq_some.1 h
    cases h
    exact remove_insertIdx events event hi

end AllRemoteEvents

/-! ## Items -/

structure ObservableItems (C : Type) where
  items : List (TimelineItem C)
  allRemoteEvents : AllRemoteEvents

namespace ObservableItems

variable (o : ObservableItems C)

def replace (index : ℕ) (item : TimelineItem C) : Option (ObservableItems C) :=
  if index < o.items.length then some { o with items := o.items.set index item } else none

/-- The item that was removed is returned as well. -/
def remove (index : ℕ) : Option (TimelineItem C × ObservableItems C) :=
  match o.items[index]? with
  | some item => some (item, ⟨o.items.eraseIdx index, o.allRemoteEvents.timelineItemHasBeenRemovedAt index⟩)
  | none => none

def insert (index : ℕ) (item : TimelineItem C) (eventIndex : Option ℕ) : Option (ObservableItems C) :=
  if index ≤ o.items.length then
    some ⟨o.items.insertIdx index item, o.allRemoteEvents.timelineItemHasBeenInsertedAt index eventIndex⟩
  else none

variable (item : TimelineItem C)

def pushFront (eventIndex : Option ℕ) : ObservableItems C :=
  ⟨item :: o.items, o.allRemoteEvents.timelineItemHasBeenInsertedAt 0 eventIndex⟩

def pushBack (eventIndex : Option ℕ) : ObservableItems C :=
  ⟨o.items ++ [item], o.allRemoteEvents.timelineItemHasBeenInsertedAt o.items.length eventIndex⟩

def firstRemotesRegionIndex : ℕ := if o.items.head?.any (·.isTimelineStart) then 1 else 0

def pushDateDivider (index : ℕ) (item : TimelineItem C) : Option (ObservableItems C) :=
  if ¬ item.isDateDivider then none
  else if index = 0 ∧ o.items.head?.any (·.isTimelineStart) then none
  else if index = o.items.length then some (o.pushBack item none)
  else if index = 0 then some (o.pushFront item none)
  else o.insert index item none

/-! ### Regions -/

/-- The items with their indices. -/
def enumerate : List (ℕ × TimelineItem C) := o.items.zipIdx.map Prod.swap

def iterRemotesAndLocalsRegions : List (ℕ × TimelineItem C) :=
  o.enumerate.drop o.firstRemotesRegionIndex

end ObservableItems

/-! ## Metadata -/

/-- `A` has the aggregations of the timeline. -/
structure TimelineMetadata (A : Type) where
  internalIdPrefix : Option String
  nextInternalId : ℕ
  ownUserId : UserId
  aggregations : A
  fullyReadEvent : Option EventId
  hasUpToDateReadMarkerItem : Bool

namespace TimelineMetadata

variable {A : Type}

variable (metadata : TimelineMetadata A)

/-- The next internal ID; the counter has 64 bits and wraps. -/
def takeInternalId : TimelineUniqueId × TimelineMetadata A :=
  (metadata.internalIdPrefix.getD "" ++ toString metadata.nextInternalId,
    { metadata with nextInternalId := (metadata.nextInternalId + 1) % 2 ^ 64 })

def newTimelineItem (kind : ItemKind C) : TimelineItem C × TimelineMetadata A :=
  (⟨kind, metadata.takeInternalId.1⟩, metadata.takeInternalId.2)

end TimelineMetadata

end HaranaMatrix.Timeline
