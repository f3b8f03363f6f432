import Mathlib.Data.Finset.Card
import Mathlib.Data.List.Sort

/-!
# The pinned events and the pinned list

The listener task of the pinned events starts from the stored events and follows the pinned list of
the room. Pinned events are loaded with their edits and annotations, and held together with them in
one linked chunk; the task looks at the identifiers in it to find out whether a new list has to be
loaded. -/

namespace HaranaMatrix.EventCache.PinnedEvents

open List

abbrev EventId := String

structure Event where
  eventId : EventId
  timestampRaw : Option ℕ

def compareByOptionalTimestamp : Option ℕ → Option ℕ → Ordering
  | none, none => .eq
  | none, some _ => .gt
  | some _, none => .lt
  | some a, some b => compare a b

def comparePinnedItems (a b : Event) : Ordering := compareByOptionalTimestamp a.timestampRaw b.timestampRaw

def currentEventIds (chunk : List Event) : List EventId := chunk.map (·.eventId)

/-- What is asked of the room. Concurrent requests are answered in any order. -/
structure Room where
  maxPinnedEventsToLoad : ℕ
  loadOrFetchEventWithRelations : EventId → Option (Event × List Event)
  bufferUnordered : List EventId → List EventId
  bufferUnordered_perm : ∀ eventIds, bufferUnordered eventIds ~ eventIds

def replaceAllEvents (chunk newEvents : List Event) : List Event :=
  if (currentEventIds newEvents).toFinset = (currentEventIds chunk).toFinset then chunk
  else (if chunk.isEmpty then chunk else []) ++ newEvents

namespace Room

variable (room : Room)

def targetAndRelations (eventId : EventId) : List Event :=
  match room.loadOrFetchEventWithRelations eventId with
  | some (target, relations) => target :: relations
  | none => []

/-- It fails if no event could be loaded. -/
def reloadPinnedEvents (pinned : List EventId) : Option (List Event) :=
  let pinnedEventIds := (pinned.reverse.take room.maxPinnedEventsToLoad).reverse
  if pinnedEventIds.isEmpty then some []
  else
    let loadedEvents := (room.bufferUnordered pinnedEventIds).flatMap room.targetAndRelations
    if loadedEvents.isEmpty then none
    else some (loadedEvents.insertionSort fun a b => (comparePinnedItems a b).isLE)

def reloadFromNetwork (pinned : List EventId) (chunk : List Event) : List Event :=
  match room.reloadPinnedEvents pinned with
  | some events => replaceAllEvents chunk events
  | none => chunk

/-- The task has reloaded the stored events. -/
def start (actualPinnedEvents : List EventId) (chunk : List Event) : List Event :=
  let reloadedSet := (currentEventIds chunk).toFinset
  if actualPinnedEvents.length ≠ reloadedSet.card ∨ ∃ eventId ∈ actualPinnedEvents, eventId ∉ reloadedSet then
    room.reloadFromNetwork actualPinnedEvents chunk
  else chunk

/-- The stream has yielded a list, and `pinned` is that of the room by now. -/
def handleUpdate (newList pinned : List EventId) (chunk : List Event) : List Event :=
  if newList ≠ [] ∧ ∀ eventId ∈ newList, eventId ∈ (currentEventIds chunk).toFinset then chunk
  else room.reloadFromNetwork pinned chunk

def pinnedEventListenerTask (stored : List Event) (actualPinnedEvents : List EventId)
    (updates : List (List EventId × List EventId)) : List Event :=
  updates.foldl (fun chunk update => room.handleUpdate update.1 update.2 chunk) (room.start actualPinnedEvents stored)

/-! ## The events of a list -/

/-- **The chunk follows the list**: it has its events, with what was loaded for them, each once, and
no other. -/
structure Follows (pinned : List EventId) (chunk : List Event) : Prop where
  nodup : (currentEventIds chunk).Nodup
  mem_iff : ∀ eventId, eventId ∈ currentEventIds chunk ↔ eventId ∈ pinned ∨
    ∃ target ∈ pinned, ∃ loaded ∈ room.loadOrFetchEventWithRelations target, ∃ event ∈ loaded.2, event.eventId = eventId

/-- Every load succeeds, and the list is not cut. -/
structure Loads (pinned : List EventId) : Prop where
  length_le : pinned.length ≤ room.maxPinnedEventsToLoad
  loaded : ∀ eventId ∈ pinned, ∃ loaded ∈ room.loadOrFetchEventWithRelations eventId, loaded.1.eventId = eventId

def loadedIds (pinned : List EventId) : List EventId :=
    currentEventIds (pinned.flatMap room.targetAndRelations)

variable {room} {pinned : List EventId} {chunk : List Event}

lemma mem_loadedIds (h : room.Loads pinned) {eventId : EventId} : eventId ∈ room.loadedIds pinned ↔
    eventId ∈ pinned ∨ ∃ target ∈ pinned, ∃ loaded ∈ room.loadOrFetchEventWithRelations target,
      ∃ event ∈ loaded.2, event.eventId = eventId := by
  simp only [loadedIds, currentEventIds, mem_map, mem_flatMap]
  constructor
  · rintro ⟨event, ⟨target, ht, he⟩, rfl⟩
    obtain ⟨loaded, hl, hid⟩ := h.loaded target ht
    rw [targetAndRelations, Option.mem_def.1 hl] at he
    rcases mem_cons.1 he with rfl | he
    · exact .inl (hid ▸ ht)
    · exact .inr ⟨target, ht, loaded, hl, event, he, rfl⟩
  · rintro (hp | ⟨target, ht, loaded, hl, event, he, rfl⟩)
    · obtain ⟨loaded, hl, hid⟩ := h.loaded eventId hp
      exact ⟨loaded.1, ⟨eventId, hp, by rw [targetAndRelations, Option.mem_def.1 hl]; exact mem_cons_self⟩, hid⟩
    · exact ⟨event, ⟨target, ht, by rw [targetAndRelations, Option.mem_def.1 hl]; exact mem_cons_of_mem _ he⟩, rfl⟩

lemma follows_iff (h : room.Loads pinned) : room.Follows pinned chunk ↔
    (currentEventIds chunk).Nodup ∧ (currentEventIds chunk).toFinset = (room.loadedIds pinned).toFinset := by
  simp only [Finset.ext_iff, mem_toFinset, mem_loadedIds h]
  exact ⟨fun h => ⟨h.nodup, h.mem_iff⟩, fun h => ⟨h.1, h.2⟩⟩

/-- What is loaded is the list with its relations, in some order. -/
lemma reloadPinnedEvents_eq (h : room.Loads pinned) :
    ∃ events, room.reloadPinnedEvents pinned = some events ∧
      currentEventIds events ~ room.loadedIds pinned := by
  have htake : (pinned.reverse.take room.maxPinnedEventsToLoad).reverse = pinned := by
    rw [take_of_length_le (by simpa using h.length_le), reverse_reverse]
  have hperm := (room.bufferUnordered_perm pinned).flatMap_right room.targetAndRelations
  rw [reloadPinnedEvents, htake]
  cases pinned with
  | nil => exact ⟨[], rfl, .refl _⟩
  | cons eventId rest =>
    obtain ⟨loaded, hl, -⟩ := h.loaded eventId mem_cons_self
    have hne : ((room.bufferUnordered (eventId :: rest)).flatMap room.targetAndRelations).isEmpty = false := by
      rw [hperm.isEmpty_eq, flatMap_cons, targetAndRelations, Option.mem_def.1 hl]
      rfl
    refine ⟨_, by rw [isEmpty_cons, if_neg Bool.false_ne_true]; simp only [hne]; rfl, ?_⟩
    exact ((perm_insertionSort _ _).trans hperm).map _

lemma follows_reloadFromNetwork (h : room.Loads pinned) :
    room.Follows pinned (room.reloadFromNetwork pinned chunk) ↔
    room.Follows pinned chunk ∨ (currentEventIds chunk).toFinset ≠ (room.loadedIds pinned).toFinset ∧
      (room.loadedIds pinned).Nodup := by
  obtain ⟨events, heq, hperm⟩ := reloadPinnedEvents_eq h
  have hset := toFinset_eq_of_perm _ _ hperm
  simp only [reloadFromNetwork, heq, replaceAllEvents, hset, follows_iff h]
  split
  next hsame => simp [hsame]
  next hother =>
    have hnew : (if chunk.isEmpty then chunk else []) ++ events = events := by cases chunk <;> rfl
    rw [hnew, hset, hperm.nodup_iff]
    simp [Ne.symm hother]

/-- One of the events is missing. -/
def Misses (last : List EventId) (chunk : List Event) : Prop :=
    ∃ eventId ∈ last, eventId ∉ currentEventIds chunk

variable (room) in
/-- What is loaded has other events, none twice. -/
def Other (last : List EventId) (chunk : List Event) : Prop :=
  (currentEventIds chunk).toFinset ≠ (room.loadedIds last).toFinset ∧ (room.loadedIds last).Nodup

variable (room) in
/-- The list `next` after `prev` is loaded if it has other events. -/
def Reloads (prev next : List EventId) : Prop :=
  next = [] ∨ (∃ eventId ∈ next, eventId ∉ room.loadedIds prev) ∨
    (room.loadedIds prev).toFinset = (room.loadedIds next).toFinset

lemma follows_handleUpdate (h : room.Loads pinned) :
    room.Follows pinned (room.handleUpdate pinned pinned chunk) ↔
    room.Follows pinned chunk ∨ (pinned = [] ∨ Misses pinned chunk) ∧ room.Other pinned chunk := by
  have hskip : (pinned ≠ [] ∧ ∀ eventId ∈ pinned, eventId ∈ (currentEventIds chunk).toFinset) ↔
      ¬ (pinned = [] ∨ Misses pinned chunk) := by
    simp [Misses, not_or]
  rw [handleUpdate]
  split
  next hs => simp [hskip.1 hs]
  next hs =>
    rw [follows_reloadFromNetwork h, and_iff_right (not_not.1 (mt hskip.2 hs))]
    rfl

lemma follows_start (h : room.Loads pinned) : room.Follows pinned (room.start pinned chunk) ↔
    room.Follows pinned chunk ∨
      (pinned.length ≠ (currentEventIds chunk).toFinset.card ∨ Misses pinned chunk) ∧
        room.Other pinned chunk := by
  simp only [start, mem_toFinset]
  split
  next hs =>
    rw [follows_reloadFromNetwork h]
    exact or_congr_right (and_iff_right hs).symm
  next hs => rw [or_iff_left fun hr => hs hr.1]

/-- **From a chunk that follows the list before**, what comes depends on the lists. -/
lemma Follows.handleUpdate {prev : List EventId} (hf : room.Follows prev chunk) (hprev : room.Loads prev)
    (h : room.Loads pinned) (hn : (room.loadedIds pinned).Nodup) :
    room.Follows pinned (room.handleUpdate pinned pinned chunk) ↔ room.Reloads prev pinned := by
  obtain ⟨hnodup, hset⟩ := (follows_iff hprev).1 hf
  have hmem (eventId : EventId) : eventId ∈ currentEventIds chunk ↔ eventId ∈ room.loadedIds prev := by
    rw [← mem_toFinset, hset, mem_toFinset]
  rw [follows_handleUpdate h, follows_iff h]
  simp only [Misses, Other, Reloads, hset, hmem, hnodup, hn, true_and, and_true]
  by_cases hsame : (room.loadedIds prev).toFinset = (room.loadedIds pinned).toFinset <;> simp [hsame]

lemma Follows.run {prev : List EventId} {lists : List (List EventId)} (hf : room.Follows prev chunk)
    (h : ∀ pinned ∈ prev :: lists, room.Loads pinned ∧ (room.loadedIds pinned).Nodup)
    (hchain : (prev :: lists).IsChain room.Reloads) :
    room.Follows ((prev :: lists).getLast (cons_ne_nil _ _))
      (lists.foldl (fun chunk pinned => room.handleUpdate pinned pinned chunk) chunk) := by
  induction lists generalizing prev chunk with
  | nil => exact hf
  | cons next lists ih =>
    obtain ⟨hprev, hrest⟩ := forall_mem_cons.1 h
    obtain ⟨hreloads, hchain⟩ := isChain_cons_cons.1 hchain
    obtain ⟨hloads, hn⟩ := hrest next mem_cons_self
    exact ih ((hf.handleUpdate hprev.1 hloads hn).2 hreloads) hrest hchain

/-- **The pinned events follow the last list** exactly if they did before it, or the list is loaded,
it has other events, and no event is loaded twice. A later list is loaded if it is empty or one of
its events is missing, the first one also if it has another length. So, with nothing stored and no
event loaded twice, they follow the lists up to the first one that has lost events and has no new
one. -/
theorem pinnedEventListenerTask_follows_iff (room : Room) (stored : List Event) (first last : List EventId)
    (updates : List (List EventId × List EventId)) (h : room.Loads last) :
    let before := room.pinnedEventListenerTask stored first updates
    (room.Follows last (room.pinnedEventListenerTask stored first (updates ++ [(last, last)])) ↔
      room.Follows last before ∨ (last = [] ∨ Misses last before) ∧ room.Other last before) ∧
    (room.Follows last (room.pinnedEventListenerTask stored last []) ↔
      room.Follows last stored ∨
        (last.length ≠ (currentEventIds stored).toFinset.card ∨ Misses last stored) ∧
          room.Other last stored) ∧
    ∀ lists, (∀ pinned ∈ first :: lists, room.Loads pinned ∧ (room.loadedIds pinned).Nodup) →
      (first :: lists).IsChain room.Reloads → (room.loadedIds last).Nodup →
      (room.Follows last (room.pinnedEventListenerTask [] first ((lists ++ [last]).map fun pinned => (pinned, pinned))) ↔
        room.Reloads ((first :: lists).getLast (cons_ne_nil _ _)) last) := by
  intro before
  refine ⟨?_, follows_start h, fun lists hlists hchain hn => ?_⟩
  · rw [pinnedEventListenerTask, foldl_append, foldl_cons, foldl_nil]
    exact follows_handleUpdate h
  · have hstart : room.Follows first (room.start first []) := by
      obtain ⟨hloads, hnodup⟩ := hlists first mem_cons_self
      rw [follows_start hloads]
      cases first with
      | nil => exact .inl ⟨nodup_nil, by simp [currentEventIds]⟩
      | cons eventId rest =>
        have hmem : eventId ∈ room.loadedIds (eventId :: rest) :=
          (mem_loadedIds hloads).2 (.inl mem_cons_self)
        refine .inr ⟨.inr ⟨eventId, mem_cons_self, not_mem_nil⟩, fun hset => ?_, hnodup⟩
        rw [← mem_toFinset, ← hset] at hmem
        simp [currentEventIds] at hmem
    rw [pinnedEventListenerTask, foldl_map, foldl_append, foldl_cons, foldl_nil]
    exact (hstart.run hlists hchain).handleUpdate (hlists _ (getLast_mem _)).1 h hn

/-- The two events can be loaded and have no relations. -/
def twoEvents : Room := ⟨100, fun eventId => some (⟨eventId, none⟩, []), id, fun _ => .refl _⟩

theorem pinnedEventListenerTask_follows_new_pin :
    twoEvents.Follows ["$a"] (twoEvents.pinnedEventListenerTask [] [] ([] ++ [(["$a"], ["$a"])])) :=
  (pinnedEventListenerTask_follows_iff twoEvents [] [] ["$a"] [] ⟨by decide, fun eventId _ => ⟨_, rfl, rfl⟩⟩).1.2
    (.inr ⟨.inr ⟨"$a", by decide, by decide⟩, by unfold Other; decide⟩)

theorem pinnedEventListenerTask_keeps_unpinned :
    ¬ twoEvents.Follows ["$a"] (twoEvents.pinnedEventListenerTask [] ["$a", "$b"] [(["$a"], ["$a"])]) := by
  intro h
  have hb := (h.mem_iff "$b").1 (by decide)
  simp [twoEvents] at hb

end Room

end HaranaMatrix.EventCache.PinnedEvents
