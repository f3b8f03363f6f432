import HaranaMatrix.EventCache.Pagination
import HaranaMatrix.EventCache.Persistence

/-!
# The retention of events

`purge_events_older_than` walks over the stored chunks from the oldest one on, up to the first event that is within the
retention period. It collects the positions of the events before, and removes them from memory or from the store
only. Positions are followed here and not identifiers: events may be there twice, or have no identifier.
-/

namespace HaranaMatrix.EventCache

open Linked List

/-! ## The walk over the stored chunks -/

namespace Retention

variable {Event EventId UserId Gap : Type} [RoomEvent Event EventId UserId]

open RoomEvent RoomEventCacheState

def loadChunkEvents (store : List (PlainChunk Event Gap)) (metadata : ChunkMetadata) : List Event :=
  let rawChunk := match metadata.next with
    | some next => Stored.loadPreviousChunk store next
    | none => (Stored.loadLastChunk store).1
  match rawChunk with
  -- the chunk disappeared
  | none => []
  | some rawChunk => if rawChunk.identifier ≠ metadata.identifier then [] else rawChunk.content.toItems

/-- What the walk has collected. -/
structure Sweep (Event EventId : Type) where
  inMemoryExpired : List (EventId × Position) := []
  inStoreExpired : List (EventId × Position) := []
  removed : List Event := []

namespace Sweep

/-- More expired events of one chunk. -/
def push (sweep : Sweep Event EventId) (inMemory : Bool) (expired : List (EventId × Position))
    (removed : List Event) :
    Sweep Event EventId :=
  if inMemory then
    { sweep with inMemoryExpired := sweep.inMemoryExpired ++ expired, removed := sweep.removed ++ removed }
  else { sweep with inStoreExpired := sweep.inStoreExpired ++ expired, removed := sweep.removed ++ removed }

/-- The events of a chunk, from an index on; `true` at an event within the retention period. -/
def events (cutoff : ℕ) (inMemory : Bool) (identifier : ChunkIdentifier) :
    ℕ → List Event → Sweep Event EventId → Bool × Sweep Event EventId
  | _, [], sweep => (false, sweep)
  | index, event :: rest, sweep =>
    match timestamp event with
    | none => events cutoff inMemory identifier (index + 1) rest sweep
    | some t =>
      if cutoff ≤ t then (true, sweep)
      else
        match eventId event with
        | none => events cutoff inMemory identifier (index + 1) rest sweep
        | some id =>
          events cutoff inMemory identifier (index + 1) rest (sweep.push inMemory [(id, ⟨identifier, index⟩)] [event])

def chunks (store : List (PlainChunk Event Gap)) (inMemoryChunks : List ChunkIdentifier) (cutoff : ℕ) :
    List ChunkMetadata → Sweep Event EventId → Sweep Event EventId
  | [], sweep => sweep
  | metadata :: rest, sweep =>
    -- a gap, or an empty chunk
    if metadata.numItems = 0 then chunks store inMemoryChunks cutoff rest sweep
    else
      match events cutoff (metadata.identifier ∈ inMemoryChunks) metadata.identifier 0
        (loadChunkEvents store metadata) sweep with
      | (true, sweep) => sweep
      | (false, sweep) => chunks store inMemoryChunks cutoff rest sweep

end Sweep

/-- The removed events, and the state. The store gives the metadata of its chunks in any order. -/
def purgeEventsOlderThan (cap : ℕ) (allChunks : List ChunkMetadata)
    (s : RoomEventCacheState Event Gap) (cutoff : ℕ) :
    Except EventCacheError (List Event × RoomEventCacheState Event Gap) :=
  match loadLinkedChunkMetadata allChunks with
  | .error fault => .error (.fault fault)
  | .ok (.error _) => .error .storage
  | .ok (.ok none) => .ok ([], s)
  | .ok (.ok (some chunks)) => do
    let s := s.touch
    let sweep := Sweep.chunks s.store (ids s.roomLinkedChunk.plainChunks) cutoff chunks {}
    if sweep.removed.isEmpty then return ([], s)
    let s ← s.removeEvents cap sweep.inMemoryExpired sweep.inStoreExpired
    return (sweep.removed, s)

/-! ### What the walk collects -/

/-- An event within the retention period. -/
def recent (cutoff : ℕ) (event : Event) : Bool := (timestamp event).any (cutoff ≤ ·)

/-- The longest prefix without an event within the retention period. -/
def outdated (cutoff : ℕ) (events : List Event) : List Event :=
    events.takeWhile fun event => !recent cutoff event

/-- An event with a timestamp and an identifier. -/
def removable (event : Event) : Bool := (timestamp event).isSome && (eventId event).isSome

section Collects

variable {cutoff : ℕ} {events : List Event} {A B L : List (Position × Event)}

@[simp] lemma recent_of_none {event : Event} (h : timestamp event = none) : recent cutoff event = false := by
  simp [recent, h]

@[simp] lemma recent_of_some {event : Event} {t : ℕ} (h : timestamp event = some t) :
    recent cutoff event = decide (cutoff ≤ t) := by
  simp [recent, h]

lemma outdated_append (X Y : List Event) :
    outdated cutoff (X ++ Y) = outdated cutoff X ++ if X.any (recent cutoff) then [] else outdated cutoff Y := by
  induction X with
  | nil => simp [outdated]
  | cons event X ih =>
    unfold outdated at ih ⊢
    cases h : recent cutoff event <;> simp [h, ih]

lemma expired_append (A B : List (Position × Event)) :
    expired cutoff (A ++ B) =
      expired cutoff A ++ if A.any (fun x => recent cutoff x.2) then [] else expired cutoff B := by
  induction A with
  | nil => simp [expired]
  | cons x A ih =>
    obtain ⟨position, event⟩ := x
    rw [cons_append, expired, expired, any_cons]
    cases ht : timestamp event with
    | none => rw [recent_of_none ht, Bool.false_or, ih]
    | some t =>
      rw [recent_of_some ht]
      by_cases hcut : cutoff ≤ t
      · simp [hcut]
      · rw [decide_eq_false hcut, Bool.false_or]
        cases hid : eventId event <;> simp [hcut, ih]

lemma map_snd_expired (cutoff : ℕ) (L : List (Position × Event)) :
    (expired cutoff L).map Prod.snd =
      ((L.takeWhile fun x => !recent cutoff x.2).filter fun x => removable x.2).map Prod.fst := by
  induction L with
  | nil => rfl
  | cons x L ih =>
    obtain ⟨position, event⟩ := x
    rw [expired]
    cases ht : timestamp event with
    | none => simp [ih, ht, removable]
    | some t =>
      by_cases hcut : cutoff ≤ t
      · simp [hcut, ht]
      · cases hid : eventId event <;> simp [hcut, ih, ht, hid, removable]

lemma filter_outdated (L : List (Position × Event)) :
    (outdated cutoff (L.map Prod.snd)).filter removable =
      ((L.takeWhile fun x => !recent cutoff x.2).filter fun x => removable x.2).map Prod.snd := by
  rw [outdated, takeWhile_map, filter_map]
  rfl

lemma expired_eq_nil_iff (cutoff : ℕ) (L : List (Position × Event)) :
    expired cutoff L = [] ↔ (outdated cutoff (L.map Prod.snd)).filter removable = [] := by
  have hpositions := map_snd_expired cutoff L
  rw [filter_outdated, map_eq_nil_iff]
  constructor
  · intro hnil
    rw [hnil] at hpositions
    exact map_eq_nil_iff.1 hpositions.symm
  · intro hnil
    rw [hnil] at hpositions
    exact map_eq_nil_iff.1 hpositions

lemma exists_of_mem_expired {x : EventId × Position} (h : x ∈ expired cutoff L) : ∃ y ∈ L, y.1 = x.2 := by
  have hx : x.2 ∈ (expired cutoff L).map Prod.snd := mem_map_of_mem h
  rw [map_snd_expired] at hx
  obtain ⟨y, hy, heq⟩ := mem_map.1 hx
  exact ⟨y, takeWhile_sublist _ |>.subset (mem_filter.1 hy).1, heq⟩

/-- **The walk over one chunk.** -/
lemma Sweep.events_eq (inMemory : Bool) (identifier : ChunkIdentifier) (index : ℕ) (events : List Event)
    (sweep : Sweep Event EventId) :
    Sweep.events cutoff inMemory identifier index events sweep =
      (events.any (recent cutoff), sweep.push inMemory
        (expired cutoff ((events.zipIdx index).map fun x => (⟨identifier, x.2⟩, x.1)))
        ((outdated cutoff events).filter removable)) := by
  induction events generalizing index sweep with
  | nil => cases inMemory <;> simp [Sweep.events, Sweep.push, expired, outdated]
  | cons event events ih =>
    rw [Sweep.events, zipIdx_cons, map_cons, expired]
    cases ht : timestamp event with
    | none => simp [ih, ht, outdated, removable]
    | some t =>
      by_cases hcut : cutoff ≤ t
      · cases inMemory <;> simp [hcut, ht, outdated, Sweep.push]
      · cases hid : eventId event with
        | none => simp [hcut, ih, ht, hid, outdated, removable]
        | some id => cases inMemory <;> simp [hcut, ih, ht, hid, outdated, removable, Sweep.push]

variable (previous : Option ChunkIdentifier)

variable (cs : List (PlainChunk Event Gap))

/-- The metadata of stored chunks, in their order. -/
def metadataOf : List ChunkMetadata :=
  (rawChunks previous cs).map fun raw => ⟨raw.content.numItems, raw.previous, raw.identifier, raw.next⟩

lemma links_metadataOf : Links previous (metadataOf previous cs) := by
  induction cs generalizing previous with
  | nil => trivial
  | cons c cs ih =>
    refine ⟨rfl, ?_, ih _⟩
    cases cs <;> rfl

lemma identifiers_metadataOf : (metadataOf previous cs).map (·.identifier) = ids cs := by
  induction cs generalizing previous with
  | nil => rfl
  | cons c cs ih => exact congrArg (c.identifier :: ·) (ih _)

lemma wellLinked_metadataOf {cs : List (PlainChunk Event Gap)} (hn : (ids cs).Nodup) :
    WellLinked (metadataOf none cs) :=
  ⟨by rwa [identifiers_metadataOf], links_metadataOf none cs⟩

lemma loadChunkEvents_eq {pre post : List (PlainChunk Event Gap)} {c : PlainChunk Event Gap}
    (hn : (ids (pre ++ c :: post)).Nodup) (n : ℕ) (previous : Option ChunkIdentifier) :
    loadChunkEvents (pre ++ c :: post) ⟨n, previous, c.identifier, (ids post).head?⟩ = c.content.toItems := by
  cases post with
  | nil => simp [loadChunkEvents, Stored.loadLastChunk, Stored.getLast?_rawChunks]
  | cons d post => simp [loadChunkEvents, Stored.loadPreviousChunk_eq hn]

variable {pre F : List (PlainChunk Event Gap)} {inMemoryChunks : List ChunkIdentifier}

lemma Sweep.push_eq {identifier : ChunkIdentifier} {E : List (EventId × Position)}
    (hE : ∀ x ∈ E, x.2.chunkIdentifier = identifier) (sweep : Sweep Event EventId) (removed : List Event) :
    sweep.push (identifier ∈ inMemoryChunks) E removed =
      ⟨sweep.inMemoryExpired ++ E.filter fun x => x.2.chunkIdentifier ∈ inMemoryChunks,
        sweep.inStoreExpired ++ E.filter fun x => x.2.chunkIdentifier ∉ inMemoryChunks,
        sweep.removed ++ removed⟩ := by
  have hin : (E.filter fun x => x.2.chunkIdentifier ∈ inMemoryChunks) =
    E.filter fun _ => identifier ∈ inMemoryChunks :=
    filter_congr fun x hx => by rw [hE x hx]
  have hout : (E.filter fun x => x.2.chunkIdentifier ∉ inMemoryChunks) =
    E.filter fun _ => identifier ∉ inMemoryChunks :=
    filter_congr fun x hx => by rw [hE x hx]
  rw [hin, hout]
  by_cases hmem : identifier ∈ inMemoryChunks <;> simp [push, hmem]

/-- **The walk over the chunks** collects the expired events, in memory and in the store only. -/
lemma Sweep.chunks_eq (cutoff : ℕ) (inMemoryChunks : List ChunkIdentifier)
    (hn : (ids (pre ++ F)).Nodup) (previous : Option ChunkIdentifier) (sweep : Sweep Event EventId) :
    Sweep.chunks (pre ++ F) inMemoryChunks cutoff (metadataOf previous F) sweep =
      ⟨sweep.inMemoryExpired ++
          (expired cutoff (positioned F)).filter fun x => x.2.chunkIdentifier ∈ inMemoryChunks,
        sweep.inStoreExpired ++ (expired cutoff (positioned F)).filter fun x => x.2.chunkIdentifier ∉ inMemoryChunks,
        sweep.removed ++ (outdated cutoff (flatten F)).filter removable⟩ := by
  induction F generalizing pre previous sweep with
  | nil => simp [metadataOf, rawChunks, Sweep.chunks, positioned, expired, Linked.flatten, outdated]
  | cons c F ih =>
    have hn' : (ids ((pre ++ [c]) ++ F)).Nodup := by simpa using hn
    have hnext := fun sweep => ih hn' (some c.identifier) sweep
    rw [append_assoc, singleton_append] at hnext
    have hany : ((c.content.toItems.zipIdx.map fun x => ((⟨c.identifier, x.2⟩ : Position), x.1)).any
        fun x => recent cutoff x.2) = c.content.toItems.any (recent cutoff) := by
      rw [any_map]
      exact (any_map (f := Prod.fst)).symm.trans (by rw [zipIdx_map_fst])
    rw [positioned_cons, expired_append, Linked.flatten_cons, outdated_append, hany]
    show Sweep.chunks _ _ _ (⟨c.content.numItems, previous, c.identifier, (ids F).head?⟩ ::
      metadataOf (some c.identifier) F) _ = _
    rw [Sweep.chunks]
    split
    · next hzero =>
      have hitems : c.content.toItems = [] := by
        rw [← length_eq_zero_iff, ChunkContent.length_toItems]
        exact hzero
      simp [hnext, hitems, expired, outdated]
    rw [loadChunkEvents_eq hn, Sweep.events_eq]
    have hidentifier : ∀ x ∈ expired cutoff
        (c.content.toItems.zipIdx.map fun x => ((⟨c.identifier, x.2⟩ : Position), x.1)),
        x.2.chunkIdentifier = c.identifier := by
      intro x hx
      obtain ⟨y, hy, heq⟩ := exists_of_mem_expired hx
      obtain ⟨z, -, rfl⟩ := mem_map.1 hy
      exact congrArg (·.chunkIdentifier) heq.symm
    rw [Sweep.push_eq hidentifier]
    cases hrecent : c.content.toItems.any (recent cutoff) with
    | true => simp
    | false => simp [hnext]

end Collects

/-! ## The purge -/

section Purge

variable {cap cutoff : ℕ} {U : List (PlainChunk Event Gap)} {s : RoomEventCacheState Event Gap}
  {allChunks : List ChunkMetadata}

/-- The events that are kept, from the `n`-th one on: of the outdated ones those that cannot be
removed, and all others. -/
def kept (cutoff n : ℕ) (events : List Event) : List Event :=
  ((outdated cutoff events).drop n).filter (fun event => !removable event) ++
    events.drop (max n (outdated cutoff events).length)

lemma filter_not_expired (cutoff : ℕ) {A B : List (Position × Event)} (hn : ((A ++ B).map Prod.fst).Nodup) :
    (B.filter fun x => x.1 ∉ (expired cutoff (A ++ B)).map Prod.snd).map Prod.snd =
      kept cutoff A.length ((A ++ B).map Prod.snd) := by
  obtain ⟨T, hT⟩ : ∃ T, T = (A ++ B).takeWhile fun x => !recent cutoff x.2 := ⟨_, rfl⟩
  obtain ⟨R, hR⟩ : ∃ R, R = (A ++ B).dropWhile fun x => !recent cutoff x.2 := ⟨_, rfl⟩
  have hsplit : A ++ B = T ++ R := by rw [hT, hR, takeWhile_append_dropWhile]
  have houtdated : outdated cutoff ((A ++ B).map Prod.snd) = T.map Prod.snd := by
    rw [outdated, takeWhile_map, hT]
    rfl
  have hB : B = T.drop A.length ++ R.drop (A.length - T.length) := by
    rw [← drop_append, ← hsplit, drop_left]
  have hlater : (A ++ B).drop (max A.length T.length) = R.drop (A.length - T.length) := by
    rw [hsplit, drop_append, drop_eq_nil_of_le (Nat.le_max_right ..), nil_append]
    congr 1
    omega
  rw [map_snd_expired, ← hT, kept, houtdated, length_map, ← map_drop, ← map_drop, hlater,
    filter_map, ← map_append]
  rw [hsplit, map_append, nodup_append] at hn
  conv_lhs => rw [hB]
  rw [filter_append]
  congr 2
  · -- a position of an outdated event is the position of this event only
    refine filter_congr fun x hx => ?_
    replace hx := drop_subset _ _ hx
    have hmem : x.1 ∈ (T.filter fun y => removable y.2).map Prod.fst ↔ removable x.2 = true := by
      refine ⟨fun hmem => ?_, fun h => mem_map_of_mem (mem_filter.2 ⟨hx, h⟩)⟩
      obtain ⟨y, hy, heq⟩ := mem_map.1 hmem
      rw [mem_filter] at hy
      rw [← inj_on_of_nodup_map hn.1 hy.1 hx heq]
      exact hy.2
    cases h : removable x.2 <;> simp [hmem, h]
  · refine filter_eq_self.2 fun x hx => decide_eq_true fun hmem => ?_
    obtain ⟨y, hy, heq⟩ := mem_map.1 hmem
    exact hn.2.2 _ (mem_map_of_mem (mem_filter.1 hy).1) _ (mem_map_of_mem (drop_subset _ _ hx)) heq

lemma removeExpired (h : s.Held cap U) (hs : s.Settled) (cutoff : ℕ) :
    ∃ s' U', s.removeEvents cap
        ((expired cutoff (positioned s.store)).filter fun x => x.2.chunkIdentifier ∈ ids s.memory)
        ((expired cutoff (positioned s.store)).filter fun x => x.2.chunkIdentifier ∉ ids s.memory) = .ok s' ∧
      s'.Held cap U' ∧ s'.Settled ∧ ids U' = ids U ∧ flatten s'.store = kept cutoff 0 (flatten s.store) ∧
      flatten s'.memory = kept cutoff (flatten U).length (flatten s.store) := by
  have hstore := h.store_eq hs
  have hpositions : positioned s.store = positioned U ++ positioned s.memory := by
    rw [hstore, positioned_append]
  have hnodup : ((positioned U ++ positioned s.memory).map Prod.fst).Nodup := by
    rw [← positioned_append]
    exact nodup_positioned h.nodup
  obtain ⟨E, hE⟩ : ∃ E, E = expired cutoff (positioned s.store) := ⟨_, rfl⟩
  have hplaced : Placed (fun _ _ => True) (U ++ s.memory) E := by
    rw [hE, hstore]
    constructor
    · rw [map_snd_expired]
      exact (nodup_positioned h.nodup).sublist ((filter_sublist.trans (takeWhile_sublist _)).map _)
    · intro x hx
      obtain ⟨⟨p, event⟩, hy, rfl⟩ := exists_of_mem_expired hx
      exact ⟨event, hy, trivial⟩
  rw [← hE]
  obtain ⟨s', hs', hheld, hsettled, hthin⟩ := h.removePlaced hplaced
  have hM : flatten s'.memory = ((positioned s.memory).filter fun x => x.1 ∉ E.map Prod.snd).map Prod.snd := by
    rw [← eventsOf_elements, hthin.elements_eq, eventsOf_elements, flatten_map_removing]
  have hflat : flatten s.store = (positioned U ++ positioned s.memory).map Prod.snd := by
    rw [← map_snd_positioned, hpositions]
  refine ⟨s', _, hs', hheld, hsettled hs, ids_map_removing U, ?_, ?_⟩
  · have hall := filter_not_expired cutoff (A := []) (B := positioned U ++ positioned s.memory) hnodup
    rw [nil_append, ← hpositions, ← hE, hpositions, filter_append, map_append, ← hflat] at hall
    rw [hheld.store_eq (hsettled hs), Linked.flatten_append, flatten_map_removing, hM]
    exact hall
  · rw [hM, hE, hpositions, filter_not_expired cutoff hnodup, hflat, ← map_snd_positioned, length_map]

lemma touch_of_store_ne (h : s.Held cap U) (hs : s.Settled) (hne : s.store ≠ []) : s.touch = s := by
  have hmemory : s.memory ≠ [] := by
    intro hnil
    have hstore := h.store_eq hs
    obtain ⟨M, -, hm⟩ := h
    have hchunks : s.roomLinkedChunk.chunks.chunks = [] := map_eq_nil_iff.1 hnil
    have hU : U = [] := hm.eq_nil_of_head (by simp [hchunks])
    exact hne (by rw [hstore, hU, hnil]; rfl)
  rw [RoomEventCacheState.touch, Mirrors.touch_plainChunks hmemory]

/-- **The walk over the chunks of the store is a walk over its events.** -/
theorem purgeEventsOlderThan_eq (h : s.Held cap U) (hs : s.Settled)
    (hall : allChunks.Perm (metadataOf none s.store)) (cutoff : ℕ) :
    purgeEventsOlderThan cap allChunks s cutoff = (s.purgeEventsOlderThan cap cutoff).map fun s' =>
      ((outdated cutoff (flatten s.store)).filter removable, s') := by
  by_cases hempty : s.store = []
  · -- there is no chunk at all
    rw [hempty] at hall
    rw [perm_nil.1 hall, RoomEventCacheState.purgeEventsOlderThan, hempty]
    rfl
  have hnodup : (ids ([] ++ s.store)).Nodup := by
    rw [nil_append, h.store_eq hs]
    exact h.nodup
  have hload : loadLinkedChunkMetadata allChunks = .ok (.ok (some (metadataOf none s.store))) := by
    refine loadLinkedChunkMetadata_wellLinked ?_ hall.symm (wellLinked_metadataOf hnodup)
    intro hnil
    have := congrArg (List.map (·.identifier)) hnil
    rw [identifiers_metadataOf] at this
    exact hempty (map_eq_nil_iff.1 this)
  have hsweep := Sweep.chunks_eq cutoff (ids s.memory) hnodup none {}
  simp only [nil_append] at hsweep
  have hexpired := expired_eq_nil_iff cutoff (positioned s.store)
  rw [map_snd_positioned] at hexpired
  rw [purgeEventsOlderThan, hload, RoomEventCacheState.purgeEventsOlderThan, if_neg (by simpa using hempty)]
  simp only [touch_of_store_ne h hs hempty]
  rw [show Sweep.chunks s.store (ids s.roomLinkedChunk.plainChunks) cutoff (metadataOf none s.store) {} = _ from hsweep]
  by_cases hnil : expired cutoff (positioned s.store) = []
  · simp [hnil, hexpired.1 hnil, Except.map]
    rfl
  · have hremoved := mt hexpired.2 hnil
    simp only [List.isEmpty_iff, hremoved, hnil, if_false]
    cases s.removeEvents cap _ _ <;> rfl

/-- **A purge removes the expired prefix.** The outdated events with a timestamp and an identifier
are returned and removed; the others stay, in memory and in the store, in their order. -/
theorem purgeEventsOlderThan_kept (h : s.Held cap U) (hs : s.Settled)
    (hall : allChunks.Perm (metadataOf none s.store)) (cutoff : ℕ) :
    ∃ s' U', purgeEventsOlderThan cap allChunks s cutoff =
        .ok ((outdated cutoff (flatten s.store)).filter removable, s') ∧
      s'.Held cap U' ∧ s'.Settled ∧ ids U' = ids U ∧ s'.store = U' ++ s'.memory ∧
      flatten s'.store = kept cutoff 0 (flatten s.store) ∧
      flatten s'.memory = kept cutoff (flatten U).length (flatten s.store) := by
  obtain ⟨s', U', hs', hheld, hsettled, hids, hkept, hkept'⟩ := removeExpired h hs cutoff
  refine ⟨s', U', ?_, hheld, hsettled, hids, hheld.store_eq hsettled, hkept, hkept'⟩
  suffices hpurge : s.purgeEventsOlderThan cap cutoff = .ok s' by
    rw [purgeEventsOlderThan_eq h hs hall, hpurge]
    rfl
  rw [RoomEventCacheState.purgeEventsOlderThan]
  split
  · next hempty =>
    rw [isEmpty_iff.1 hempty] at hs'
    exact hs'
  next hne =>
  simp only [touch_of_store_ne h hs (by simpa using hne)]
  split
  · next hnil =>
    rw [isEmpty_iff.1 hnil] at hs'
    exact hs'
  · exact hs'

/-- An event that is its identifier and its timestamp. -/
structure Dated where
  id : Option ℕ
  sentAt : Option ℕ
deriving DecidableEq

instance : RoomEvent Dated ℕ Unit where
  eventId := Dated.id
  sender _ := none
  timestamp := Dated.sentAt
  redactionTarget _ := none
  redacted _ _ := none
  bundledLatestThreadEvent _ := none
  eventId_redacted h := by cases h

/-- Two stored chunks, the second one in memory. -/
def twoChunks : RoomEventCacheState Dated ℕ :=
  ⟨⟨⟨[⟨some ⟨0⟩, ⟨1⟩, .items [⟨some 2, some 12⟩, ⟨some 3, none⟩, ⟨some 4, some 50⟩,
    ⟨some 5, some 13⟩]⟩], ⟨1⟩⟩, []⟩, [⟨⟨0⟩, .items [⟨some 1, some 10⟩, ⟨none, some 11⟩]⟩,
      ⟨⟨1⟩, .items [⟨some 2, some 12⟩, ⟨some 3, none⟩, ⟨some 4, some 50⟩, ⟨some 5, some 13⟩]⟩]⟩

lemma held_twoChunks : twoChunks.Held 4 [⟨⟨0⟩, .items [⟨some 1, some 10⟩, ⟨none, some 11⟩]⟩] :=
  ⟨twoChunks.memory, rfl, ⟨⟨⟨rfl, by simp⟩, by simp [twoChunks, plain]⟩, by decide, by decide, fun _ _ => rfl⟩⟩

/-- The events `1` and `2` are removed; the event `5` is after one that is within the period. -/
theorem purgeEventsOlderThan_kept_twoChunks :
    ∃ s', purgeEventsOlderThan 4 [⟨4, some ⟨0⟩, ⟨1⟩, none⟩, ⟨2, none, ⟨0⟩, some ⟨1⟩⟩]
      twoChunks 20 = .ok ([⟨some 1, some 10⟩, ⟨some 2, some 12⟩], s') ∧
    flatten s'.store = [⟨none, some 11⟩, ⟨some 3, none⟩, ⟨some 4, some 50⟩, ⟨some 5, some 13⟩] ∧
    flatten s'.memory = [⟨some 3, none⟩, ⟨some 4, some 50⟩, ⟨some 5, some 13⟩] := by
  obtain ⟨s', -, hs', -, -, -, -, hstore, hmemory⟩ :=
    purgeEventsOlderThan_kept held_twoChunks rfl (List.Perm.swap _ _ _) 20
  exact ⟨s', hs', hstore, hmemory⟩

end Purge

end Retention

end HaranaMatrix.EventCache
