import Mathlib.Data.Finset.Basic

/-!
# Redecrypted events in the caches of a room

The room, its threads, the pinned events and the focused events have copies of an event in memory, each its own.
`on_resolved_utds` decides on the copy of the room whether a decrypted version is news, and goes through the others with
that decision. Only a cache of focused events looks at its own copy. A cache that has an event twice replaces the last copy
of it only.
-/

namespace HaranaMatrix.EventCache.Redecryption

open List

abbrev EventId := String

inductive UnsignedEventLocation
  | relationsReplace
  | relationsThreadLatestEvent
deriving DecidableEq

/-- Of an event bundled in the `unsigned` object. -/
inductive UnsignedDecryptionResult
  | decrypted
  | unableToDecrypt
deriving DecidableEq

structure DecryptedRoomEvent (I : Type) where
  event : String
  encryptionInfo : I
  unsignedEncryptionInfo : Option (List (UnsignedEventLocation × UnsignedDecryptionResult))

inductive TimelineEventKind (I : Type)
  | decrypted (event : DecryptedRoomEvent I)
  | unableToDecrypt (event : String)
  | plainText (event : String)

structure TimelineEvent (I : Type) where
  eventId : EventId
  kind : TimelineEventKind I
  pushActions : Option (List String)

structure ResolvedUtd (I : Type) where
  eventId : EventId
  decryptedEvent : DecryptedRoomEvent I
  actions : Option (List String)

inductive MaybeResolvedEvent (I : Type)
  | notYet (utd : ResolvedUtd I)
  | resolved (event : TimelineEvent I)

variable {I : Type}

def undecryptableBundledLocations (info : Option (List (UnsignedEventLocation × UnsignedDecryptionResult))) :
    Finset UnsignedEventLocation :=
  (((info.getD []).filter (·.2 = .unableToDecrypt)).map Prod.fst).toFinset

namespace TimelineEvent

variable (event : TimelineEvent I)

def isUtd : Bool := event.kind matches .unableToDecrypt _

def encryptionInfo : Option I :=
  match event.kind with
  | .decrypted d => some d.encryptionInfo
  | _ => none

def unsignedEncryptionMap : Option (List (UnsignedEventLocation × UnsignedDecryptionResult)) :=
  match event.kind with
  | .decrypted d => d.unsignedEncryptionInfo
  | _ => none

/-- The decrypted version is news for this copy. -/
def differs [DecidableEq I] (event : TimelineEvent I) (utd : ResolvedUtd I) : Bool :=
  event.isUtd || event.encryptionInfo ≠ some utd.decryptedEvent.encryptionInfo ||
    undecryptableBundledLocations event.unsignedEncryptionMap ≠
      undecryptableBundledLocations utd.decryptedEvent.unsignedEncryptionInfo

end TimelineEvent

namespace MaybeResolvedEvent

def tryResolveEvent [DecidableEq I] (unresolvedEvent : TimelineEvent I) :
    MaybeResolvedEvent I → MaybeResolvedEvent I
  | .notYet utd =>
    if unresolvedEvent.differs utd then
      .resolved { unresolvedEvent with
        kind := .decrypted utd.decryptedEvent
        pushActions := utd.actions.or unresolvedEvent.pushActions }
    else .notYet utd
  | .resolved event => .resolved event

/-- What `find` finds is resolved. -/
def tryResolve [DecidableEq I] (find : EventId → Option (TimelineEvent I)) :
    MaybeResolvedEvent I → MaybeResolvedEvent I
  | .notYet utd =>
    match find utd.eventId with
    | some event => (notYet utd).tryResolveEvent event
    | none => .notYet utd
  | .resolved event => .resolved event

def asResolved : MaybeResolvedEvent I → Option (TimelineEvent I)
  | .resolved event => some event
  | .notYet _ => none

end MaybeResolvedEvent

/-- The events of a linked chunk in memory, the last one first, as `revents` gives them. An event
may be there twice: the pinned events are pushed as they come. -/
abbrev Chunk (I : Type) := List (TimelineEvent I)

namespace Chunk

/-- The copies of an event, the last one first. -/
def copies (id : EventId) (chunk : Chunk I) : List (TimelineEvent I) := chunk.filter (·.eventId = id)

/-- The last copy of an event. -/
def find (chunk : Chunk I) (id : EventId) : Option (TimelineEvent I) := chunk.find? (·.eventId = id)

def tryResolveEvents [DecidableEq I] (resolvedEvents : List (MaybeResolvedEvent I)) (chunk : Chunk I) :
    List (MaybeResolvedEvent I) :=
  resolvedEvents.map (·.tryResolve chunk.find)

/-- `replace_event_at`, at the last copy. -/
def replaceEvent (event : TimelineEvent I) : Chunk I → Chunk I
  | [] => []
  | old :: chunk => if old.eventId = event.eventId then event :: chunk else old :: replaceEvent event chunk

/-- The event instead of its last copy, or else at the end. -/
def write (event : TimelineEvent I) (chunk : Chunk I) : Chunk I :=
  if (chunk.find event.eventId).isSome then replaceEvent event chunk else event :: chunk

/-- The resolved events are put in one after the other, where `p` holds of what is there. -/
def put (p : Option (TimelineEvent I) → TimelineEvent I → Bool) (chunk : Chunk I)
    (events : List (TimelineEvent I)) :
    Chunk I :=
  events.foldl (fun chunk event => if p (chunk.find event.eventId) event then chunk.write event else chunk) chunk

def replaceUtds (chunk : Chunk I) (resolvedEvents : List (MaybeResolvedEvent I)) : Chunk I :=
  chunk.put (fun old _ => old.isSome) (resolvedEvents.filterMap (·.asResolved))

def saveEvents (chunk : Chunk I) (resolvedEvents : List (MaybeResolvedEvent I)) : Chunk I :=
  chunk.put (fun _ _ => true) (resolvedEvents.filterMap (·.asResolved))

/-- `handle_decrypted_thread_events`, for the thread of `root`: it receives the events that it does
not have. They are also sorted by their timestamps, which makes no difference to the copies. -/
def handleDecryptedThreadEvents (extractThreadRoot : TimelineEvent I → Option EventId)
    (root : EventId) (chunk : Chunk I) (resolvedEvents : List (MaybeResolvedEvent I)) : Chunk I :=
  chunk.put (fun old event => old.isNone && extractThreadRoot event = some root)
    (resolvedEvents.filterMap (·.asResolved))

end Chunk

/-- The store, and the caches that are alive. -/
structure Caches (I : Type) where
  store : Chunk I
  room : Chunk I
  threads : List (EventId × Chunk I)
  pinnedEvents : Option (Chunk I)
  eventFocused : List (Chunk I)

namespace Caches

/-- `find_event` of the room: in memory, or else in the store. -/
def findEvent (c : Caches I) (id : EventId) : Option (TimelineEvent I) :=
    (c.room.find id).or (c.store.find id)

def maybeResolve [DecidableEq I] (c : Caches I) (utd : ResolvedUtd I) : MaybeResolvedEvent I :=
  (MaybeResolvedEvent.notYet utd).tryResolve c.findEvent

def onResolvedUtds [DecidableEq I] (extractThreadRoot : TimelineEvent I → Option EventId) (c : Caches I)
    (resolvedUtds : List (ResolvedUtd I)) : Caches I :=
  let maybeResolvedEvents := resolvedUtds.map c.maybeResolve
  let maybeResolvedInMemoryEvents :=
    (resolvedUtds.filter fun utd => (c.room.find utd.eventId).isSome).map c.maybeResolve
  { store := c.store.saveEvents maybeResolvedEvents
    room := c.room.replaceUtds maybeResolvedInMemoryEvents
    threads := c.threads.map fun t => (t.1,
      (t.2.replaceUtds maybeResolvedEvents).handleDecryptedThreadEvents extractThreadRoot t.1 maybeResolvedEvents)
    pinnedEvents := c.pinnedEvents.map (·.replaceUtds maybeResolvedEvents)
    eventFocused := c.eventFocused.map fun chunk => chunk.replaceUtds (chunk.tryResolveEvents maybeResolvedEvents) }

/-- The caches that do not look at their own copies. -/
def following (c : Caches I) : List (Chunk I) := c.threads.map Prod.snd ++ c.pinnedEvents.toList

def inMemory (c : Caches I) : List (Chunk I) := c.room :: c.following ++ c.eventFocused

end Caches

/-! ## What is put into a chunk -/

namespace Chunk

/-- No copy of the event is a UTD. -/
def NoUtd (id : EventId) (chunk : Chunk I) : Prop := ∀ event ∈ chunk.copies id, event.isUtd = false

/-- No copy of the event but the last one is a UTD. -/
def EarlierNoUtd (id : EventId) (chunk : Chunk I) : Prop :=
    ∀ event ∈ (chunk.copies id).tail, event.isUtd = false

/-- The last copy of the event is no UTD. -/
def LastNoUtd (id : EventId) (chunk : Chunk I) : Prop := ∀ event ∈ chunk.find id, event.isUtd = false

variable {p : Option (TimelineEvent I) → TimelineEvent I → Bool} {events : List (TimelineEvent I)}
  {id : EventId}

lemma find_eq_head? (chunk : Chunk I) : chunk.find id = (chunk.copies id).head? := (head?_filter ..).symm

lemma noUtd_iff {chunk : Chunk I} : chunk.NoUtd id ↔ chunk.EarlierNoUtd id ∧ chunk.LastNoUtd id := by
  rw [NoUtd, EarlierNoUtd, LastNoUtd, find_eq_head?]
  cases chunk.copies id <;> simp [and_comm]

lemma eventId_of_find {chunk : Chunk I} {event : TimelineEvent I} (h : chunk.find id = some event) :
    event.eventId = id := by
  simpa using find?_some h

lemma copies_replaceEvent (event : TimelineEvent I) (chunk : Chunk I) :
    copies id (replaceEvent event chunk) =
      if event.eventId = id then (chunk.find id).toList.map (fun _ => event) ++ (chunk.copies id).tail
      else chunk.copies id := by
  induction chunk with
  | nil => simp [replaceEvent, copies, find]
  | cons old chunk ih =>
    rw [replaceEvent]
    by_cases hold : old.eventId = event.eventId
    · by_cases h : event.eventId = id <;> simp [copies, find, hold, h]
    · rw [if_neg hold]
      by_cases h : event.eventId = id
      · subst h
        simpa [copies, find, hold] using ih
      · by_cases h' : old.eventId = id <;> simpa [copies, h, h'] using ih

/-- Of the copies of an event the last one is replaced. -/
lemma copies_write (event : TimelineEvent I) (chunk : Chunk I) :
    copies id (chunk.write event) = if event.eventId = id then event :: (chunk.copies id).tail else chunk.copies id := by
  rw [write]
  cases hfind : chunk.find event.eventId with
  | some old =>
    rw [Option.isSome_some, if_pos rfl, copies_replaceEvent]
    split
    · next h => simp [← h, hfind]
    · rfl
  | none =>
    have hnone : chunk.copies event.eventId = [] := by simpa [find_eq_head?] using hfind
    by_cases h : event.eventId = id
    · subst h
      rw [if_neg (by simp), if_pos rfl, hnone, copies, filter_cons_of_pos (by simp)]
      exact congrArg (event :: ·) hnone
    · simp [copies, h]

lemma find_write (event : TimelineEvent I) (chunk : Chunk I) :
    (chunk.write event).find id = if event.eventId = id then some event else chunk.find id := by
  rw [find_eq_head?, copies_write]
  split
  · rfl
  · exact (find_eq_head? chunk).symm

lemma put_cons (event : TimelineEvent I) (chunk : Chunk I) : chunk.put p (event :: events) =
    (if p (chunk.find event.eventId) event then chunk.write event else chunk).put p events := rfl

lemma tail_copies_put (chunk : Chunk I) : ((chunk.put p events).copies id).tail = (chunk.copies id).tail := by
  induction events generalizing chunk with
  | nil => rfl
  | cons event events ih =>
    rw [put_cons, ih]
    split
    · rw [copies_write]
      split <;> rfl
    · rfl

lemma find_put (chunk : Chunk I) : (chunk.put p events).find id = chunk.find id ∨
    ∃ event ∈ events, event.eventId = id ∧ (chunk.put p events).find id = some event := by
  induction events generalizing chunk with
  | nil => exact .inl rfl
  | cons event events ih =>
    rw [put_cons]
    rcases ih (if p (chunk.find event.eventId) event then chunk.write event else chunk) with h | ⟨e, he, hid, h⟩
    · rw [h]
      split
      · rw [find_write]
        split
        · next hid => exact .inr ⟨event, mem_cons_self, hid, rfl⟩
        · exact .inl rfl
      · exact .inl rfl
    · exact .inr ⟨e, mem_cons_of_mem _ he, hid, h⟩

lemma LastNoUtd.put {chunk : Chunk I} (h : chunk.LastNoUtd id) (hevents : ∀ e ∈ events, e.isUtd = false) :
    (chunk.put p events).LastNoUtd id := by
  intro e he
  rcases @find_put _ p events id chunk with heq | ⟨event, hmem, -, heq⟩
  · exact h e (heq ▸ he)
  · obtain rfl := Option.some.inj (heq.symm.trans he)
    exact hevents event hmem

lemma lastNoUtd_put_isSome (chunk : Chunk I) (hid : ∃ e ∈ events, e.eventId = id)
    (hevents : ∀ e ∈ events, e.isUtd = false) :
      (chunk.put (fun old _ => old.isSome) events).LastNoUtd id := by
  induction events generalizing chunk with
  | nil => simp at hid
  | cons event events ih =>
    have hrest := fun e he => hevents e (mem_cons_of_mem _ he)
    rw [put_cons]
    by_cases heq : event.eventId = id
    · refine LastNoUtd.put ?_ hrest
      subst heq
      intro e he
      split at he
      · rw [find_write, if_pos rfl] at he
        exact Option.some.inj he ▸ hevents event mem_cons_self
      next hnone => simp_all
    · refine ih _ ?_ hrest
      obtain ⟨e, he, hid⟩ := hid
      rcases mem_cons.1 he with rfl | he
      · exact absurd hid heq
      · exact ⟨e, he, hid⟩

end Chunk

/-! ## What is resolved -/

open MaybeResolvedEvent

variable {find : EventId → Option (TimelineEvent I)} {f : ResolvedUtd I → MaybeResolvedEvent I} {c : Caches I}
  {utds : List (ResolvedUtd I)} {utd : ResolvedUtd I} {e : TimelineEvent I}

/-- The version is resolved, or the copy that `find` finds is no UTD. -/
def Settles (find : EventId → Option (TimelineEvent I)) (utd : ResolvedUtd I)
    (r : MaybeResolvedEvent I) : Prop :=
  (∃ e, r = .resolved e ∧ e.isUtd = false ∧ e.eventId = utd.eventId) ∨
    r = .notYet utd ∧ ∀ e ∈ find utd.eventId, e.isUtd = false

lemma mem_resolved : e ∈ (utds.map f).filterMap (·.asResolved) ↔ ∃ utd ∈ utds, f utd = .resolved e := by
  have hr (r : MaybeResolvedEvent I) : r.asResolved = some e ↔ r = .resolved e := by
    cases r <;> simp [asResolved]
  simp [hr]

lemma isUtd_of_settles (hf : ∀ utd, Settles find utd (f utd))
    (he : e ∈ (utds.map f).filterMap (·.asResolved)) :
    e.isUtd = false := by
  obtain ⟨utd, -, hr⟩ := mem_resolved.1 he
  rcases hf utd with ⟨e', h, hutd, -⟩ | ⟨h, -⟩
  · cases h.symm.trans hr
    exact hutd
  · cases h.symm.trans hr

/-- **A cache that looks at its own copy has no UTD left there.** -/
lemma Chunk.lastNoUtd_replaceUtds {chunk : Chunk I} (hmem : utd ∈ utds)
    (hf : ∀ utd, Settles chunk.find utd (f utd)) :
    (chunk.replaceUtds (utds.map f)).LastNoUtd utd.eventId := by
  rcases hf utd with ⟨e, h, -, hid⟩ | ⟨-, h⟩
  · exact lastNoUtd_put_isSome _ ⟨e, mem_resolved.2 ⟨utd, hmem, h⟩, hid⟩ fun _ => isUtd_of_settles hf
  · exact LastNoUtd.put h fun _ => isUtd_of_settles hf

variable [DecidableEq I]

lemma settles_tryResolve (hid : ∀ id, ∀ e ∈ find id, e.eventId = id) (utd : ResolvedUtd I) :
    Settles find utd ((notYet utd).tryResolve find) := by
  rw [tryResolve]
  cases h : find utd.eventId with
  | none => exact .inr ⟨rfl, by simp [h]⟩
  | some event =>
    cases hd : event.differs utd with
    | false =>
      refine .inr ⟨by simp [tryResolveEvent, hd], ?_⟩
      simp_all [TimelineEvent.differs]
    | true => exact .inl ⟨_, if_pos hd, rfl, hid _ event h⟩

namespace Caches

lemma settles_maybeResolve (c : Caches I) (utd : ResolvedUtd I) :
    Settles c.findEvent utd (c.maybeResolve utd) := by
  refine settles_tryResolve (fun id e he => ?_) utd
  rcases Option.or_eq_some_iff.1 he with he | ⟨-, he⟩
  · exact Chunk.eventId_of_find he
  · exact Chunk.eventId_of_find he

lemma maybeResolve_eq_resolved :
    (∃ e, c.maybeResolve utd = .resolved e) ↔ ∃ event ∈ c.findEvent utd.eventId, event.differs utd := by
  rw [maybeResolve, tryResolve]
  cases c.findEvent utd.eventId with
  | none => simp
  | some event => cases hd : event.differs utd <;> simp [tryResolveEvent, hd]

lemma eventId_of_maybeResolve (h : c.maybeResolve utd = .resolved e) : e.eventId = utd.eventId := by
  rcases c.settles_maybeResolve utd with ⟨e', h', -, hid⟩ | ⟨h', -⟩
  · cases h'.symm.trans h
    exact hid
  · cases h'.symm.trans h

lemma lastNoUtd_room (hmem : utd ∈ utds) : (c.room.replaceUtds
    ((utds.filter fun utd => (c.room.find utd.eventId).isSome).map c.maybeResolve)).LastNoUtd utd.eventId := by
  have hf (utd : ResolvedUtd I) : Settles c.room.find utd (c.maybeResolve utd) :=
    (c.settles_maybeResolve utd).imp_right fun h =>
      ⟨h.1, fun e he => h.2 e (by rw [findEvent, Option.mem_def.1 he]; rfl)⟩
  cases h : c.room.find utd.eventId with
  | none => exact Chunk.LastNoUtd.put (by simp [Chunk.LastNoUtd, h]) fun _ => isUtd_of_settles hf
  | some event => exact Chunk.lastNoUtd_replaceUtds (mem_filter.2 ⟨hmem, by simp [h]⟩) hf

lemma lastNoUtd_eventFocused (hmem : utd ∈ utds) (chunk : Chunk I) :
    (chunk.replaceUtds (chunk.tryResolveEvents (utds.map c.maybeResolve))).LastNoUtd utd.eventId := by
  rw [Chunk.tryResolveEvents, map_map]
  refine Chunk.lastNoUtd_replaceUtds hmem fun utd => ?_
  rcases c.settles_maybeResolve utd with ⟨e, h, hutd, hid⟩ | ⟨h, -⟩
  · exact .inl ⟨e, by rw [Function.comp_apply, h]; rfl, hutd, hid⟩
  · rw [Function.comp_apply, h]
    exact settles_tryResolve (fun _ _ => Chunk.eventId_of_find) utd

/-- The copies but the last one are left alone. -/
lemma earlierNoUtd_onResolvedUtds (extractThreadRoot : TimelineEvent I → Option EventId) (id : EventId) :
    (∀ chunk ∈ (c.onResolvedUtds extractThreadRoot utds).inMemory, chunk.EarlierNoUtd id) ↔
      ∀ chunk ∈ c.inMemory, chunk.EarlierNoUtd id := by
  have htails : (c.onResolvedUtds extractThreadRoot utds).inMemory.map (fun chunk => (chunk.copies id).tail) =
      c.inMemory.map fun chunk => (chunk.copies id).tail := by
    cases hpinned : c.pinnedEvents <;>
      simp [inMemory, following, onResolvedUtds, Chunk.replaceUtds, Chunk.handleDecryptedThreadEvents,
        Chunk.tail_copies_put, Function.comp_def, hpinned]
  have hmap (chunks : List (Chunk I)) : (∀ chunk ∈ chunks, chunk.EarlierNoUtd id) ↔
      ∀ earlier ∈ chunks.map fun chunk => (chunk.copies id).tail, ∀ event ∈ earlier, event.isUtd = false := by
    rw [forall_mem_map]
    rfl
  rw [hmap, htails, ← hmap]

/-- The last copies are reached if the version is news for the copy of the room, as the threads and
the pinned events follow it. -/
lemma lastNoUtd_onResolvedUtds (extractThreadRoot : TimelineEvent I → Option EventId) (hmem : utd ∈ utds) :
    (∀ chunk ∈ (c.onResolvedUtds extractThreadRoot utds).inMemory, chunk.LastNoUtd utd.eventId) ↔
      (∀ chunk ∈ c.following, chunk.LastNoUtd utd.eventId) ∨ ∃ utd' ∈ utds,
        utd'.eventId = utd.eventId ∧ ∃ event ∈ c.findEvent utd.eventId, event.differs utd' := by
  have hall : ∀ e ∈ (utds.map c.maybeResolve).filterMap (·.asResolved), e.isUtd = false :=
    fun _ => isUtd_of_settles c.settles_maybeResolve
  constructor
  · refine fun h => or_iff_not_imp_right.2 fun hnone chunk hchunk event hevent => ?_
    -- nothing is resolved, so the copies of the threads and of the pinned events are what they were
    have hkeep (p) (chunk : Chunk I) : (chunk.put p ((utds.map c.maybeResolve).filterMap (·.asResolved))).find
        utd.eventId = chunk.find utd.eventId := by
      refine (Chunk.find_put chunk).resolve_right ?_
      rintro ⟨e, he, hid, -⟩
      obtain ⟨utd', hmem', hr⟩ := mem_resolved.1 he
      have hid' := (eventId_of_maybeResolve hr).symm.trans hid
      exact hnone ⟨utd', hmem', hid', hid' ▸ maybeResolve_eq_resolved.1 ⟨e, hr⟩⟩
    rcases mem_append.1 hchunk with hchunk | hchunk
    · obtain ⟨t, ht, rfl⟩ := mem_map.1 hchunk
      refine h _ (mem_append_left _ (mem_cons_of_mem _ (mem_append_left _ (mem_map_of_mem (mem_map_of_mem ht))))) event ?_
      rwa [Chunk.handleDecryptedThreadEvents, hkeep, Chunk.replaceUtds, hkeep]
    · refine h (chunk.replaceUtds (utds.map c.maybeResolve)) ?_ event (by rwa [Chunk.replaceUtds, hkeep])
      simp [inMemory, following, onResolvedUtds, Option.mem_toList.1 hchunk]
  · intro h chunk hchunk
    have hfollowing : ∀ chunk ∈ c.following, (chunk.replaceUtds (utds.map c.maybeResolve)).LastNoUtd utd.eventId := by
      intro chunk hchunk
      rcases h with h | ⟨utd', hmem', hid, hd⟩
      · exact (h chunk hchunk).put hall
      · obtain ⟨e, hr⟩ := maybeResolve_eq_resolved.2 (hid ▸ hd)
        exact Chunk.lastNoUtd_put_isSome _
          ⟨e, mem_resolved.2 ⟨utd', hmem', hr⟩, (eventId_of_maybeResolve hr).trans hid⟩ hall
    rcases mem_append.1 hchunk with hchunk | hchunk
    · rcases mem_cons.1 hchunk with rfl | hchunk
      · exact lastNoUtd_room hmem
      rcases mem_append.1 hchunk with hchunk | hchunk
      · obtain ⟨_, hthread, rfl⟩ := mem_map.1 hchunk
        obtain ⟨t, ht, rfl⟩ := mem_map.1 hthread
        change Chunk.LastNoUtd _ (Chunk.handleDecryptedThreadEvents ..)
        exact (hfollowing t.2 (mem_append_left _ (mem_map_of_mem ht))).put hall
      · obtain ⟨pinned, hpinned, rfl⟩ := Option.map_eq_some_iff.1 (Option.mem_toList.1 hchunk)
        exact hfollowing pinned (mem_append_right _ (Option.mem_toList.2 hpinned))
    · obtain ⟨focused, -, rfl⟩ := mem_map.1 hchunk
      exact lastNoUtd_eventFocused hmem focused

/-- **Redecryption reaches every copy** exactly if no cache has a UTD of the event before its last
copy, and the version is news for the copy of the room or the last copies in the threads and in the
pinned events are no UTDs. -/
theorem onResolvedUtds_reaches_iff (extractThreadRoot : TimelineEvent I → Option EventId) (c : Caches I)
    (before after : List (ResolvedUtd I)) (utd : ResolvedUtd I) :
    (∀ chunk ∈ (c.onResolvedUtds extractThreadRoot (before ++ utd :: after)).inMemory,
      chunk.NoUtd utd.eventId) ↔ (∀ chunk ∈ c.inMemory, chunk.EarlierNoUtd utd.eventId) ∧
      ((∀ chunk ∈ c.following, chunk.LastNoUtd utd.eventId) ∨ ∃ utd' ∈ before ++ utd :: after,
        utd'.eventId = utd.eventId ∧ ∃ event ∈ c.findEvent utd.eventId, event.differs utd') := by
  rw [← earlierNoUtd_onResolvedUtds extractThreadRoot, ← lastNoUtd_onResolvedUtds extractThreadRoot (by simp),
    ← forall₂_and]
  simp only [Chunk.noUtd_iff]

/-- The room and the store have the decrypted event, and the pinned events are still without the
key. -/
def latePinned : Caches Unit :=
  let decrypted : Chunk Unit := [⟨"$x", .decrypted ⟨"hello", (), none⟩, none⟩]
  ⟨decrypted, decrypted, [], some [⟨"$x", .unableToDecrypt "?", none⟩], []⟩

theorem onResolvedUtds_leaves_pinned_utd :
    ¬ ∀ chunk ∈ (latePinned.onResolvedUtds (fun _ => none) [⟨"$x", ⟨"hello", (), none⟩, none⟩]).inMemory,
      chunk.NoUtd "$x" := by
  intro h
  cases h _ (mem_cons_of_mem _ mem_cons_self) ⟨"$x", .unableToDecrypt "?", none⟩ mem_cons_self

end Caches

end HaranaMatrix.EventCache.Redecryption
