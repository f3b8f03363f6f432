import HaranaMatrix.EventCache.Duplicates

/-!
# Versions of events

The latest event of a thread, sent along with its root, is saved in the store only, so that the
store may have another version of an event than memory. Up to versions the invariant stays: next to
a room stands one whose store has the versions of memory, and what is done to the one is done to the
other. -/

set_option linter.unusedSectionVars false

namespace HaranaMatrix.EventCache

open Linked RoomEvent List EventLinkedChunk Stored

variable {Event EventId UserId Gap : Type} [RoomEvent Event EventId UserId] [DecidableEq EventId]
  [DecidableEq UserId]

/-! ## The same events -/

def mapElement {Item' : Type} (f : Event → Item') : Element Event Gap → Element Item' Gap
  | .item event => .item (f event)
  | .gap gap => .gap gap

/-- The identifiers of the events, and the gaps. -/
abbrev idsOf (els : List (Element Event Gap)) : List (Element (Option EventId) Gap) :=
    els.map (mapElement eventId)

/-- The same chunks of the same events, maybe in other versions. -/
def SameIds (F G : List (PlainChunk Event Gap)) : Prop := F.map (mapItems eventId) = G.map (mapItems eventId)

section SameIds

variable {Item' : Type} (f : Event → Item') (F : List (PlainChunk Event Gap))
  {els A B : List (Element Event Gap)}

lemma elements_mapItems : elements (F.map (mapItems f)) = (elements F).map (mapElement f) := by
  rw [elements, elements, flatMap_map, map_flatMap]
  refine flatMap_congr fun c _ => ?_
  cases h : c.content <;> simp [mapItems, h, mapElement]

lemma positioned_mapItems : positioned (F.map (mapItems f)) = (positioned F).map (Prod.map id f) := by
  rw [positioned, positioned, flatMap_map, map_flatMap]
  refine flatMap_congr fun c _ => ?_
  rw [toItems_mapItems, zipIdx_map, map_map, map_map]
  rfl

lemma eventsOf_mapElement : eventsOf (els.map (mapElement f)) = (eventsOf els).map f := by
  induction els with
  | nil => rfl
  | cons el els ih => cases el <;> simp [mapElement, ih]

lemma eventIds_congr (h : idsOf A = idsOf B) : eventIds A = eventIds B := by
  rw [eventIds, eventIds, ← eventsOf_mapElement, ← eventsOf_mapElement]
  exact congrArg eventsOf h

lemma Distinct.congr (hd : Distinct A) (h : idsOf A = idsOf B) : Distinct B := by
  rwa [Distinct, ← eventIds_congr h]

lemma idsOf_append : idsOf (A ++ B) = idsOf A ++ idsOf B := map_append

lemma idsOf_without (names : List (Option EventId)) (h : idsOf A = idsOf B) :
    idsOf (without names A) = idsOf (without names B) := by
  have hfilter (C : List (Element Event Gap)) : idsOf (without names C) = (idsOf C).filter fun
      | .item i => decide (i ∉ names)
      | .gap _ => true := by
    rw [idsOf, idsOf, filter_map]
    refine congrArg _ (filter_congr fun el _ => ?_)
    cases el <;> rfl
  rw [hfilter, hfilter, h]

lemma idsOf_map {g : Element Event Gap → Element Event Gap} (hg : KeepsIds g) :
    idsOf (els.map g) = idsOf els := by
  rw [idsOf, map_map]
  refine map_congr_left fun el _ => ?_
  cases el with
  | gap gap => simp [hg.1]
  | item event =>
    obtain ⟨event', he, hi⟩ := hg.2 event
    simp [he, hi, mapElement]

namespace SameIds

variable {F} {G G' : List (PlainChunk Event Gap)} (h : SameIds F G)
include h

lemma ids_eq : ids F = ids G := by
  rw [← ids_mapItems (f := eventId), h, ids_mapItems]

lemma elements_eq : idsOf (elements F) = idsOf (elements G) := by
  rw [idsOf, idsOf, ← elements_mapItems, ← elements_mapItems, h]

lemma positioned_eq : (positioned F).map (Prod.map id eventId) =
    (positioned G).map (Prod.map id eventId) := by
  rw [← positioned_mapItems, ← positioned_mapItems, h]

lemma mem_positioned {p : Position} {event : Event} (hp : (p, event) ∈ positioned F) :
    ∃ event', (p, event') ∈ positioned G ∧ eventId event' = eventId event := by
  have hmem : (p, eventId event) ∈ (positioned G).map (Prod.map id eventId) :=
    h.positioned_eq ▸ mem_map_of_mem (f := Prod.map id eventId) hp
  obtain ⟨⟨q, event'⟩, hq, heq⟩ := mem_map.1 hmem
  cases (Prod.mk.inj heq).1
  exact ⟨event', hq, (Prod.mk.inj heq).2⟩

lemma named {L : List (EventId × Position)} (hL : RoomEventCacheState.Named F L) :
    RoomEventCacheState.Named G L := by
  refine ⟨hL.1, fun x hx => ?_⟩
  obtain ⟨event, hp, hi⟩ := hL.2 x hx
  obtain ⟨event', hp', hi'⟩ := h.mem_positioned hp
  exact ⟨event', hp', hi'.trans hi⟩

lemma entries_eq (ns : List EventId) : entries F ns = entries G ns := by
  have hmap (F : List (PlainChunk Event Gap)) : entries F ns =
    ((positioned F).map (Prod.map id eventId)).filterMap
      fun x => x.2.bind fun i => if i ∈ ns then some (i, x.1) else none := by
    rw [filterMap_map]
    rfl
  rw [hmap, hmap, h.positioned_eq]

lemma capacity {cap : ℕ} (hcap : ∀ c ∈ G, c.content.numItems ≤ cap) : ∀ c ∈ F, c.content.numItems ≤ cap := by
  intro c hc
  have hmem : mapItems eventId c ∈ G.map (mapItems eventId) := h ▸ mem_map_of_mem hc
  obtain ⟨d, hd, heq⟩ := mem_map.1 hmem
  have hnum (c : PlainChunk Event Gap) : (mapItems eventId c).content.numItems = c.content.numItems := by
    rw [← ChunkContent.length_toItems, toItems_mapItems, length_map, ChunkContent.length_toItems]
  rw [← hnum, ← heq, hnum]
  exact hcap d hd

lemma applyUpdates {us : List (Update Event Gap)} (hG : applyUpdates G us = some G') :
    ∃ F', applyUpdates F us = some F' ∧ SameIds F' G' := by
  have hmap : Linked.Stored.applyUpdates (F.map (mapItems eventId)) (us.map (mapUpdate eventId)) =
      (Linked.Stored.applyUpdates F us).map (map (mapItems (eventId : Event → Option EventId))) :=
        applyUpdates_map
  rw [show F.map (mapItems eventId) = G.map (mapItems eventId) from h, applyUpdates_map, hG] at hmap
  obtain ⟨F', hF', heq⟩ := Option.map_eq_some_iff.1 hmap.symm
  exact ⟨F', hF', heq⟩

end SameIds

/-- **Events are replaced in the store.** -/
lemma applyUpdates_replace {F : List (PlainChunk Event Gap)} (hn : (ids F).Nodup) (hd : Distinct (elements F))
    {L : List (Position × Event)} (hL : ∀ x ∈ L, ∃ old, (x.1, old) ∈ positioned F ∧ eventId x.2 = eventId old)
    (hi : ((L.map Prod.snd).map eventId).Nodup) :
    ∃ F', applyUpdates F (L.map fun x => .replaceItem x.1 x.2) = some F' ∧ SameIds F' F ∧
      elements F' = (elements F).map (renew (L.map Prod.snd)) := by
  induction L generalizing F with
  | nil => exact ⟨F, rfl, rfl, (map_renew_self (by simp)).symm⟩
  | cons y L ih =>
    obtain ⟨p, event⟩ := y
    rw [map_cons, map_cons, nodup_cons] at hi
    obtain ⟨old, hold, hid⟩ := hL _ (mem_cons_self ..)
    obtain ⟨pre, l, r, post, rfl, hl⟩ := exists_of_mem_positioned hold
    have hcut : ∀ x, elements (pre ++ ⟨p.chunkIdentifier, .items (l ++ x :: r)⟩ :: post) =
        (elements pre ++ l.map .item) ++ .item x :: (r.map .item ++ elements post) := by simp
    have hset : applyUpdate (pre ++ ⟨p.chunkIdentifier, .items (l ++ old :: r)⟩ :: post) (.replaceItem p event) =
        some (pre ++ ⟨p.chunkIdentifier, .items (l ++ event :: r)⟩ :: post) := by
      refine modifyItems_eq (not_mem_of_nodup hn).1 ?_
      simp [show p.index = l.length from hl.symm]
    have hsame : SameIds (pre ++ ⟨p.chunkIdentifier, .items (l ++ event :: r)⟩ :: post)
        (pre ++ ⟨p.chunkIdentifier, .items (l ++ old :: r)⟩ :: post) := by
      simp only [SameIds, map_append, map_cons, mapItems, hid]
    have hels : elements (pre ++ ⟨p.chunkIdentifier, .items (l ++ event :: r)⟩ :: post) =
        (elements (pre ++ ⟨p.chunkIdentifier, .items (l ++ old :: r)⟩ :: post)).map (renew [event]) := by
      rw [hcut] at hd
      rw [hcut, hcut, map_renew_cut hd hid]
    obtain ⟨F', hF', hsame', hels'⟩ := ih (hsame.ids_eq ▸ hn) (hels ▸ hd.map keepsIds_renew)
      (fun x hx => by
        obtain ⟨old', hold', hid'⟩ := hL x (mem_cons_of_mem _ hx)
        obtain ⟨new, hnew, heq⟩ := SameIds.mem_positioned hsame.symm hold'
        exact ⟨new, hnew, hid'.trans heq.symm⟩) hi.2
    refine ⟨F', ?_, hsame'.trans hsame, ?_⟩
    · rw [map_cons, Stored.applyUpdates, foldlM_cons, hset]
      exact hF'
    · rw [hels', hels, map_cons, map_renew_cons hi.1]

end SameIds

/-! ## Next to a room -/

namespace RoomEventCacheState

/-- `g` is the room, but for the versions in the store. -/
structure Like (s g : RoomEventCacheState Event Gap) : Prop where
  chunk : s.roomLinkedChunk = g.roomLinkedChunk
  store : SameIds s.store g.store

/-- Up to versions, the chunks in memory are the last ones of the store, and no event is there
twice. -/
def Tracked (cap : ℕ) (U : List (PlainChunk Event Gap)) (s : RoomEventCacheState Event Gap) : Prop :=
  ∃ g, Like s g ∧ g.Sound cap U

/-- The chunks in memory are the last ones of the store. -/
def Current (s : RoomEventCacheState Event Gap) : Prop := s.memory <:+ s.store ∨ s.store = []

variable {cap : ℕ} {U : List (PlainChunk Event Gap)} {s s' g : RoomEventCacheState Event Gap}

section Like

variable (h : Like s g)
include h

lemma Like.memory : s.memory = g.memory := congrArg plainChunks h.chunk

lemma Like.settled : s.Settled ↔ g.Settled := by rw [Settled, Settled, h.chunk]

lemma Like.atRest : s.AtRest ↔ g.AtRest := by
  have hnil : s.store = [] ↔ g.store = [] := by
    rw [← map_eq_nil_iff (f := mapItems eventId), show s.store.map _ = _ from h.store, map_eq_nil_iff]
  rw [AtRest, AtRest, h.settled, h.memory, hnil]

lemma Like.withChunk (chunk : EventLinkedChunk Event Gap) :
    Like { s with roomLinkedChunk := chunk } { g with roomLinkedChunk := chunk } := ⟨rfl, h.store⟩

lemma Like.touch : Like s.touch g.touch := by
  rw [RoomEventCacheState.touch, RoomEventCacheState.touch, h.chunk]
  exact h.withChunk _

lemma Like.sendUpdatesToStore (us : List (Update Event Gap)) :
    Sim Like (s.sendUpdatesToStore us) (g.sendUpdatesToStore us) := by
  unfold RoomEventCacheState.sendUpdatesToStore
  cases hg : Stored.applyUpdates g.store us with
  | some store =>
    obtain ⟨store', hs, hsame⟩ := h.store.applyUpdates hg
    rw [hs]
    exact .ok ⟨h.chunk, hsame⟩
  | none =>
    cases hs : Stored.applyUpdates s.store us with
    | none => exact .error _
    | some store =>
      obtain ⟨_, hsome, -⟩ := SameIds.applyUpdates h.store.symm hs
      rw [hg] at hsome
      cases hsome

lemma Like.propagateChanges : Sim Like s.propagateChanges g.propagateChanges := by
  rw [RoomEventCacheState.propagateChanges, RoomEventCacheState.propagateChanges, h.chunk]
  exact (h.withChunk _).sendUpdatesToStore _

/-- The linked chunk is changed, and the store follows. -/
lemma Like.edit (x : Except Fault (EventLinkedChunk Event Gap)) :
    Sim Like (lift x >>= fun chunk => RoomEventCacheState.propagateChanges { s with roomLinkedChunk := chunk })
      (lift x >>= fun chunk => RoomEventCacheState.propagateChanges { g with roomLinkedChunk := chunk }) := by
  cases x with
  | error e => exact .error _
  | ok chunk => exact (h.withChunk chunk).propagateChanges

lemma Like.removeInStore (inStore : List (EventId × Position)) :
    Sim Like (s.removeInStore inStore) (g.removeInStore inStore) := by
  unfold RoomEventCacheState.removeInStore
  split
  · exact .ok h
  · exact h.sendUpdatesToStore _

lemma Like.removeInMemory (cap : ℕ) (inMemory : List (EventId × Position)) :
    Sim Like (s.removeInMemory cap inMemory) (g.removeInMemory cap inMemory) := by
  unfold RoomEventCacheState.removeInMemory
  split
  · exact .ok h
  · rw [h.chunk]
    cases removeEventsByPosition cap g.roomLinkedChunk (inMemory.map Prod.snd) with
    | error e => exact .error _
    | ok y =>
      cases hy : expect y.1 with
      | error e => simpa [lift, Except.mapError, hy] using .error _
      | ok _ => simpa [lift, Except.mapError, hy] using (h.withChunk y.2).propagateChanges

lemma Like.removeEvents (cap : ℕ) (inMemory inStore : List (EventId × Position)) :
    Sim Like (s.removeEvents cap inMemory inStore) (g.removeEvents cap inMemory inStore) :=
  (h.removeInStore inStore).bind fun _ _ h' => h'.removeInMemory cap inMemory

end Like

lemma Sound.tracked (h : s.Sound cap U) : s.Tracked cap U := ⟨s, ⟨rfl, rfl⟩, h⟩

namespace Tracked

section

variable (h : s.Tracked cap U)
include h

lemma distinct : Distinct (elements (U ++ s.memory)) := by
  obtain ⟨g, hlike, hsound⟩ := h
  rw [hlike.memory]
  exact hsound.distinct

lemma nodup : (ids (U ++ s.memory)).Nodup := by
  obtain ⟨g, hlike, hsound⟩ := h
  rw [hlike.memory]
  exact hsound.nodup

lemma touch : s.touch.Tracked cap U :=
  have ⟨g, hlike, hsound⟩ := h
  ⟨g.touch, hlike.touch, hsound.touch⟩

lemma atRest_touch (hs : s.AtRest) : s.touch.AtRest :=
  have ⟨_, hlike, hsound⟩ := h
  hlike.touch.atRest.2 ((hlike.atRest.1 hs).touch hsound)

lemma sameIds (hs : s.Settled) : SameIds s.store (U ++ s.memory) := by
  obtain ⟨g, hlike, hsound⟩ := h
  rw [hlike.memory, ← hsound.store_eq (hlike.settled.1 hs)]
  exact hlike.store

lemma distinct_store (hs : s.AtRest) : Distinct (elements s.store) := by
  obtain ⟨g, hlike, hsound⟩ := h
  refine hsound.distinct.congr ?_
  rw [hlike.store.elements_eq, (hsound.store_elements (hlike.atRest.1 hs)).1]

lemma idsOf_store (hs : s.AtRest) : idsOf (elements s.store) = idsOf (elements (U ++ s.memory)) := by
  obtain ⟨g, hlike, hsound⟩ := h
  rw [hlike.store.elements_eq, (hsound.store_elements (hlike.atRest.1 hs)).1, hlike.memory]

/-- **The store names the events of the room.** -/
theorem finds (hs : s.AtRest) {filter : DuplicateFilter Event EventId Gap} (hfilter : filter.Exact)
    (l : List EventId) :
    Finds (U ++ s.memory) (l.map some) (filter s.store l) := by
  obtain ⟨g, hlike, hsound⟩ := h
  have hentries : entries s.store l = entries (U ++ g.memory) l := by
    rw [hlike.store.entries_eq, entries, (hsound.store_elements (hlike.atRest.1 hs)).2]
    rfl
  rw [hlike.memory]
  exact finds_of_perm hsound.nodup (hentries ▸ hfilter s.store l)

theorem findsOf (hs : s.AtRest) {filter : DuplicateFilter Event EventId Gap} (hfilter : filter.Exact)
    (batch : List Event) : Finds (U ++ s.memory) (batch.map eventId) (filter s.store (batch.filterMap eventId)) :=
  (h.finds hs hfilter (batch.filterMap eventId)).congr fun i => by simp

theorem removeNamed {L : List (EventId × Position)} (hL : Named (U ++ s.memory) L) :
    ∃ s' U', s.removeEvents cap (L.filter fun x => x.2.chunkIdentifier ∈ ids s.memory)
        (L.filter fun x => x.2.chunkIdentifier ∉ ids s.memory) = .ok s' ∧ s'.Tracked cap U' ∧
      TakenOut (names L) s.memory s'.memory ∧ elements U' = without (names L) (elements U) ∧
      (s.Settled → s'.Settled) := by
  obtain ⟨g, hlike, hsound⟩ := h
  rw [hlike.memory] at hL ⊢
  obtain ⟨g', U', hg', hsound', hout, hels, hsettled⟩ := hsound.removeNamed hL
  obtain ⟨s', hs', hlike'⟩ := (hg' ▸ hlike.removeEvents cap _ _).of_ok_right
  exact ⟨s', U', hs', ⟨g', hlike', hsound'⟩, by rwa [hlike'.memory], hels, fun hs =>
    hlike'.settled.2 (hsettled (hlike.settled.1 hs))⟩

/-- **Only the last chunk stays in memory**, in the version of the store. -/
theorem shrinkToLastReloadedChunk (hs : s.AtRest) :
    ∃ s' U', s.shrinkToLastReloadedChunk cap = .ok s' ∧ s'.Tracked cap U' ∧ s'.Settled ∧
      s'.store = s.store := by
  have hfits : (ids s.store).Nodup ∧ ∀ c ∈ s.store, c.content.numItems ≤ cap := by
    obtain ⟨g, hlike, hsound⟩ := id h
    rcases hs with hs | ⟨hnil, -⟩
    · have hsame := h.sameIds hs
      obtain ⟨M, -, hm⟩ := hsound.held
      rw [hlike.memory] at hsame
      exact ⟨hsame.ids_eq ▸ hm.nodup, hsame.capacity hm.capacity⟩
    · simp [hnil]
  obtain ⟨s', U', hs', hheld, hsettled, hstore⟩ := held_shrinkToLastReloadedChunk hfits.1 hfits.2
  refine ⟨s', U', hs', Sound.tracked ⟨hheld, ?_⟩, hsettled, hstore⟩
  rw [← hheld.store_eq hsettled, hstore]
  exact h.distinct_store hs

/-- The store, with what is not in memory. -/
lemma exists_unloaded (hs : s.Settled) :
    ∃ V N, s.store = V ++ N ∧ SameIds N s.memory ∧ Sound cap V ⟨s.roomLinkedChunk, V ++ s.memory⟩ := by
  have hsame := h.sameIds hs
  rw [SameIds, map_append] at hsame
  obtain ⟨V, N, hstore, hV, hN⟩ := map_eq_append_iff.1 hsame
  obtain ⟨g, hlike, hsound⟩ := h
  obtain ⟨M, hM, hm⟩ := hsound.held
  refine ⟨V, N, hstore, hN, ⟨⟨s.memory, rfl, ?_⟩, ?_⟩⟩
  · have hmem : M = s.memory :=
      append_cancel_left (hM.symm.trans ((hsound.store_eq (hlike.settled.1 hs)).trans (by rw [hlike.memory])))
    rw [← hmem, hlike.chunk]
    exact hm.change_unloaded (SameIds.ids_eq hV) (SameIds.capacity hV (forall_mem_append.1 hm.capacity).1)
  · have hd := hsound.distinct
    rw [← hlike.memory] at hd
    refine hd.congr ?_
    rw [elements_append, elements_append, idsOf_append, idsOf_append]
    exact congrArg (· ++ _) (SameIds.elements_eq hV).symm

lemma sound_of_current (hs : s.AtRest) (hc : s.Current) : ∃ V, s.Sound cap V := by
  by_cases hnil : s.store = []
  · obtain ⟨g, hlike, hsound⟩ := h
    have hgnil : g.store = [] := by
      rw [← map_eq_nil_iff (f := mapItems eventId), ← show s.store.map _ = _ from hlike.store, hnil, map_nil]
    have heq : s = g := by
      cases s
      cases g
      exact congrArg₂ mk hlike.chunk (hnil.trans hgnil.symm)
    exact ⟨U, heq ▸ hsound⟩
  · obtain ⟨V, N, hstore, hN, hsound⟩ := h.exists_unloaded (hs.resolve_right fun hr => hnil hr.1)
    obtain ⟨W, hW⟩ := hc.resolve_right hnil
    have hlength : N.length = s.memory.length := by
      simpa using congrArg length (show N.map _ = _ from hN)
    have hN' : N = s.memory := (append_inj' (hstore.symm.trans hW.symm) hlength).2
    rw [← hN', ← hstore] at hsound
    exact ⟨V, hsound⟩

/-- **The chunk before the first one in memory is loaded.** -/
theorem loadMoreEventsBackwards (hs : s.AtRest) :
    ∃ s' U', s.loadMoreEventsBackwards cap = .ok s' ∧ s'.Tracked cap U' ∧ s'.AtRest ∧ s'.store = s.store := by
  have ht := h.touch
  have hrest := h.atRest_touch hs
  have hsame : ∃ s' U', (Except.ok s.touch : Except EventCacheError _) = .ok s' ∧
      s'.Tracked cap U' ∧ s'.AtRest ∧ s'.store = s.store := ⟨s.touch, U, rfl, ht, hrest, rfl⟩
  unfold RoomEventCacheState.loadMoreEventsBackwards
  simp only
  split
  · exact hsame
  split
  · exact hsame
  next prevFirstChunk hhead =>
  split
  · exact hsame
  next newFirstChunk hload =>
  have hsettled : s.touch.Settled := by
    rcases hrest with hrest | ⟨hrest, -⟩
    · exact hrest
    · rw [hrest] at hload
      simp [loadPreviousChunk, rawChunks] at hload
  obtain ⟨V, N, hstore, hN, hsound⟩ := ht.exists_unloaded hsettled
  have hload' : loadPreviousChunk (V ++ s.touch.memory) prevFirstChunk.identifier = some newFirstChunk := by
    obtain ⟨rest, hmemory⟩ := List.head?_eq_some_iff.1 hhead
    have hmemory : s.touch.memory = prevFirstChunk :: rest := hmemory
    rw [hmemory] at hN hsound ⊢
    obtain ⟨first, N, rfl, hfirst, -⟩ := map_eq_cons_iff.1 hN
    have hid : first.identifier = prevFirstChunk.identifier :=
      congrArg (fun c : PlainChunk (Option EventId) Gap => c.identifier) hfirst
    have hn := hsound.nodup
    rw [show memory _ = s.touch.memory from rfl, hmemory] at hn
    have hn' : (ids (V ++ first :: N)).Nodup := by
      rw [← hstore, (ht.sameIds hsettled).ids_eq]
      exact ht.nodup
    rw [hstore, ← hid, loadPreviousChunk_append hn'] at hload
    rw [loadPreviousChunk_append hn, ← hload, hid]
  obtain ⟨g', U', hg', hheld, hsettled', hgstore, d, rfl, hmemory'⟩ :=
    hsound.held.loadPrevious hsettled hhead hload'
  have hsound' : g'.Sound cap U' := by
    refine ⟨hheld, ?_⟩
    rw [hmemory']
    simpa using hsound.distinct
  rcases hins : s.touch.roomLinkedChunk.insertNewChunkAsFirst cap newFirstChunk with ⟨_ | _, chunk⟩
  · rw [hins] at hg'
    cases hg'
  · rw [hins] at hg'
    cases hg'
    have hsame : SameIds s.store ((U' ++ [d]) ++ s.touch.memory) := by
      rw [show s.store = _ from hstore, SameIds, map_append, show N.map _ = _ from hN, ← map_append]
    exact ⟨_, U', rfl, ⟨⟨⟨chunk.chunks, []⟩, (U' ++ [d]) ++ s.touch.memory⟩, ⟨rfl, hsame⟩, hsound'⟩,
      .inl rfl, rfl⟩

end

end Tracked

/-! ## After events were put in -/

section PostProcess

lemma saveEvent_spec (hnone : none ∉ eventIds (elements s.store)) (event : Event) :
    (s.saveEvent event).roomLinkedChunk = s.roomLinkedChunk ∧ SameIds (s.saveEvent event).store s.store ∧
      elements (s.saveEvent event).store = (elements s.store).map (renew [event]) := by
  unfold saveEvent
  cases hid : eventId event with
  | none =>
    refine ⟨rfl, rfl, (map_renew_self fun i hi hmem => hnone ?_).symm⟩
    rw [map_singleton, mem_singleton, hid] at hmem
    exact hmem ▸ hi
  | some id =>
    refine ⟨rfl, ?_, ?_⟩
    · rw [SameIds, map_map]
      refine map_congr_left fun c _ => ?_
      cases hc : c.content with
      | gap gap => simp [mapItems, hc]
      | items xs =>
        simp only [Function.comp, mapItems, hc, map_map, PlainChunk.mk.injEq,
          ChunkContent.items.injEq, true_and]
        refine map_congr_left fun x _ => ?_
        by_cases heq : eventId x = some id <;> simp [heq, hid]
    · rw [elements_mapItems]
      refine map_congr_left fun el _ => ?_
      cases el with
      | gap gap => rfl
      | item old => by_cases heq : eventId old = some id <;> simp [mapElement, renew, hid, heq, eq_comm]

lemma findEvent_cases (s : RoomEventCacheState Event Gap) (i : EventId) :
    (s.findEvent i = none ∧ version (elements s.store) (elements s.memory) i = none) ∨
    (∃ p event, s.findEvent i = some (.memory p, event) ∧ (p, event) ∈ positioned s.memory ∧
      version (elements s.store) (elements s.memory) i = some event ∧ eventId event = some i) ∨
    (∃ event, s.findEvent i = some (.store, event) ∧
      version (elements s.store) (elements s.memory) i = some event ∧
      eventId event = some i ∧ some i ∉ eventIds (elements s.memory)) := by
  have hloaded : (eventsOf (elements s.memory)).reverse = s.roomLinkedChunk.events.reverse.map Prod.snd := by
    rw [eventsOf_elements, ← map_snd_positioned, map_reverse]
    rfl
  rw [findEvent, version, hloaded, eventsOf_elements, find?_map]
  simp only [Function.comp_def]
  cases hfind : s.roomLinkedChunk.events.reverse.find? fun x => decide (eventId x.2 = some i) with
  | some x =>
    have hmem := mem_of_find?_eq_some hfind
    rw [mem_reverse] at hmem
    exact .inr (.inl ⟨x.1, x.2, rfl, hmem, rfl, by simpa using List.find?_some hfind⟩)
  | none =>
    have hnot : some i ∉ eventIds (elements s.memory) := by
      rw [eventIds_elements]
      intro hmem
      obtain ⟨x, hx, heq⟩ := mem_map.1 hmem
      exact List.find?_eq_none.1 hfind x (mem_reverse.2 hx) (by simpa using heq)
    cases hstore : (flatten s.store).find? fun event => decide (eventId event = some i) with
    | none => exact .inl ⟨rfl, rfl⟩
    | some event => exact .inr (.inr ⟨event, rfl, rfl, by simpa using List.find?_some hstore, hnot⟩)

lemma idsOf_postProcess (events : List Event) (x : List (Element Event Gap) × List (Element Event Gap)) :
    idsOf (events.foldl postProcess x).1 = idsOf x.1 := by
  induction events generalizing x with
  | nil => rfl
  | cons event events ih =>
    rw [foldl_cons, ih, postProcess]
    exact (idsOf_map keepsIds_renew).trans (idsOf_map keepsIds_renew)

section

variable (h : s.Tracked cap U) (hs : s.Settled)
include h hs

lemma Tracked.saveEvent (event : Event) :
    (s.saveEvent event).Tracked cap U ∧ (s.saveEvent event).Settled ∧
      elements (s.saveEvent event).store = (elements s.store).map (renew [event]) ∧
      (s.saveEvent event).memory = s.memory := by
  obtain ⟨hchunk, hsame, hels⟩ := saveEvent_spec (h.distinct_store (.inl hs)).1 event
  obtain ⟨g, hlike, hsound⟩ := h
  refine ⟨⟨g, ⟨hchunk.trans hlike.chunk, hsame.trans hlike.store⟩, hsound⟩, ?_, hels,
    congrArg plainChunks hchunk⟩
  rw [Settled, hchunk]
  exact hs

lemma Tracked.replaceEventAt_memory {p : Position} {event target : Event}
    (hmem : (p, target) ∈ positioned s.memory) (hid : eventId event = eventId target) :
    ∃ s', s.replaceEventAt cap (.memory p) event = .ok s' ∧ s'.Tracked cap U ∧ s'.Settled ∧
      elements s'.store = (elements s.store).map (renew [event]) ∧
      elements s'.memory = (elements s.memory).map (renew [event]) := by
  have hd := h.distinct
  have hsame := h.sameIds hs
  obtain ⟨old, hold, hid'⟩ := SameIds.mem_positioned hsame.symm (show (p, target) ∈ positioned (U ++ s.memory) by simp [hmem])
  obtain ⟨F', hF', -, hels'⟩ := applyUpdates_replace (hsame.ids_eq ▸ h.nodup) (h.distinct_store (.inl hs)) (L := [(p, event)])
    (by simpa using ⟨old, hold, hid.trans hid'.symm⟩) (by simp)
  obtain ⟨g, hlike, hsound⟩ := h
  have hupdates : g.roomLinkedChunk.updates = [] := hlike.settled.1 hs
  obtain ⟨M, hM, hm⟩ := hsound.held
  rw [hlike.memory] at hmem hd ⊢
  obtain ⟨chunk, hchunk, hm', hels, hus, -⟩ := hm.replaceItemAt hsound.distinct_memory hmem hid
  rw [hupdates, nil_append] at hus
  have hU : (elements U).map (renew [event]) = elements U := by
    refine map_renew_self fun j hj hmem' => ?_
    rw [map_singleton, mem_singleton, hid] at hmem'
    rw [elements_append] at hd
    exact hd.disjoint hj (hmem' ▸ mem_eventIds (mem_elements_of_mem_positioned hmem))
  have hsound' : Sound cap U ⟨chunk, g.store⟩ := by
    refine ⟨⟨M, hM, hm'⟩, ?_⟩
    rw [show memory _ = chunk.plainChunks from rfl, elements_append, hels, ← hU, ← map_append,
      ← elements_append]
    exact hd.map keepsIds_renew
  obtain ⟨g', hg', hsound'', -, -⟩ := hsound'.propagateChanges
  have hrun : propagateChanges (⟨chunk, s.store⟩ : RoomEventCacheState Event Gap) =
    .ok ⟨⟨chunk.chunks, []⟩, F'⟩ := by
    unfold propagateChanges sendUpdatesToStore
    rw [show (⟨chunk, s.store⟩ : RoomEventCacheState Event Gap).roomLinkedChunk.updates = _ from hus]
    simp only [show applyUpdates s.store [.replaceItem p event] = some F' from hF']
  obtain ⟨s', hs', hlike'⟩ := (hg' ▸ (hlike.withChunk chunk).propagateChanges).of_ok_right
  refine ⟨⟨⟨chunk.chunks, []⟩, F'⟩, ?_, ⟨g', ?_, hsound''⟩, rfl, hels', hels⟩
  · simp only [RoomEventCacheState.replaceEventAt, EventLinkedChunk.replaceEventAt, hlike.chunk, hchunk]
    exact hrun
  · rw [hs'] at hrun
    exact Except.ok.inj hrun ▸ hlike'

/-- **A redaction replaces its target, in the store and in memory.** -/
theorem Tracked.maybeApplyNewRedaction (event : Event) :
    ∃ s', s.maybeApplyNewRedaction cap event = .ok s' ∧ s'.Tracked cap U ∧ s'.Settled ∧
      elements s'.store = (elements s.store).map (renew (redaction (elements s.store) (elements s.memory) event).toList) ∧
      elements s'.memory =
        (elements s.memory).map (renew (redaction (elements s.store) (elements s.memory) event).toList) := by
  have hsame (els : List (Element Event Gap)) : els = els.map (renew []) := (map_renew_self (by simp)).symm
  unfold RoomEventCacheState.maybeApplyNewRedaction redaction
  cases htarget : redactionTarget event with
  | none => exact ⟨s, rfl, h, hs, hsame _, hsame _⟩
  | some i =>
    rcases s.findEvent_cases i with ⟨hfind, hv⟩ | ⟨p, target, hfind, hmem, hv, hid⟩ | ⟨target, hfind, hv, hid, hnot⟩
    · simp only [hfind, Option.bind_some, hv]
      exact ⟨s, rfl, h, hs, hsame _, hsame _⟩
    · simp only [hfind, Option.bind_some, hv]
      cases hr : redacted target event with
      | none => exact ⟨s, rfl, h, hs, hsame _, hsame _⟩
      | some new => exact h.replaceEventAt_memory hs hmem (eventId_redacted hr)
    · simp only [hfind, Option.bind_some, hv]
      cases hr : redacted target event with
      | none => exact ⟨s, rfl, h, hs, hsame _, hsame _⟩
      | some new =>
        obtain ⟨htracked, hsettled, hels, hmemory⟩ := h.saveEvent hs new
        refine ⟨s.saveEvent new, rfl, htracked, hsettled, hels, ?_⟩
        rw [hmemory]
        refine (map_renew_self fun j hj hmem => hnot ?_).symm
        rw [Option.toList_some, map_singleton, mem_singleton, eventId_redacted hr, hid] at hmem
        exact hmem ▸ hj

/-- **Redactions and bundled events**, one after the other. -/
theorem Tracked.postProcessUpsertedEvents (events : List Event) :
    ∃ s', s.postProcessUpsertedEvents cap events = .ok s' ∧ s'.Tracked cap U ∧ s'.Settled ∧
      (elements s'.store, elements s'.memory) =
        events.foldl postProcess (elements s.store, elements s.memory) := by
  induction events generalizing s with
  | nil => exact ⟨s, rfl, h, hs, rfl⟩
  | cons event events ih =>
    obtain ⟨s₁, hs₁, htracked₁, hsettled₁, hstore₁, hmemory₁⟩ := h.maybeApplyNewRedaction hs event
    obtain ⟨s₂, hrun, htracked₂, hsettled₂, hels₂⟩ : ∃ s₂ : RoomEventCacheState Event Gap,
        s.postProcessUpsertedEvents cap (event :: events) = s₂.postProcessUpsertedEvents cap events ∧
        s₂.Tracked cap U ∧ s₂.Settled ∧
        (elements s₂.store, elements s₂.memory) =
          postProcess (elements s.store, elements s.memory) event := by
      simp only [RoomEventCacheState.postProcessUpsertedEvents, foldlM_cons, hs₁, ok_bind, postProcess,
        ← hstore₁, ← hmemory₁]
      cases bundledLatestThreadEvent event with
      | none => exact ⟨s₁, rfl, htracked₁, hsettled₁, by rw [Option.toList_none, map_renew_self (by simp)]⟩
      | some bundled =>
        obtain ⟨htracked, hsettled, hels, hmemory⟩ := htracked₁.saveEvent hsettled₁ bundled
        exact ⟨_, rfl, htracked, hsettled, by rw [hels, hmemory]; rfl⟩
    obtain ⟨s', hs', htracked', hsettled', hels'⟩ := ih htracked₂ hsettled₂
    refine ⟨s', hrun.trans hs', htracked', hsettled', ?_⟩
    rw [hels', hels₂]
    rfl

end

end PostProcess

end RoomEventCacheState

end HaranaMatrix.EventCache
