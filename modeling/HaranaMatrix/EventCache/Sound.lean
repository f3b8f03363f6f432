import HaranaMatrix.EventCache.Removal
import HaranaMatrix.EventCache.Room

/-!
# The invariant of a room

The chunks in memory are the last ones of the store, and no event is there twice. What is done to
the events of a room — removing, redacting, loading, unloading — keeps the invariant, never meets a
position that is not there, and does to the flat sequence what is meant. -/

set_option linter.unusedSectionVars false

namespace HaranaMatrix.EventCache

open Linked RoomEvent List EventLinkedChunk RoomEventCacheState Stored

variable {Event EventId UserId Gap : Type} [RoomEvent Event EventId UserId] [DecidableEq EventId]
  [DecidableEq UserId]

namespace RoomEventCacheState

variable (s : RoomEventCacheState Event Gap)

/-- The chunks in memory. -/
abbrev memory : List (PlainChunk Event Gap) := s.roomLinkedChunk.plainChunks

/-- The chunks in memory are the last ones of the store; `U` are the stored chunks that are not in
memory. -/
def Held (cap : ℕ) (U : List (PlainChunk Event Gap)) (s : RoomEventCacheState Event Gap) : Prop :=
  ∃ M, s.store = U ++ M ∧ Mirrors cap U M s.roomLinkedChunk

/-- `U` are the stored chunks that are not in memory. -/
structure Sound (cap : ℕ) (U : List (PlainChunk Event Gap)) (s : RoomEventCacheState Event Gap) : Prop where
  held : s.Held cap U
  distinct : Distinct (elements (U ++ s.memory))

/-- No update is on its way to the store. -/
def Settled : Prop := s.roomLinkedChunk.updates = []

/-- No update is on its way to the store, or only the first chunk of an empty room. -/
def AtRest : Prop :=
  s.Settled ∨ (s.store = [] ∧ ∀ c ∈ s.memory, c.content = .items [])

section Invariant

variable {cap : ℕ} {U : List (PlainChunk Event Gap)} {s s' : RoomEventCacheState Event Gap}

lemma Sound.distinct_memory (h : s.Sound cap U) : Distinct (elements s.memory) := by
  have := h.distinct
  rw [elements_append] at this
  exact this.right

lemma Sound.distinct_unloaded (h : s.Sound cap U) : Distinct (elements U) := by
  have := h.distinct
  rw [elements_append] at this
  exact this.left

lemma Held.nodup (h : s.Held cap U) : (ids (U ++ s.memory)).Nodup :=
  have ⟨_, _, hm⟩ := h
  hm.nodup

lemma Sound.nodup (h : s.Sound cap U) : (ids (U ++ s.memory)).Nodup := h.held.nodup

lemma Sound.nodup_memory (h : s.Sound cap U) : (ids s.memory).Nodup :=
  have ⟨_, _, hm⟩ := h.held
  hm.nodup_memory

lemma Held.store_eq (h : s.Held cap U) (hs : s.Settled) : s.store = U ++ s.memory := by
  obtain ⟨M, hM, hm⟩ := h
  have := hm.pending U rfl
  rw [show s.roomLinkedChunk.updates = [] from hs] at this
  exact hM.trans (Option.some.inj this)

lemma Sound.store_eq (h : s.Sound cap U) (hs : s.Settled) : s.store = U ++ s.memory := h.held.store_eq hs

lemma positioned_eq_nil {cs : List (PlainChunk Event Gap)} (h : ∀ c ∈ cs, c.content = .items []) :
    positioned cs = [] := by
  refine flatMap_eq_nil_iff.2 fun c hc => ?_
  rw [h c hc]
  rfl

lemma elements_eq_nil {cs : List (PlainChunk Event Gap)} (h : ∀ c ∈ cs, c.content = .items []) :
    elements cs = [] := by
  refine flatMap_eq_nil_iff.2 fun c hc => ?_
  rw [h c hc]
  rfl

lemma Sound.store_elements (h : s.Sound cap U) (hs : s.AtRest) :
    elements s.store = elements (U ++ s.memory) ∧ positioned s.store = positioned (U ++ s.memory) := by
  rcases hs with hs | ⟨hnil, hempty⟩
  · rw [h.store_eq hs]
    exact ⟨rfl, rfl⟩
  · obtain ⟨M, hM, -⟩ := h.held
    rw [hnil] at hM
    obtain ⟨rfl, -⟩ := append_eq_nil_iff.1 hM.symm
    rw [hnil, nil_append, elements_eq_nil hempty, positioned_eq_nil hempty]
    exact ⟨rfl, rfl⟩

lemma Held.touch (h : s.Held cap U) : s.touch.Held cap U :=
  have ⟨M, hM, hm⟩ := h
  ⟨M, hM, hm.touch⟩

lemma elements_touch : elements (U ++ s.touch.memory) = elements (U ++ s.memory) := by
  rw [elements_append, elements_append, show elements s.touch.memory =
    elements s.memory from Mirrors.elements_touch _]

lemma Sound.touch (h : s.Sound cap U) : s.touch.Sound cap U :=
  ⟨h.held.touch, by rw [elements_touch]; exact h.distinct⟩

lemma AtRest.touch_held (hs : s.AtRest) (h : s.Held cap U) : s.touch.AtRest := by
  by_cases hne : s.memory = []
  · -- the first chunk is created
    have hchunks : s.roomLinkedChunk.chunks.chunks = [] := map_eq_nil_iff.1 hne
    have ⟨M, hM, hm⟩ := h
    have hU : U = [] := hm.eq_nil_of_head (by simp [hchunks])
    have hstore : s.store = [] := by
      rcases hs with hs | ⟨hs, -⟩
      · rw [h.store_eq hs, hU, hne]
        rfl
      · exact hs
    refine .inr ⟨hstore, fun c hc => ?_⟩
    have hmem : s.touch.memory = [⟨ChunkIdentifierGenerator.firstIdentifier, .items []⟩] := by
      show plain s.roomLinkedChunk.chunks.touch.1.chunks = _
      rw [Chain.touch, hchunks]
      rfl
    rw [hmem, mem_singleton] at hc
    rw [hc]
  · have : s.touch = s := by
      rw [touch, Mirrors.touch_plainChunks hne]
    rwa [this]

lemma AtRest.touch (hs : s.AtRest) (h : s.Sound cap U) : s.touch.AtRest := hs.touch_held h.held

lemma held_empty : (empty : RoomEventCacheState Event Gap).Held cap [] := by
  have hready : Ready none [] (empty : RoomEventCacheState Event Gap).roomLinkedChunk.chunks :=
    ⟨rfl, by simp [empty, new, Chain.new]⟩
  have hmemory : (empty : RoomEventCacheState Event Gap).roomLinkedChunk.plainChunks = [] := rfl
  exact ⟨[], rfl, hready, by simp [hmemory], by simp [hmemory], fun U' _ => rfl⟩

lemma sound_empty : (empty : RoomEventCacheState Event Gap).Sound cap [] := by
  have hmemory : (empty : RoomEventCacheState Event Gap).roomLinkedChunk.plainChunks = [] := rfl
  exact ⟨held_empty, by simp [hmemory], by simp [hmemory]⟩

/-- **The updates reach the store.** -/
theorem Held.propagateChanges (h : s.Held cap U) :
    ∃ s', s.propagateChanges = .ok s' ∧ s'.Held cap U ∧ s'.Settled ∧ s'.memory = s.memory := by
  obtain ⟨M, hM, hm⟩ := h
  refine ⟨⟨⟨s.roomLinkedChunk.chunks, []⟩, U ++ s.memory⟩, ?_, ⟨s.memory, rfl, ?_⟩, rfl, rfl⟩
  · simp only [RoomEventCacheState.propagateChanges, sendUpdatesToStore]
    rw [hM, hm.pending U rfl]
  · exact ⟨hm.ready, hm.nodup, hm.capacity, fun U' _ => rfl⟩

theorem Sound.propagateChanges (h : s.Sound cap U) :
    ∃ s', s.propagateChanges = .ok s' ∧ s'.Sound cap U ∧ s'.Settled ∧ s'.memory = s.memory := by
  obtain ⟨s', hs', hheld, hsettled, hmemory⟩ := h.held.propagateChanges
  exact ⟨s', hs', ⟨hheld, by rw [hmemory]; exact h.distinct⟩, hsettled, hmemory⟩

end Invariant

/-! ## Removing events -/

section Positions

variable {Name : Type} {P : Name → Event → Prop} {cap : ℕ} {U F : List (PlainChunk Event Gap)}
  {s : RoomEventCacheState Event Gap} {L inMemory inStore : List (Name × Position)}

/-- These are distinct positions of events with `P`. -/
def Placed (P : Name → Event → Prop) (F : List (PlainChunk Event Gap)) (L : List (Name × Position)) : Prop :=
  (L.map Prod.snd).Nodup ∧ ∀ x ∈ L, ∃ event, (x.2, event) ∈ positioned F ∧ P x.1 event

lemma Placed.sorted (h : Placed P F L) :
    (∀ p ∈ sortPositionsDescending (L.map Prod.snd), ∃ event, (p, event) ∈ positioned F) ∧
      (sortPositionsDescending (L.map Prod.snd)).Pairwise Before := by
  refine ⟨fun p hp => ?_, pairwise_sortPositionsDescending h.1⟩
  obtain ⟨x, hx, rfl⟩ := mem_map.1 (mem_sortPositionsDescending.1 hp)
  obtain ⟨event, hevent, -⟩ := h.2 x hx
  exact ⟨event, hevent⟩

lemma Placed.split (h : Placed P (U ++ F) L) (hn : (ids (U ++ F)).Nodup) :
    Placed P F (L.filter fun x => x.2.chunkIdentifier ∈ ids F) ∧
      Placed P U (L.filter fun x => x.2.chunkIdentifier ∉ ids F) := by
  rw [ids_append] at hn
  refine ⟨⟨h.1.sublist (filter_sublist.map _), fun x hx => ?_⟩,
    ⟨h.1.sublist (filter_sublist.map _), fun x hx => ?_⟩⟩
  all_goals
    rw [mem_filter, decide_eq_true_eq] at hx
    obtain ⟨event, hp, hP⟩ := h.2 x hx.1
    rw [positioned_append, mem_append] at hp
  · refine ⟨event, hp.resolve_left fun hU => ?_, hP⟩
    exact (nodup_append.1 hn).2.2 _ (mem_positioned hU) _ hx.2 rfl
  · exact ⟨event, hp.resolve_right fun hF => hx.2 (mem_positioned hF), hP⟩

lemma map_removing_filter {f : ChunkIdentifier → Bool} (hf : ∀ id ∈ ids F, f id) :
    F.map (removing ((L.filter fun x => f x.2.chunkIdentifier).map Prod.snd)) =
      F.map (removing (L.map Prod.snd)) := by
  refine map_congr_left fun c hc => removing_congr fun p hp => ?_
  have hkept : f p.chunkIdentifier := hf _ (hp ▸ mem_map_of_mem hc)
  simp only [mem_map, mem_filter]
  exact exists_congr fun x => ⟨fun h => ⟨h.1.1, h.2⟩, fun h => ⟨⟨h.1, h.2 ▸ hkept⟩, h.2⟩⟩

section

variable (h : s.Held cap U)
include h

lemma Held.removeInStore (hL : Placed P U inStore) :
    ∃ s', s.removeInStore inStore = .ok s' ∧ s'.Held cap (U.map (removing (inStore.map Prod.snd))) ∧
      s'.roomLinkedChunk = s.roomLinkedChunk := by
  by_cases hnil : inStore = []
  · refine ⟨s, by simp [RoomEventCacheState.removeInStore, hnil], ?_, rfl⟩
    rw [hnil, map_nil, map_removing_nil]
    exact h
  obtain ⟨M, hM, hm⟩ := h
  have hU := applyUpdates_removing M hm.nodup_unloaded hL.sorted.1 hL.sorted.2
  rw [removing_sorted] at hU
  refine ⟨⟨s.roomLinkedChunk, U.map (removing (inStore.map Prod.snd)) ++ M⟩, ?_,
    ⟨M, rfl, hm.change_unloaded (ids_map_removing U) fun c hc => ?_⟩, rfl⟩
  · rw [RoomEventCacheState.removeInStore, if_neg (by simpa using hnil), sendUpdatesToStore, hM, hU]
  · obtain ⟨d, hd, rfl⟩ := mem_map.1 hc
    exact (numItems_removing_le d).trans (hm.capacity d (mem_append_left _ hd))

lemma Held.removeInMemory (hL : Placed P s.memory inMemory) :
    ∃ s', s.removeInMemory cap inMemory = .ok s' ∧ s'.Held cap U ∧ (s.Settled → s'.Settled) ∧
      Thinned (s.memory.map (removing (inMemory.map Prod.snd))) s'.memory := by
  by_cases hnil : inMemory = []
  · refine ⟨s, by simp [RoomEventCacheState.removeInMemory, hnil], h, id, ?_⟩
    rw [hnil, map_nil, map_removing_nil]
    exact .refl _
  obtain ⟨M, hM, hm⟩ := h
  obtain ⟨chunk, hchunk, hm', hthin⟩ := hm.removeItems hL.sorted.1 hL.sorted.2
  rw [removing_sorted] at hthin
  have hheld : (⟨chunk, s.store⟩ : RoomEventCacheState Event Gap).Held cap U := ⟨M, hM, hm'⟩
  obtain ⟨s', hs', hheld', hsettled, hmemory⟩ := hheld.propagateChanges
  refine ⟨s', ?_, hheld', fun _ => hsettled, by rw [hmemory]; exact hthin⟩
  rw [RoomEventCacheState.removeInMemory, if_neg (by simpa using hnil), EventLinkedChunk.removeEventsByPosition, hchunk]
  exact hs'

/-- **`remove_events` removes the events of the positions.** -/
theorem Held.removeEvents (hmem : Placed P s.memory inMemory) (hstore : Placed P U inStore) :
    ∃ s', s.removeEvents cap inMemory inStore = .ok s' ∧
      s'.Held cap (U.map (removing (inStore.map Prod.snd))) ∧ (s.Settled → s'.Settled) ∧
      Thinned (s.memory.map (removing (inMemory.map Prod.snd))) s'.memory := by
  obtain ⟨s₁, hs₁, hheld₁, hchunk⟩ := h.removeInStore hstore
  have hsame : s₁.memory = s.memory := congrArg plainChunks hchunk
  obtain ⟨s', hs', hheld', hsettled, hthin⟩ := hheld₁.removeInMemory (hsame ▸ hmem)
  refine ⟨s', ?_, hheld', fun hs => hsettled ?_, hsame ▸ hthin⟩
  · rw [RoomEventCacheState.removeEvents, hs₁]
    exact hs'
  · rw [Settled, hchunk]
    exact hs

/-- **Events of the room are removed, wherever they are.** -/
theorem Held.removePlaced (hL : Placed P (U ++ s.memory) L) :
    ∃ s', s.removeEvents cap (L.filter fun x => x.2.chunkIdentifier ∈ ids s.memory)
        (L.filter fun x => x.2.chunkIdentifier ∉ ids s.memory) = .ok s' ∧
      s'.Held cap (U.map (removing (L.map Prod.snd))) ∧ (s.Settled → s'.Settled) ∧
      Thinned (s.memory.map (removing (L.map Prod.snd))) s'.memory := by
  obtain ⟨hmem, hstore⟩ := hL.split h.nodup
  obtain ⟨s', hs', hheld, hsettled, hthin⟩ := h.removeEvents hmem hstore
  have hn := h.nodup
  rw [ids_append, nodup_append] at hn
  rw [map_removing_filter (f := fun id => id ∈ ids s.memory) fun id hid => decide_eq_true hid] at hthin
  rw [map_removing_filter (f := fun id => id ∉ ids s.memory) fun id hid =>
    decide_eq_true fun hid' => hn.2.2 id hid id hid' rfl] at hheld
  exact ⟨s', hs', hheld, hsettled, hthin⟩

end

end Positions

variable (F : List (PlainChunk Event Gap))

/-- These are events of the chunks, with their positions. -/
def Named (L : List (EventId × Position)) : Prop :=
  (L.map Prod.snd).Nodup ∧ ∀ x ∈ L, ∃ event, (x.2, event) ∈ positioned F ∧ eventId event = some x.1

/-- The identifiers that are named. -/
abbrev names (L : List (EventId × Position)) : List (Option EventId) := L.map fun x => some x.1

lemma eventsOf_elements : eventsOf (elements F) = flatten F := by
  induction F with
  | nil => rfl
  | cons c F ih =>
    rw [elements_cons, eventsOf_append, ih, Linked.flatten_cons]
    cases c.content <;> simp

lemma eventIds_elements : eventIds (elements F) = (positioned F).map fun x => eventId x.2 := by
  rw [eventIds, eventsOf_elements, ← map_snd_positioned, map_map]
  rfl

section Remove

variable {cap : ℕ} {U U' F F' : List (PlainChunk Event Gap)} {s : RoomEventCacheState Event Gap}
  {L inMemory inStore : List (EventId × Position)}

lemma Named.placed (h : Named F L) : Placed (fun i event => eventId event = some i) F L := h

lemma Named.mem_iff (h : Named F L) (hn : (ids F).Nodup) (hd : Distinct (elements F)) :
    ∀ x ∈ positioned F, x.1 ∈ L.map Prod.snd ↔ eventId x.2 ∈ names L := by
  have hids := hd.2
  rw [eventIds_elements] at hids
  intro x hx
  constructor <;> intro hmem <;> obtain ⟨y, hy, heq⟩ :=
    mem_map.1 hmem <;> obtain ⟨event, hevent, hid⟩ := h.2 y hy
  · rw [← inj_on_of_nodup_map (nodup_positioned hn) hevent hx heq]
    exact mem_map.2 ⟨y, hy, hid.symm⟩
  · rw [← inj_on_of_nodup_map hids hevent hx (hid.trans heq)]
    exact mem_map_of_mem hy

lemma Sound.distinct_without (h : s.Sound cap U) {ns ns' : List (Option EventId)}
    (hU : elements U' = without ns (elements U)) (hF : elements F' = without ns' (elements s.memory)) :
    Distinct (elements (U' ++ F')) := by
  have hd := h.distinct
  rw [elements_append] at hd ⊢
  rw [hU, hF]
  exact hd.sublist (filter_sublist.append filter_sublist)

/-- **`remove_events` removes the events it was given.** -/
theorem Sound.removeEvents (h : s.Sound cap U) (hmem : Named s.memory inMemory) (hstore : Named U inStore) :
    ∃ s' U', s.removeEvents cap inMemory inStore = .ok s' ∧ s'.Sound cap U' ∧
      TakenOut (names inMemory) s.memory s'.memory ∧ elements U' = without (names inStore) (elements U) ∧
      ids U' = ids U ∧ (s.Settled → s'.Settled) := by
  obtain ⟨s', hs', hheld, hsettled, hthin⟩ := h.held.removeEvents hmem.placed hstore.placed
  have hn := h.nodup
  rw [ids_append, nodup_append] at hn
  have hout := TakenOut.of_thinned (hmem.mem_iff hn.2.1 h.distinct_memory) hthin
  have hels := elements_map_removing (hstore.mem_iff hn.1 h.distinct_unloaded)
  exact ⟨s', _, hs', ⟨hheld, h.distinct_without hels hout.elements_eq⟩, hout, hels,
    ids_map_removing U, hsettled⟩

theorem Sound.removeNamed (h : s.Sound cap U) (hL : Named (U ++ s.memory) L) :
    ∃ s' U', s.removeEvents cap (L.filter fun x => x.2.chunkIdentifier ∈ ids s.memory)
        (L.filter fun x => x.2.chunkIdentifier ∉ ids s.memory) = .ok s' ∧ s'.Sound cap U' ∧
      TakenOut (names L) s.memory s'.memory ∧ elements U' = without (names L) (elements U) ∧
      (s.Settled → s'.Settled) := by
  obtain ⟨s', hs', hheld, hsettled, hthin⟩ := h.held.removePlaced hL.placed
  have hiff := hL.mem_iff h.nodup h.distinct
  rw [positioned_append, forall_mem_append] at hiff
  have hout := TakenOut.of_thinned hiff.2 hthin
  have hels := elements_map_removing hiff.1
  exact ⟨s', _, hs', ⟨hheld, h.distinct_without hels hout.elements_eq⟩, hout, hels, hsettled⟩

end Remove

/-! ## Loading and unloading -/

section Loading

variable {cap : ℕ} {U : List (PlainChunk Event Gap)} {s : RoomEventCacheState Event Gap}

/-- **Only the last chunk stays in memory.** -/
theorem held_shrinkToLastReloadedChunk (hn : (ids s.store).Nodup)
    (hcap : ∀ c ∈ s.store, c.content.numItems ≤ cap) :
    ∃ s' U', s.shrinkToLastReloadedChunk cap = .ok s' ∧ s'.Held cap U' ∧ s'.Settled ∧ s'.store = s.store := by
  rcases eq_nil_or_concat s.store with hnil | ⟨pre, d, hstore⟩
  · refine ⟨.empty, [], ?_, held_empty, rfl, hnil.symm⟩
    simp [RoomEventCacheState.shrinkToLastReloadedChunk, loadLastChunk, hnil, rawChunks,
      EventLinkedChunk.shrinkToLastReloadedChunk, Chain.replaceWith, Chain.clear, empty, EventLinkedChunk.new]
  · rw [concat_eq_append] at hstore
    rw [hstore] at hn hcap
    have hfits : ¬ cap < d.content.numItems := Nat.not_lt.2 (hcap d (by simp))
    refine ⟨⟨⟨⟨[⟨(ids pre).getLast?, d.identifier, d.content⟩], (loadLastChunk s.store).2⟩, []⟩,
      s.store⟩, pre, ?_, ⟨[d], hstore, ?_⟩, rfl, rfl⟩
    · have hlast : (loadLastChunk s.store).1 = some ⟨d.content, (ids pre).getLast?, d.identifier, none⟩ := by
        rw [loadLastChunk, hstore, getLast?_rawChunks, Option.or_none]
      simp only [RoomEventCacheState.shrinkToLastReloadedChunk, EventLinkedChunk.shrinkToLastReloadedChunk,
        Chain.replaceWith, hlast, hfits, if_false]
      rfl
    · refine ⟨⟨⟨by simp, by simp⟩, fun i hi => ?_⟩, hn, hcap, fun U' _ => rfl⟩
      refine le_loadLastChunk_generator ?_
      rw [hstore]
      exact hi

theorem Held.shrinkToLastReloadedChunk (h : s.Held cap U) (hs : s.AtRest) :
    ∃ s' U', s.shrinkToLastReloadedChunk cap = .ok s' ∧ s'.Held cap U' ∧ s'.Settled ∧ s'.store = s.store := by
  rcases hs with hs | ⟨hnil, -⟩
  · have hstore := h.store_eq hs
    have ⟨M, hM, hm⟩ := h
    exact held_shrinkToLastReloadedChunk (hstore ▸ hm.nodup) (hstore ▸ hm.capacity)
  · exact held_shrinkToLastReloadedChunk (by simp [hnil]) (by simp [hnil])

lemma Held.loadPrevious (h : s.Held cap U) (hs : s.Settled) {prevFirstChunk : PlainChunk Event Gap}
    {newFirstChunk : RawChunk Event Gap} (hhead : s.memory.head? = some prevFirstChunk)
    (hload : loadPreviousChunk s.store prevFirstChunk.identifier = some newFirstChunk) :
    ∃ s' U', (match s.roomLinkedChunk.insertNewChunkAsFirst cap newFirstChunk with
        | (.ok (), chunk) => .ok { s with roomLinkedChunk := ⟨chunk.chunks, []⟩ }
        | (.error _, _) => .error .storage : Except EventCacheError (RoomEventCacheState Event Gap)) = .ok s' ∧
      s'.Held cap U' ∧ s'.Settled ∧ s'.store = s.store ∧ ∃ d, U = U' ++ [d] ∧ s'.memory = d :: s.memory := by
  have ⟨M, hM, hm⟩ := h
  have hstore := h.store_eq hs
  obtain ⟨⟨⟨chunks, g⟩, updates⟩, store⟩ := s
  cases chunks with
  | nil => simp [memory, plainChunks] at hhead
  | cons first rest =>
    obtain rfl : prevFirstChunk = first.plain := by
      simpa [memory, plainChunks] using hhead.symm
    have hstore : store = U ++ first.plain :: plain rest := hstore
    have hnodup : (ids (U ++ first.plain :: plain rest)).Nodup := h.nodup
    simp only [hstore] at hload
    rw [loadPreviousChunk_append hnodup] at hload
    obtain ⟨d, hd, rfl⟩ := Option.map_eq_some_iff.1 hload
    obtain ⟨pre, rfl⟩ := getLast?_eq_some_iff.1 hd
    simp only [append_assoc, singleton_append, dropLast_concat] at hnodup hstore hm ⊢
    have hlazy : first.lazyPrevious = some d.identifier := by
      have := hm.ready.lazy.1
      simpa using this
    have hprevious : ∀ i ∈ (ids pre).getLast?, i ∉ ids (plain (first :: rest)) := by
      intro i hi hmem
      rw [ids_append, nodup_append] at hnodup
      exact hnodup.2.2 i (mem_of_mem_getLast? hi) i (mem_cons_of_mem _ hmem) rfl
    have hcap : d.content.numItems ≤ cap := hm.capacity d (by simp)
    obtain ⟨us, hus⟩ := @Chain.insertNewFirstChunk_first Event Gap cap first rest
      ⟨d.content, (ids pre).getLast?, d.identifier, some first.identifier⟩ g hcap hprevious rfl hlazy
    refine ⟨⟨⟨⟨⟨(ids pre).getLast?, d.identifier, d.content⟩ :: { first with lazyPrevious := none } :: rest, g⟩, []⟩,
      store⟩, pre, ?_, ⟨d :: first.plain :: plain rest, hstore, ?_⟩, rfl, rfl, d, rfl, rfl⟩
    · simp only [insertNewChunkAsFirst, plain_identifier]
      rw [hus]
    · have hle := hm.ready.le
      have hcapacity := hm.capacity
      simp only [append_assoc, singleton_append] at hle hcapacity
      refine ⟨⟨⟨by simp, ?_⟩, hle⟩, hnodup, hcapacity, fun U' _ => rfl⟩
      simpa using hm.ready.lazy.2

end Loading

end RoomEventCacheState

end HaranaMatrix.EventCache
