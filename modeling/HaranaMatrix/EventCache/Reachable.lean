import HaranaMatrix.EventCache.Pagination

/-!
# Every run of the cache of a room

From an empty room, by any syncs, concluded back-paginations, loads, shrinks and purges: in every
state that is reached the store has no event twice, and the chunks in memory are its last ones, up
to the versions of their events. What every action does is said on the flat sequence of the events
and the gaps of the store. -/

set_option linter.unusedSectionVars false

namespace HaranaMatrix.EventCache

open Linked RoomEvent

variable {Event EventId UserId Gap : Type} [RoomEvent Event EventId UserId] [DecidableEq EventId]
  [DecidableEq UserId] [DecidableEq Gap]

/-- An event that is its identifier and its sender, for concrete runs. -/
structure Note where
  id : ℕ
  sender : ℕ
deriving DecidableEq

instance : RoomEvent Note ℕ ℕ where
  eventId note := some note.id
  sender note := some note.sender
  timestamp _ := none
  redactionTarget _ := none
  redacted _ _ := none
  bundledLatestThreadEvent _ := none
  eventId_redacted h := by cases h

lemma exact_entries : DuplicateFilter.Exact (entries : DuplicateFilter Event EventId Gap) := fun _ _ => .refl _

/-- What is done to the cache of a room. -/
inductive RoomAction (Event Gap : Type)
  | handleSync (timeline : Timeline Event Gap)
  | concludeBackwardsPagination (events : List Event) (prevToken newToken : Option Gap)
  | loadMoreEventsBackwards
  | shrinkToLastReloadedChunk
  | purgeEventsOlderThan (cutoff : ℕ)
  | forgetAll

namespace RoomEventCacheState

section Step

variable (cap : ℕ) (ownUserId : UserId) (filter : DuplicateFilter Event EventId Gap)

variable (s : RoomEventCacheState Event Gap)

def step :
    RoomAction Event Gap → Except EventCacheError (RoomEventCacheState Event Gap)
  | .handleSync timeline => (s.handleSync cap ownUserId filter timeline).map Prod.snd
  | .concludeBackwardsPagination events prevToken newToken =>
    (s.concludeBackwardsPaginationFromNetwork cap ownUserId filter events prevToken newToken).map Prod.snd
  | .loadMoreEventsBackwards => s.loadMoreEventsBackwards cap
  | .shrinkToLastReloadedChunk => s.shrinkToLastReloadedChunk cap
  | .purgeEventsOlderThan cutoff => s.purgeEventsOlderThan cap cutoff
  | .forgetAll => s.forgetAll cap

/-- The states of a room that starts empty. -/
inductive Reachable : RoomEventCacheState Event Gap → Prop
  | empty : Reachable .empty
  | step {s s' : RoomEventCacheState Event Gap} (a : RoomAction Event Gap) (hs : Reachable s)
      (h : s.step cap ownUserId filter a = .ok s') : Reachable s'

def run (actions : List (RoomAction Event Gap)) : Except EventCacheError (RoomEventCacheState Event Gap) :=
  actions.foldlM (step cap ownUserId filter) s

/-- A back-pagination that panics. -/
def Panics : RoomAction Event Gap → Prop
  | .concludeBackwardsPagination events prevToken newToken => s.touch.Blocked events prevToken newToken
  | _ => False

/-- What an action is to do to the sequence of the room. -/
def Does (els els' : List (Element Event Gap)) : RoomAction Event Gap → Prop
  | .handleSync timeline =>
    if s.touch.allDuplicates ownUserId filter timeline.events then els' = els
    else ∃ k, s.touch.InPlace (retainNew [] timeline.events) (s.touch.keptToken timeline) k ∧
      idsOf els' = idsOf (synced k (s.touch.keptToken timeline) (retainNew [] timeline.events) els)
  | .concludeBackwardsPagination events prevToken newToken =>
    s.touch.Paginates ownUserId filter events prevToken newToken els els'
  | .loadMoreEventsBackwards | .shrinkToLastReloadedChunk => els' = els
  | .purgeEventsOlderThan cutoff => idsOf els' =
    idsOf (without (names (expired cutoff (positioned s.store))) els)
  | .forgetAll => els' = []

end Step

section Run

variable {cap : ℕ} {ownUserId : UserId} {filter : DuplicateFilter Event EventId Gap}
  {U : List (PlainChunk Event Gap)} {s s' : RoomEventCacheState Event Gap}

lemma Reachable.run {actions : List (RoomAction Event Gap)} (hs : s.Reachable cap ownUserId filter)
    (h : s.run cap ownUserId filter actions = .ok s') : s'.Reachable cap ownUserId filter := by
  induction actions generalizing s with
  | nil =>
    cases h
    exact hs
  | cons a actions ih =>
    obtain ⟨s₁, hs₁, hrest⟩ := bind_eq_ok h
    exact ih (hs.step a hs₁) hrest

/-- **One step**: an action that does not panic keeps the invariant, and does what it is to do. -/
theorem Tracked.step (hcap : 0 < cap) (h : s.Tracked cap U) (hs : s.AtRest) (hfilter : filter.Exact)
    (a : RoomAction Event Gap) (ha : ¬ s.Panics a) :
    Yields (.fault .noMoreIdentifiers) (fun s' => ∃ U', s'.Tracked cap U' ∧ s'.AtRest ∧
        s.Does ownUserId filter (elements s.store) (elements s'.store) a)
      (s.step cap ownUserId filter a) := by
  cases a with
  | handleSync timeline =>
    refine .map ((h.handleSync hcap hs hfilter timeline).mono ?_)
    rintro y ⟨U', htracked, hrest, hsync⟩
    refine ⟨U', htracked, hrest, ?_⟩
    simp only [Does]
    split at hsync
    · next hdup => rwa [if_pos hdup]
    · next hdup =>
      obtain ⟨k, put, hk, hids, -, hels⟩ := hsync
      rw [if_neg hdup]
      exact ⟨k, hk, by rw [hels, idsOf_postProcess, hids]; rfl⟩
  | concludeBackwardsPagination events prevToken newToken =>
    exact .map (h.concludeBackwardsPaginationFromNetwork hcap hs hfilter events prevToken newToken ha)
  | loadMoreEventsBackwards =>
    obtain ⟨s', U', hs', htracked, hrest, hstore⟩ := h.loadMoreEventsBackwards hs
    exact .inl ⟨s', hs', U', htracked, hrest, congrArg elements hstore⟩
  | shrinkToLastReloadedChunk =>
    obtain ⟨s', U', hs', htracked, hsettled, hstore⟩ := h.shrinkToLastReloadedChunk hs
    exact .inl ⟨s', hs', U', htracked, .inl hsettled, congrArg elements hstore⟩
  | purgeEventsOlderThan cutoff =>
    obtain ⟨s', U', hs', htracked, hrest, hels⟩ := h.purgeEventsOlderThan hs cutoff
    exact .inl ⟨s', hs', U', htracked, hrest, hels⟩
  | forgetAll => exact .inl ⟨.empty, rfl, [], sound_empty.tracked, .inl rfl, rfl⟩

lemma Tracked.step_panics (h : s.Tracked cap U) (hfilter : filter.Exact) {a : RoomAction Event Gap}
    (ha : s.Panics a) : s.step cap ownUserId filter a = .error (.fault .assertion) := by
  cases a with
  | concludeBackwardsPagination events prevToken newToken =>
    rw [RoomEventCacheState.step, h.blocked hfilter ha]
    rfl
  | _ => cases ha

lemma Tracked.of_step (hcap : 0 < cap) (h : s.Tracked cap U) (hs : s.AtRest) (hfilter : filter.Exact)
    {a : RoomAction Event Gap} (hstep : s.step cap ownUserId filter a = .ok s') :
    ∃ U', s'.Tracked cap U' ∧ s'.AtRest := by
  by_cases ha : s.Panics a
  · rw [h.step_panics hfilter ha] at hstep
    cases hstep
  · obtain ⟨U', htracked, hrest, -⟩ := (h.step hcap hs hfilter a ha).of_ok hstep
    exact ⟨U', htracked, hrest⟩

/-- **Every run** keeps the invariant. -/
theorem Reachable.tracked (hcap : 0 < cap) (hfilter : filter.Exact) (hs : s.Reachable cap ownUserId filter) :
    ∃ U, s.Tracked cap U ∧ s.AtRest := by
  induction hs with
  | empty => exact ⟨[], sound_empty.tracked, .inl rfl⟩
  | step a hs hstep ih =>
    obtain ⟨U, htracked, hrest⟩ := ih
    exact htracked.of_step hcap hrest hfilter hstep

/-- The store has no event twice, and the chunks in memory are its last ones, maybe with other
versions of their events. In a room without events the first chunk, an empty one, may not be stored
yet. -/
def HoldsOnce (s : RoomEventCacheState Event Gap) : Prop :=
  Distinct (elements s.store) ∧ ((∃ unloaded loaded, s.store = unloaded ++ loaded ∧ SameIds loaded s.memory) ∨
    (s.store = [] ∧ ∀ c ∈ s.memory, c.content = .items []))

lemma Tracked.holdsOnce (h : s.Tracked cap U) (hs : s.AtRest) : s.HoldsOnce := by
  refine ⟨h.distinct_store hs, hs.imp_left fun hsettled => ?_⟩
  obtain ⟨V, N, hstore, hN, -⟩ := h.exists_unloaded hsettled
  exact ⟨V, N, hstore, hN⟩

/-- A room of two gaps: a sync without events, and another one while the back-pagination of the
first is on its way. -/
def twoGaps : List (RoomAction Note ℕ) := [.handleSync ⟨[], false, some 1⟩, .handleSync ⟨[], false, some 2⟩]

lemma Tracked.exists_tail (h : s.Tracked cap U) (hs : s.AtRest) {batch : List Event}
    {gap : Option Gap} {k : ℕ} (hk : s.touch.InPlace batch gap k) :
    (gap = none ∨ k = 0) ∧ ∃ A K, elements s.store = A ++ K ∧ eventIds K = (batch.take k).map eventId := by
  unfold InPlace at hk
  split at hk
  · exact ⟨.inr hk, elements s.store, [], by simp, by simp [hk]⟩
  · next hgap =>
    refine ⟨.inl (by simpa using hgap), ?_⟩
    obtain ⟨⟨A, B, hsplit, -, hB⟩, -⟩ := hk
    have hevents : s.touch.roomLinkedChunk.events.map Prod.snd = eventsOf (elements s.memory) := by
      rw [← show elements s.touch.memory = elements s.memory from Mirrors.elements_touch _, eventsOf_elements,
        ← map_snd_positioned]
      rfl
    rw [hevents] at hsplit
    obtain ⟨A', K, hmemory, -, rfl⟩ := List.filterMap_eq_append_iff.1 hsplit
    have hids := h.idsOf_store hs
    rw [elements_append, hmemory, ← List.append_assoc, idsOf_append] at hids
    obtain ⟨A₁, K₁, hels, -, hK⟩ := List.map_eq_append_iff.1 hids
    exact ⟨A₁, K₁, hels, (eventIds_congr hK).trans hB⟩

/-- The first of two gaps is filled. -/
def gapAfterEvents : List (RoomAction Note ℕ) :=
  twoGaps ++ [.concludeBackwardsPagination [⟨2, 7⟩, ⟨1, 7⟩] (some 1) none]

lemma foldl_postProcess_notes (notes : List Note) (x : List (Element Note ℕ) × List (Element Note ℕ)) :
    notes.foldl postProcess x = x := by
  have hself (els : List (Element Note ℕ)) : els.map (renew []) = els := map_renew_self (by simp)
  induction notes with
  | nil => rfl
  | cons note notes ih =>
    have hnote : postProcess x note = x := Prod.ext ((hself _).trans (hself _)) (hself _)
    rw [List.foldl_cons, hnote, ih]

end Run

end RoomEventCacheState

end HaranaMatrix.EventCache
