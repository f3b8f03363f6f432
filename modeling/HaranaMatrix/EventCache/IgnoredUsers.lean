import HaranaMatrix.EventCache.Reachable
import HaranaMatrix.Lib.Rows

/-!
# The events of ignored users

When users are ignored, their events are removed from the loaded caches of rooms and threads. The
pinned events and the caches around a single event are not looked at. -/

namespace HaranaMatrix.EventCache

open Linked List RoomEvent RoomEventCacheState

inductive CacheKind
  | room
  | thread
  | pinnedEvents
  | eventFocused

def CacheKind.isCleaned : CacheKind → Bool
  | .room | .thread => true
  | .pinnedEvents | .eventFocused => false

/-- A cache that is loaded. One around an event is not stored. -/
structure LoadedCache (Event Gap : Type) where
  kind : CacheKind
  state : RoomEventCacheState Event Gap

namespace LoadedCache

variable {Event EventId UserId Gap : Type} [RoomEvent Event EventId UserId] [DecidableEq UserId]

lemma notSentBy_nil (els : List (Element Event Gap)) :
    notSentBy (fun user : UserId => user ∈ []) els = els := by
  refine filter_eq_self.2 ?_
  rintro (event | gap) _
  · cases hsender : sender event <;> simp [hsender]
  · rfl

variable [DecidableEq EventId]

/-- The caches are those of all rooms, one after the other. -/
def handleIgnoreUserListChange (cap : ℕ) (filter : DuplicateFilter Event EventId Gap)
    (getRoomEvents : List (PlainChunk Event Gap) → List Event) (ignoredUsers : List UserId)
    (caches : List (LoadedCache Event Gap)) : Except EventCacheError (List (LoadedCache Event Gap)) :=
  caches.mapM fun c =>
    if !ignoredUsers.isEmpty && c.kind.isCleaned then
      LoadedCache.mk c.kind <$>
        c.state.removeEventsSentBy cap filter (getRoomEvents c.state.store) (· ∈ ignoredUsers)
    else .ok c

/-- What is in memory, and what is stored. -/
def held (c : LoadedCache Event Gap) : List (List (Element Event Gap)) :=
  [elements c.state.memory, elements c.state.store]

/-- **Ignoring users removes exactly their events** if and only if there are none of them among the
pinned events and in the caches around an event. -/
theorem handleIgnoreUserListChange_held_iff {cap : ℕ} {filter : DuplicateFilter Event EventId Gap}
    (hfilter : filter.Exact) {getRoomEvents : List (PlainChunk Event Gap) → List Event}
    (hroom : ∀ store, RoomEventCacheState.IsRoomEvents store (getRoomEvents store))
    {caches : List (LoadedCache Event Gap)}
    (h : ∀ c ∈ caches, c.kind.isCleaned → (∃ U, c.state.Sound cap U) ∧ c.state.AtRest)
    (ignoredUsers : List UserId) :
    ∃ caches', handleIgnoreUserListChange cap filter getRoomEvents ignoredUsers caches = .ok caches' ∧
      (caches'.map held = caches.map (fun c => c.held.map (notSentBy (· ∈ ignoredUsers))) ↔
        ∀ c ∈ caches, c.kind.isCleaned = false → ∀ els ∈ c.held, notSentBy (· ∈ ignoredUsers) els = els) := by
  have hall : ∀ c ∈ caches, ∃ c', (if !ignoredUsers.isEmpty && c.kind.isCleaned then
      LoadedCache.mk c.kind <$> c.state.removeEventsSentBy cap filter (getRoomEvents c.state.store) (· ∈ ignoredUsers)
        else .ok c) = .ok c' ∧
        c'.held = if c.kind.isCleaned then c.held.map (notSentBy (· ∈ ignoredUsers)) else c.held := by
    intro c hc
    cases hkind : c.kind.isCleaned with
    | false => exact ⟨c, by rw [Bool.and_false]; rfl, rfl⟩
    | true =>
      cases ignoredUsers with
      | nil =>
        refine ⟨c, rfl, ?_⟩
        rw [if_pos rfl, map_congr_left fun els _ => notSentBy_nil els, map_id']
      | cons user users =>
        obtain ⟨⟨U, hsound⟩, hrest⟩ := h c hc hkind
        obtain ⟨s', U', hs', hsound', hrest', hels, hmemory⟩ :=
          hsound.removeEventsSentBy hrest hfilter (hroom c.state.store) (· ∈ user :: users)
        refine ⟨⟨c.kind, s'⟩, by rw [hs']; rfl, ?_⟩
        simp only [held, hmemory, (hsound'.store_elements hrest').1, hels, ← (hsound.store_elements hrest).1]
        rfl
  obtain ⟨caches', hok, hmap⟩ := Rows.exists_mapM hall
  refine ⟨caches', hok, ?_⟩
  rw [hmap, map_inj_left]
  refine forall₂_congr fun c _ => ?_
  cases c.kind.isCleaned with
  | true => simp
  | false =>
    rw [if_neg Bool.false_ne_true, forall_prop_of_true rfl, eq_comm]
    nth_rewrite 2 [← map_id c.held]
    exact map_inj_left

/-- A stored message of the user `1`, and one of the user `2`. -/
def twoSenders : RoomEventCacheState Note ℕ :=
  ⟨⟨⟨[⟨none, ⟨0⟩, .items [⟨0, 1⟩, ⟨1, 2⟩]⟩], ⟨0⟩⟩, []⟩, [⟨⟨0⟩, .items [⟨0, 1⟩, ⟨1, 2⟩]⟩]⟩

lemma sound_twoSenders : twoSenders.Sound 2 [] where
  held := ⟨[⟨⟨0⟩, .items [⟨0, 1⟩, ⟨1, 2⟩]⟩], rfl, ⟨⟨⟨rfl, nofun⟩, by decide⟩, by decide, by decide, fun _ _ => rfl⟩⟩
  distinct := ⟨by decide, by decide⟩

theorem handleIgnoreUserListChange_held_twoSenders :
    ∃ caches', handleIgnoreUserListChange 2 entries flatten [1]
      [⟨.room, twoSenders⟩] = .ok caches' ∧ caches'.map held = [[[.item ⟨1, 2⟩], [.item ⟨1, 2⟩]]] := by
  have hsound : ∀ c ∈ [(⟨.room, twoSenders⟩ : LoadedCache Note ℕ)], c.kind.isCleaned →
      (∃ U, c.state.Sound 2 U) ∧ c.state.AtRest := by
    simpa using fun _ => ⟨⟨[], sound_twoSenders⟩, .inl rfl⟩
  obtain ⟨caches', hok, hiff⟩ := handleIgnoreUserListChange_held_iff exact_entries (fun _ _ _ => Iff.rfl) hsound [1]
  exact ⟨caches', hok, hiff.2 (by simp [CacheKind.isCleaned])⟩

/-- The message of the user `1` is pinned. -/
theorem handleIgnoreUserListChange_keeps_pinned : ∃ caches', handleIgnoreUserListChange 2 entries flatten [1]
      [⟨.pinnedEvents, twoSenders⟩] = .ok caches' ∧
    caches'.map held ≠ [(held ⟨.pinnedEvents, twoSenders⟩).map (notSentBy (· ∈ [1]))] :=
  ⟨_, rfl, by decide⟩

end LoadedCache

end HaranaMatrix.EventCache
