import HaranaMatrix.EventCache.Sound

/-!
# A lazy load that fails

When the previous chunk cannot be loaded or connected, the stored chunks of the room or of the
thread are cleared, and the chunks in memory stay as they are. -/

namespace HaranaMatrix.EventCache.RoomEventCacheState

open Linked List EventLinkedChunk

variable {Event Gap : Type} {cap : ℕ} {U : List (PlainChunk Event Gap)} {s : RoomEventCacheState Event Gap}

/-- `load_more_events_backwards` of a room or of a thread, for the answer of the store to
`load_previous_chunk`: whether it succeeds, and the state. -/
def loadMoreEventsBackwardsWith (cap : ℕ) (answer : Except Unit (Option (RawChunk Event Gap)))
    (s : RoomEventCacheState Event Gap) : Bool × RoomEventCacheState Event Gap :=
  let s := s.touch
  if s.roomLinkedChunk.rgap.isSome then (true, s)
  else
    match answer with
    | .error () => (false, { s with store := [] })
    | .ok none => (true, s)
    | .ok (some newFirstChunk) =>
      match s.roomLinkedChunk.insertNewChunkAsFirst cap newFirstChunk with
      | (.ok (), chunk) => (true, { s with roomLinkedChunk := ⟨chunk.chunks, []⟩ })
      | (.error _, chunk) => (false, ⟨chunk, []⟩)

/-- The previous chunk can be loaded and connected, if there is one. -/
def Accepts (cap : ℕ) (s : RoomEventCacheState Event Gap)
    (answer : Except Unit (Option (RawChunk Event Gap))) : Prop :=
  ∃ chunk, answer = .ok chunk ∧ ∀ c ∈ chunk, (s.roomLinkedChunk.insertNewChunkAsFirst cap c).1 = .ok ()

/-- A chunk that is rejected leaves a linked chunk in use as it is. -/
lemma insertNewChunkAsFirst_error {e : LazyLoaderError} {chunk : EventLinkedChunk Event Gap}
    {raw : RawChunk Event Gap}
    (h : s.touch.roomLinkedChunk.insertNewChunkAsFirst cap raw = (.error e, chunk)) :
      chunk = s.touch.roomLinkedChunk := by
  obtain ⟨⟨a, updates⟩, store⟩ := s
  have hkept : (a.touch.1.insertNewFirstChunk cap raw).2 = (a.touch.1, []) := by
    rcases Chain.insertNewFirstChunk_cases cap a.touch.1 raw with ⟨-, heq | heq⟩ | ⟨_, _, -, -, -, -, -, heq⟩
    · exact heq
    · rw [heq, Chain.touch_touch]
    · simp [touch, EventLinkedChunk.touch, insertNewChunkAsFirst, heq] at h
  have hchunk : (⟨(a.touch.1.insertNewFirstChunk cap raw).2.1, (updates ++ a.touch.2) ++
      (a.touch.1.insertNewFirstChunk cap raw).2.2⟩ : EventLinkedChunk Event Gap) = chunk :=
        congrArg Prod.snd h
  rw [← hchunk, hkept, append_nil]
  rfl

/-- **Memory and store agree after a load** exactly if no chunk was in use yet, a gap comes first,
or the previous chunk could be loaded and connected. -/
theorem loadMoreEventsBackwardsWith_held_iff (h : s.Held cap U) (hs : s.Settled)
    (answer : Except Unit (Option (RawChunk Event Gap)))
    (hanswer : ∀ c, answer = .ok (some c) → s.Accepts cap answer →
      ∃ first ∈ s.memory.head?, Stored.loadPreviousChunk s.store first.identifier = some c) :
    (∃ U', (s.loadMoreEventsBackwardsWith cap answer).2.Held cap U') ↔
      s.memory = [] ∨ s.roomLinkedChunk.rgap.isSome ∨ s.Accepts cap answer := by
  have hstore := h.store_eq hs
  have hsame : ∃ U', s.touch.Held cap U' := ⟨U, h.touch⟩
  by_cases hmemory : s.memory = []
  · refine iff_of_true ?_ (.inl hmemory)
    obtain ⟨M, -, hm⟩ := id h
    have hchunks : s.roomLinkedChunk.chunks.chunks = [] := map_eq_nil_iff.1 hmemory
    -- the store has nothing to be cleared
    have hclear : ({ s.touch with store := [] } : RoomEventCacheState Event Gap) = s.touch := by
      have hU : U = [] := hm.eq_nil_of_head (by simp [hchunks])
      rw [hmemory, hU] at hstore
      rw [touch, hstore]
      rfl
    unfold loadMoreEventsBackwardsWith
    simp only
    split
    · exact hsame
    split
    · rwa [hclear]
    · exact hsame
    next raw =>
    split
    next chunk heq =>
      rcases Chain.insertNewFirstChunk_cases cap s.touch.roomLinkedChunk.chunks raw with ⟨⟨e, he⟩, -⟩ |
        ⟨first, rest, hfirst, -, -, -, hlazy, -⟩
      · simp [insertNewChunkAsFirst, he] at heq
      · simp [touch, EventLinkedChunk.touch, Chain.touch, hchunks] at hfirst
        simp [← hfirst.1] at hlazy
    next heq =>
      rw [insertNewChunkAsFirst_error heq]
      rwa [hclear]
  · have ht : s.touch = s := by
      rw [touch, Mirrors.touch_plainChunks hmemory]
    have hlost (s' : RoomEventCacheState Event Gap) (heq : s' = { s with store := [] }) : ¬ ∃ U', s'.Held cap U' := by
      rintro ⟨U', hheld⟩
      subst heq
      exact hmemory (append_eq_nil_iff.1 (hheld.store_eq hs).symm).2
    simp only [loadMoreEventsBackwardsWith, ht, hmemory, false_or]
    split
    next hgap => exact iff_of_true (ht ▸ hsame) (.inl hgap)
    next hgap =>
    split
    · exact iff_of_false (hlost _ rfl) (by simp [hgap, Accepts])
    · exact iff_of_true (ht ▸ hsame) (.inr ⟨none, rfl, by simp⟩)
    next raw =>
    split
    next chunk heq =>
      have haccepts : s.Accepts cap (.ok (some raw)) := ⟨_, rfl, by rintro _ ⟨⟩; rw [heq]⟩
      obtain ⟨first, hfirst, hload⟩ := hanswer raw rfl haccepts
      obtain ⟨s', U', hs', hheld, -⟩ := h.loadPrevious hs hfirst hload
      rw [heq] at hs'
      obtain rfl := Except.ok.inj hs'
      exact iff_of_true ⟨U', hheld⟩ (.inr haccepts)
    next e chunk heq =>
      refine iff_of_false (hlost _ ?_) ?_
      · rw [← ht] at heq
        rw [insertNewChunkAsFirst_error heq, ht]
      · rintro (hgap' | ⟨_, ⟨⟩, hok⟩)
        · exact hgap hgap'
        · simp [heq] at hok

/-- The first of two stored chunks is not in memory. -/
def twoChunks : RoomEventCacheState Char Unit :=
  ⟨⟨⟨[⟨some ⟨0⟩, ⟨1⟩, .items ['b']⟩], ⟨1⟩⟩, []⟩, [⟨⟨0⟩, .items ['a']⟩, ⟨⟨1⟩, .items ['b']⟩]⟩

lemma held_twoChunks : twoChunks.Held 2 [⟨⟨0⟩, .items ['a']⟩] :=
  ⟨[⟨⟨1⟩, .items ['b']⟩], rfl, ⟨⟨⟨rfl, nofun⟩, by decide⟩, by decide, by decide, fun _ _ => rfl⟩⟩

theorem loadMoreEventsBackwardsWith_held_twoChunks : ∃ U', (twoChunks.loadMoreEventsBackwardsWith 2
    (.ok (some ⟨.items ['a'], none, ⟨0⟩, some ⟨1⟩⟩))).2.Held 2 U' := by
  refine (loadMoreEventsBackwardsWith_held_iff held_twoChunks rfl _ ?_).2 (.inr (.inr ⟨_, rfl, ?_⟩))
  · rintro c ⟨⟩ -
    exact ⟨_, rfl, rfl⟩
  · rintro c ⟨⟩
    rfl

theorem loadMoreEventsBackwardsWith_clears_store :
    ¬ ∃ U', (twoChunks.loadMoreEventsBackwardsWith 2 (.error ())).2.Held 2 U' := by
  rintro ⟨U', h⟩
  cases (append_eq_nil_iff.1 (h.store_eq rfl).symm).2

end HaranaMatrix.EventCache.RoomEventCacheState
