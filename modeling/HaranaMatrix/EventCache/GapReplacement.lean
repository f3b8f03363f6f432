import HaranaMatrix.EventCache.Sound

/-!
# The gap of a back-pagination

Syncs, back-paginations and lazy loads build a linked chunk in any layout: empty chunks, gaps side
by side, events without identifiers, chunks that are in the store only. In all of them the events of
a back-pagination take the place of its gap, after the new gap, but in one: a result without events
removes its gap, and puts the new one in front of the next chunk, which must not be a gap. -/

namespace HaranaMatrix.EventCache

open Linked

variable {Event Gap : Type}

variable (chunks : List (PlainChunk Event Gap))

/-- The gap that a back-pagination fills is there; or it fills none. -/
def HasGap (prevGapId : Option ChunkIdentifier) : Prop :=
  ∀ id ∈ prevGapId, ∃ gap, ⟨id, .gap gap⟩ ∈ chunks

/-- The flat sequence with the gap replaced; without a gap, what is new goes in front of the first
event. -/
def replaced (new : List (Element Event Gap)) :
    Option ChunkIdentifier → List (Element Event Gap)
  | some id => chunks.flatMap fun c => if c.identifier = id then new else c.content.elements
  | none => (elements chunks).takeWhile isGap ++ new ++ (elements chunks).dropWhile isGap

/-- The result of a back-pagination has a new gap and no events, and the chunk after its gap is a
gap. -/
def Blocked (prevGapId : Option ChunkIdentifier) (newGap : Option Gap) (events : List Event) : Prop :=
  newGap.isSome ∧ events = [] ∧ ∃ pre id gap id' gap' post,
    prevGapId = some id ∧ chunks = pre ++ ⟨id, .gap gap⟩ :: ⟨id', .gap gap'⟩ :: post

section Replaced

variable {pre post : List (PlainChunk Event Gap)} {id : ChunkIdentifier} {gap : Gap}
  {new : List (Element Event Gap)}

lemma flatMap_replace {chunks : List (PlainChunk Event Gap)} (h : id ∉ ids chunks) :
    (chunks.flatMap fun c => if c.identifier = id then new else c.content.elements) = elements chunks := by
  refine List.flatMap_congr fun c hc => ?_
  have hne : c.identifier ≠ id := fun heq => h (heq ▸ List.mem_map_of_mem hc)
  rw [if_neg hne]

lemma replaced_gap (hn : (ids (pre ++ ⟨id, .gap gap⟩ :: post)).Nodup) :
    replaced (pre ++ ⟨id, .gap gap⟩ :: post) new (some id) = elements pre ++ new ++ elements post := by
  obtain ⟨hpre, hpost⟩ := Stored.not_mem_of_nodup hn
  rw [replaced, List.flatMap_append, List.flatMap_cons, flatMap_replace hpre, flatMap_replace hpost,
    if_pos rfl, List.append_assoc]

end Replaced

section Replace

variable {cap : ℕ} {U M : List (PlainChunk Event Gap)} {s : EventLinkedChunk Event Gap}

lemma Mirrors.pushBackwardsPaginationEvents_replaced (hcap : 0 < cap) (h : Mirrors cap U M s)
    {prevGapId : Option ChunkIdentifier} {newGap : Option Gap} {events : List Event}
    (hgap : HasGap s.plainChunks prevGapId) (hfree : ¬ Blocked s.plainChunks prevGapId newGap events) :
    Yields .noMoreIdentifiers (fun y => Mirrors cap U M y.2 ∧ elements y.2.plainChunks =
        replaced s.plainChunks (newGap.toList.map .gap ++ events.map .item) prevGapId)
      (s.pushBackwardsPaginationEvents cap prevGapId newGap events) := by
  cases prevGapId with
  | none =>
    refine (h.pushBackwardsPaginationEvents_front hcap newGap events).mono ?_
    rintro y ⟨hm, hels⟩
    exact ⟨hm, by rw [hels, replaced]; simp⟩
  | some id =>
    obtain ⟨gap, hmem⟩ := hgap id rfl
    obtain ⟨pre, post, hs⟩ := List.append_of_mem hmem
    refine (h.pushBackwardsPaginationEvents_gap hcap hs newGap events ?_).mono ?_
    · -- the chunk after the gap holds events
      rintro hnew rfl ⟨id', content⟩ hc
      cases content with
      | items xs => exact ⟨xs, rfl⟩
      | gap gap' =>
        obtain ⟨post, rfl⟩ := List.head?_eq_some_iff.1 hc
        exact absurd ⟨hnew, rfl, pre, id, gap, id', gap', post, rfl, hs⟩ hfree
    · rintro y ⟨hm, hels⟩
      have hn : (ids (pre ++ ⟨id, .gap gap⟩ :: post)).Nodup := hs ▸ h.nodup_memory
      exact ⟨hm, by rw [hels, hs, replaced_gap hn]; simp⟩

lemma Mirrors.pushBackwardsPaginationEvents_ok_free (h : Mirrors cap U M s)
    {prevGapId : Option ChunkIdentifier}
    {newGap : Option Gap} {events : List Event} {y : Bool × EventLinkedChunk Event Gap}
    (hy : s.pushBackwardsPaginationEvents cap prevGapId newGap events = .ok y) :
    ¬ Blocked s.plainChunks prevGapId newGap events := by
  rintro ⟨hnew, rfl, pre, id, gap, id', gap', post, rfl, hs⟩
  obtain ⟨newGap, rfl⟩ := Option.isSome_iff_exists.1 hnew
  rw [h.pushBackwardsPaginationEvents_blocked hs newGap] at hy
  cases hy

end Replace

namespace RoomEventCacheState

/-- The linked chunks that syncs, back-paginations and lazy loads build, with their stores. The
chunks are loaded one by one from the end, once the store has all updates. -/
inductive Built (cap : ℕ) : RoomEventCacheState Event Gap → Prop
  | empty : Built cap empty
  | touch {s} : Built cap s → Built cap s.touch
  | pushLiveEvents {s newGap events chunk} : Built cap s →
      s.roomLinkedChunk.pushLiveEvents cap newGap events = .ok chunk →
      Built cap { s with roomLinkedChunk := chunk }
  | pushBackwardsPaginationEvents {s prevGapId newGap events reachedStart chunk} : Built cap s →
      HasGap s.memory prevGapId →
      s.roomLinkedChunk.pushBackwardsPaginationEvents cap prevGapId newGap events =
        .ok (reachedStart, chunk) →
      Built cap { s with roomLinkedChunk := chunk }
  | propagateChanges {s s'} : Built cap s → s.propagateChanges = .ok s' → Built cap s'
  | shrinkToLastReloadedChunk {s s'} : Built cap s → s.Settled → s.shrinkToLastReloadedChunk cap = .ok s' →
      Built cap s'
  | insertNewChunkAsFirst {s first newFirstChunk chunk} : Built cap s → s.Settled →
    s.memory.head? = some first →
      Stored.loadPreviousChunk s.store first.identifier = some newFirstChunk →
      s.roomLinkedChunk.insertNewChunkAsFirst cap newFirstChunk = (.ok (), chunk) →
      Built cap { s with roomLinkedChunk := ⟨chunk.chunks, []⟩ }

variable {cap : ℕ} {s : RoomEventCacheState Event Gap}

theorem Built.held (hcap : 0 < cap) (h : s.Built cap) : ∃ U, s.Held cap U := by
  induction h with
  | empty => exact ⟨[], held_empty⟩
  | touch _ ih =>
    obtain ⟨U, h⟩ := ih
    exact ⟨U, h.touch⟩
  | pushLiveEvents _ hchunk ih =>
    obtain ⟨U, M, hM, hm⟩ := ih
    obtain ⟨hm', -⟩ := (hm.pushLiveEvents hcap _ _).of_ok hchunk
    exact ⟨U, M, hM, hm'⟩
  | pushBackwardsPaginationEvents _ hgap hchunk ih =>
    obtain ⟨U, M, hM, hm⟩ := ih
    have hfree := hm.pushBackwardsPaginationEvents_ok_free hchunk
    obtain ⟨hm', -⟩ := (hm.pushBackwardsPaginationEvents_replaced hcap hgap hfree).of_ok hchunk
    exact ⟨U, M, hM, hm'⟩
  | propagateChanges _ hs' ih =>
    obtain ⟨U, h⟩ := ih
    obtain ⟨s₁, hs₁, h₁, -⟩ := h.propagateChanges
    rw [hs₁] at hs'
    cases hs'
    exact ⟨U, h₁⟩
  | shrinkToLastReloadedChunk _ hsettled hs' ih =>
    obtain ⟨U, h⟩ := ih
    obtain ⟨s₁, U', hs₁, h₁, -⟩ := h.shrinkToLastReloadedChunk (.inl hsettled)
    rw [hs₁] at hs'
    cases hs'
    exact ⟨U', h₁⟩
  | insertNewChunkAsFirst _ hsettled hhead hload hchunk ih =>
    obtain ⟨U, h⟩ := ih
    obtain ⟨s₁, U', hs₁, h₁, -⟩ := h.loadPrevious hsettled hhead hload
    rw [hchunk] at hs₁
    cases hs₁
    exact ⟨U', h₁⟩

/-- **The result of a back-pagination takes the place of its gap** in every layout of chunks, unless
it has a new gap and no events, and its gap stands right before another one. -/
theorem pushBackwardsPaginationEvents_replaced_iff (hcap : 0 < cap) (hs : s.Built cap)
    {prevGapId : Option ChunkIdentifier} (hgap : HasGap s.memory prevGapId) (newGap : Option Gap)
    (events : List Event) :
    Yields .noMoreIdentifiers (fun y => elements y.2.plainChunks =
        replaced s.memory (newGap.toList.map .gap ++ events.map .item) prevGapId)
      (s.roomLinkedChunk.pushBackwardsPaginationEvents cap prevGapId newGap events) ↔
      ¬ Blocked s.memory prevGapId newGap events := by
  obtain ⟨U, M, -, hm⟩ := hs.held hcap
  constructor
  · rintro (⟨y, hy, -⟩ | herr)
    · exact hm.pushBackwardsPaginationEvents_ok_free hy
    · rintro ⟨hnew, rfl, pre, id, gap, id', gap', post, rfl, hs⟩
      obtain ⟨newGap, rfl⟩ := Option.isSome_iff_exists.1 hnew
      rw [hm.pushBackwardsPaginationEvents_blocked hs newGap] at herr
      cases herr
  · exact fun hfree => (hm.pushBackwardsPaginationEvents_replaced hcap hgap hfree).mono fun y hy => hy.2

lemma exists_two_gaps : ∃ s : RoomEventCacheState ℕ ℕ, s.Built 128 ∧
    s.memory = [⟨⟨1⟩, .gap 1⟩, ⟨⟨2⟩, .gap 2⟩] := by
  have first := Built.pushLiveEvents .empty
    (show EventLinkedChunk.pushLiveEvents 128 (.new : EventLinkedChunk ℕ ℕ) (some 1) [] = .ok _ from rfl)
  have second := Built.pushLiveEvents first
    (show EventLinkedChunk.pushLiveEvents 128 _ (some 2) [] = .ok _ from rfl)
  exact ⟨_, second, rfl⟩

/-- The page of the older of the two gaps has a token and no events: there is no place for the new
gap. -/
theorem pushBackwardsPaginationEvents_two_gaps : ∃ s : RoomEventCacheState ℕ ℕ, s.Built 128 ∧
    s.memory = [⟨⟨1⟩, .gap 1⟩, ⟨⟨2⟩, .gap 2⟩] ∧
    s.roomLinkedChunk.pushBackwardsPaginationEvents 128 (some ⟨1⟩) (some 3) [] = .error .assertion := by
  obtain ⟨s, hs, hmemory⟩ := exists_two_gaps
  obtain ⟨U, M, -, hm⟩ := hs.held (by decide)
  have hsplit : s.memory = [] ++ ⟨⟨1⟩, .gap 1⟩ :: ⟨⟨2⟩, .gap 2⟩ :: [] := hmemory
  exact ⟨s, hs, hmemory, hm.pushBackwardsPaginationEvents_blocked hsplit 3⟩

/-- With an event in the page, the new gap has a place. -/
theorem pushBackwardsPaginationEvents_replaced_event : ∃ s : RoomEventCacheState ℕ ℕ, s.Built 128 ∧
    elements s.memory = [.gap 1, .gap 2] ∧
    Yields .noMoreIdentifiers (fun y => elements y.2.plainChunks = [.gap 3, .item 7, .gap 2])
      (s.roomLinkedChunk.pushBackwardsPaginationEvents 128 (some ⟨1⟩) (some 3) [7]) := by
  obtain ⟨s, hs, hmemory⟩ := exists_two_gaps
  have hgap : HasGap s.memory (some ⟨1⟩) := by
    rintro _ ⟨⟩
    exact ⟨1, by simp [hmemory]⟩
  have h := (pushBackwardsPaginationEvents_replaced_iff (by decide) hs hgap (some 3) [7]).2 (by simp [Blocked])
  rw [hmemory] at h
  exact ⟨s, hs, by rw [hmemory]; rfl, h⟩

end RoomEventCacheState

end HaranaMatrix.EventCache
