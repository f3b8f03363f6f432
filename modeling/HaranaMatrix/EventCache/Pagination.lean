import HaranaMatrix.EventCache.GapReplacement
import HaranaMatrix.EventCache.Sync

/-!
# Back-paginations and purges

A concluded back-pagination takes its events out of the room and puts them in the place of its gap,
or before the first event in memory. It panics when it has no event left, a new gap, and its gap is
followed by another one. Purges only take events out. -/

set_option linter.unusedSectionVars false

namespace HaranaMatrix.EventCache

open Linked RoomEvent List

variable {Event EventId UserId Gap : Type} [RoomEvent Event EventId UserId] [DecidableEq EventId]
  [DecidableEq UserId]

namespace RoomEventCacheState

variable {cap : ℕ} {U : List (PlainChunk Event Gap)} {s : RoomEventCacheState Event Gap}
  {filter : DuplicateFilter Event EventId Gap} {ownUserId : UserId}

/-! ## Back-paginations -/

section Conclude

/-- After a back-pagination, the identifiers in the room pass `P`. -/
abbrev Concluded (cap : ℕ) (P : List (Element (Option EventId) Gap) → Prop)
    (y : Bool × RoomEventCacheState Event Gap) : Prop :=
  ∃ U', y.2.Tracked cap U' ∧ y.2.AtRest ∧ P (idsOf (elements y.2.store))

lemma Tracked.pushPaginated (hcap : 0 < cap) (h : s.Tracked cap U) {prevGapId : Option ChunkIdentifier}
    {newToken : Option Gap} {events : List Event} {flat : List (Element Event Gap)}
    (hgap : HasGap s.memory prevGapId)
    (hfree : ¬ EventCache.Blocked s.memory prevGapId newToken events)
    (hflat : elements U ++ replaced s.memory (newToken.toList.map .gap ++ events.map .item) prevGapId = flat)
    (hd : Distinct flat) :
    Yields (.fault .noMoreIdentifiers) (Concluded cap (· = idsOf flat))
      (s.pushPaginated cap prevGapId newToken events) := by
  obtain ⟨g, hlike, hsound⟩ := h
  obtain ⟨M, hM, hm⟩ := hsound.held
  rw [← hlike.chunk] at hm
  refine (hm.pushBackwardsPaginationEvents_replaced hcap hgap hfree).mapError.bind ?_
  rintro ⟨reachedStart, chunk⟩ ⟨hm', hels⟩
  have hels : elements (U ++ chunk.plainChunks) = flat := by
    rw [elements_append, hels]
    exact hflat
  have hsound' : Sound cap U ⟨chunk, g.store⟩ := by
    refine ⟨⟨M, hM, hm'⟩, ?_⟩
    rw [show memory _ = chunk.plainChunks from rfl, hels]
    exact hd
  obtain ⟨g₁, hg₁, hsound₁, hsettled₁, hmemory⟩ := hsound'.propagateChanges
  obtain ⟨s₁, hs₁, hlike₁⟩ := (hg₁ ▸ (hlike.withChunk chunk).propagateChanges).of_ok_right
  have htracked₁ : s₁.Tracked cap U := ⟨g₁, hlike₁, hsound₁⟩
  have hsettled : s₁.Settled := hlike₁.settled.2 hsettled₁
  obtain ⟨s₂, hs₂, htracked₂, hsettled₂, hels₂⟩ := htracked₁.postProcessUpsertedEvents hsettled events
  simp only [hs₁, hs₂, ok_bind]
  refine .ok ⟨U, htracked₂, .inl hsettled₂, ?_⟩
  have hids := idsOf_postProcess events (elements s₁.store, elements s₁.memory)
  rw [← hels₂] at hids
  rw [hids, htracked₁.idsOf_store (.inl hsettled), hlike₁.memory, hmemory]
  exact congrArg idsOf hels

/-- What is kept of the events of a back-pagination. -/
def keptEvents (ownUserId : UserId) (filter : DuplicateFilter Event EventId Gap)
    (s : RoomEventCacheState Event Gap) (events : List Event) : List Event :=
  if s.allDuplicates ownUserId filter events then [] else retainNew [] events

/-- What is kept of the new token of a back-pagination. -/
def keptGap (ownUserId : UserId) (filter : DuplicateFilter Event EventId Gap)
    (s : RoomEventCacheState Event Gap)
    (events : List Event) (newToken : Option Gap) : Option Gap :=
  if s.allDuplicates ownUserId filter events then none else newToken

lemma filter_nil (hfilter : filter.Exact) (cs : List (PlainChunk Event Gap)) : filter cs [] = [] := by
  have := hfilter cs []
  have hnil : entries cs ([] : List EventId) = [] := by simp [entries]
  rw [hnil] at this
  exact this.eq_nil

lemma Tracked.insertPaginated_cases (h : s.Tracked cap U) (ownUserId : UserId) (hs : s.AtRest)
    (hfilter : filter.Exact)
    (prevGapId : Option ChunkIdentifier) (events : List Event) (newToken : Option Gap) :
    ∃ s' U', s.insertPaginated cap ownUserId filter prevGapId events newToken =
        s'.pushPaginated cap prevGapId (s.keptGap ownUserId filter events newToken)
          (s.keptEvents ownUserId filter events).reverse ∧
      s'.Tracked cap U' ∧ TakenOut ((s.keptEvents ownUserId filter events).map eventId) s.memory s'.memory ∧
      elements U' = without ((s.keptEvents ownUserId filter events).map eventId) (elements U) ∧
      (s.keptEvents ownUserId filter events = [] → s' = s) := by
  unfold RoomEventCacheState.insertPaginated keptEvents keptGap
  cases hdup : s.allDuplicates ownUserId filter events with
  | true =>
    unfold allDuplicates at hdup
    simp only [hdup, if_true]
    exact ⟨s, U, rfl, h, .refl _, without_names_nil.symm, fun _ => rfl⟩
  | false =>
    unfold allDuplicates at hdup
    simp only [hdup, Bool.false_eq_true, if_false]
    have hfinds := h.findsOf hs hfilter (retainNew [] events)
    obtain ⟨s', U', hs', hsound, hout, hels, -⟩ := h.removeNamed hfinds.named
    have hnames := hfinds.mem_names h.distinct
    refine ⟨s', U', ?_, hsound, hout.congr fun i hi => hnames i (by simp [hi]), ?_, fun hnil => ?_⟩
    · exact congrArg (· >>= fun s => s.pushPaginated cap prevGapId newToken (retainNew [] events).reverse) hs'
    · rw [hels]
      exact without_congr fun i hi => hnames i (by simp [hi])
    · rw [hnil, filterMap_nil, filter_nil hfilter] at hs'
      exact (Except.ok.inj hs').symm

lemma keptEvents_distinct (ownUserId : UserId) (filter : DuplicateFilter Event EventId Gap)
    (s : RoomEventCacheState Event Gap) (events : List Event) :
    none ∉ (s.keptEvents ownUserId filter events).map eventId ∧
      ((s.keptEvents ownUserId filter events).map eventId).Nodup := by
  unfold keptEvents
  split
  · simp
  · exact ⟨(retainNew_distinct [] events).1, (retainNew_distinct [] events).2.1⟩

/-- **A back-pagination with a gap takes its place.** -/
theorem Tracked.insertPaginated_gap (hcap : 0 < cap) (h : s.Tracked cap U) (hs : s.AtRest)
    (hfilter : filter.Exact)
    {pre post : List (PlainChunk Event Gap)} {id : ChunkIdentifier} {g : Gap}
    (hmemory : s.memory = pre ++ ⟨id, .gap g⟩ :: post) (events : List Event) {newToken : Option Gap}
    (hfree : ¬ EventCache.Blocked s.memory (some id) newToken (retainNew [] events)) :
    Yields (.fault .noMoreIdentifiers) (Concluded cap (· = idsOf
        (paginated (s.keptGap ownUserId filter events newToken) (s.keptEvents ownUserId filter events)
          (elements (U ++ pre)) (elements post))))
      (s.insertPaginated cap ownUserId filter (some id) events newToken) := by
  obtain ⟨s', U', hrun, hsound, hout, hels, hsame⟩ :=
    h.insertPaginated_cases ownUserId hs hfilter (some id) events newToken
  obtain ⟨hnone, hn⟩ := keptEvents_distinct ownUserId filter s events
  have hd : Distinct (elements (U ++ pre) ++ elements post) := by
    refine h.distinct.sublist ?_
    rw [hmemory]
    simp
  obtain ⟨pre', post', hmemory', hpre, hpost⟩ := hout.gaps pre id g post hmemory
  have hgap : HasGap s'.memory (some id) := by
    intro id' hid
    cases hid
    exact ⟨g, by simp [hmemory']⟩
  rw [hrun]
  refine hsound.pushPaginated hcap hgap (fun hblocked => hfree ?_) ?_ (distinct_paginated hd hnone hn _)
  · -- nothing was removed
    obtain ⟨htoken, hnil, hplace⟩ := hblocked
    have hnil := reverse_eq_nil_iff.1 hnil
    obtain rfl := hsame hnil
    unfold keptGap at htoken
    unfold keptEvents at hnil
    cases hdup : s'.allDuplicates ownUserId filter events with
    | true => simp [hdup] at htoken
    | false =>
      simp only [hdup, Bool.false_eq_true, if_false] at htoken hnil
      exact ⟨htoken, hnil, hplace⟩
  · have hnodup := hsound.nodup
    rw [hmemory', ids, map_append] at hnodup
    rw [hmemory', replaced_gap (nodup_append.1 hnodup).2.1, hels, hpre, hpost, paginated,
      elements_append, without_append]
    simp

/-- **A back-pagination without a gap goes in front of the first event in memory** that it does not
have. -/
theorem Tracked.insertPaginated_front (hcap : 0 < cap) (h : s.Tracked cap U) (hs : s.AtRest)
    (hfilter : filter.Exact) (events : List Event) (newToken : Option Gap) :
    Yields (.fault .noMoreIdentifiers) (Concluded cap fun flat => ∃ A B, elements s.memory = A ++ B ∧
        eventsOf (without ((s.keptEvents ownUserId filter events).map eventId) A) = [] ∧
          flat = idsOf (paginated (s.keptGap ownUserId filter events newToken)
            (s.keptEvents ownUserId filter events) (elements U ++ A) B))
      (s.insertPaginated cap ownUserId filter none events newToken) := by
  obtain ⟨s', U', hrun, hsound, hout, hels, -⟩ :=
    h.insertPaginated_cases ownUserId hs hfilter none events newToken
  obtain ⟨hnone, hn⟩ := keptEvents_distinct ownUserId filter s events
  -- the gaps in front, once the events are removed, and what becomes of them
  obtain ⟨A, B, hsplit, hA, hB⟩ := filter_eq_append_iff.1
    (hout.elements_eq.symm.trans (takeWhile_append_dropWhile (p := isGap)).symm)
  have hd : Distinct (elements U ++ A ++ B) := by
    have := h.distinct
    rwa [elements_append, hsplit, ← append_assoc] at this
  have hdp := distinct_paginated hd hnone hn (s.keptGap ownUserId filter events newToken)
  rw [hrun]
  refine (hsound.pushPaginated hcap (fun _ hid => by cases hid) ?_ ?_ hdp).mono ?_
  · rintro ⟨-, -, _, _, _, _, _, _, hid, -⟩
    cases hid
  · rw [replaced, hels, paginated, without_append, show without _ A = _ from hA, show without _ B = _ from hB]
    simp
  · rintro y ⟨U'', htracked', hrest, hflat⟩
    refine ⟨U'', htracked', hrest, A, B, hsplit, ?_, hflat⟩
    rw [show without _ A = _ from hA]
    refine filterMap_eq_nil_iff.2 fun el hel => ?_
    have := mem_takeWhile_imp hel
    cases el with
    | gap gap => rfl
    | item event => simp [isGap] at this

/-! ### The gap of a token -/

variable [DecidableEq Gap]

lemma findGap_some {token : Gap} {id : ChunkIdentifier} (h : s.findGap token = some id) :
    ∃ pre post, s.memory = pre ++ ⟨id, .gap token⟩ :: post := by
  obtain ⟨⟨id', content⟩, hfind, rfl⟩ := Option.map_eq_some_iff.1 h
  obtain ⟨pre, post, hsplit⟩ := append_of_mem (mem_of_find?_eq_some hfind)
  have hgap := List.find?_some hfind
  cases content with
  | items xs => simp at hgap
  | gap gap =>
    obtain rfl : gap = token := by simpa using hgap
    exact ⟨pre, post, hsplit⟩

/-- There is no place for the new gap of the pagination. -/
def Blocked (s : RoomEventCacheState Event Gap) (events : List Event)
    (prevToken newToken : Option Gap) : Prop :=
  ∃ token ∈ prevToken, EventCache.Blocked s.memory (s.findGap token) newToken (retainNew [] events)

/-- What a back-pagination is to do to the sequence of the room: nothing if its gap is gone;
otherwise its events take the place of its gap, or they go in front of the first event in memory
that it does not have. -/
def Paginates (ownUserId : UserId) (filter : DuplicateFilter Event EventId Gap)
    (s : RoomEventCacheState Event Gap)
    (events : List Event) (prevToken newToken : Option Gap) (els els' : List (Element Event Gap)) : Prop :=
  let batch := s.keptEvents ownUserId filter events
  let gap := s.keptGap ownUserId filter events newToken
  match prevToken with
  | some token =>
    if (s.findGap token).isNone then els' = els
    else ∃ before after, els = before ++ .gap token :: after ∧ idsOf els' = idsOf (paginated gap batch before after)
  | none => ∃ unloaded before after, els = unloaded ++ (before ++ after) ∧
      idsOf (before ++ after) = idsOf (elements s.memory) ∧
        eventsOf (without (batch.map eventId) before) = [] ∧
      idsOf els' = idsOf (paginated gap batch (unloaded ++ before) after)

lemma idsOf_paginated {before after before' after' : List (Element Event Gap)} (gap : Option Gap)
    (batch : List Event)
    (hbefore : idsOf before = idsOf before') (hafter : idsOf after = idsOf after') :
    idsOf (paginated gap batch before after) = idsOf (paginated gap batch before' after') := by
  simp only [paginated, idsOf_append]
  rw [idsOf_without _ hbefore, idsOf_without _ hafter]

/-- **A back-pagination does what it is to do**, unless it is blocked. -/
theorem Tracked.concludeBackwardsPaginationFromNetwork (hcap : 0 < cap) (h : s.Tracked cap U) (hs : s.AtRest)
    (hfilter : filter.Exact) (events : List Event) (prevToken newToken : Option Gap)
    (hfree : ¬ s.touch.Blocked events prevToken newToken) :
    Yields (.fault .noMoreIdentifiers) (fun y => ∃ U', y.2.Tracked cap U' ∧ y.2.AtRest ∧
        s.touch.Paginates ownUserId filter events prevToken newToken (elements s.store) (elements y.2.store))
      (s.concludeBackwardsPaginationFromNetwork cap ownUserId filter events prevToken newToken) := by
  have ht := h.touch
  have hrest := h.atRest_touch hs
  have hids : idsOf (elements s.store) = idsOf (elements (U ++ s.touch.memory)) := ht.idsOf_store hrest
  unfold RoomEventCacheState.concludeBackwardsPaginationFromNetwork Paginates
  cases prevToken with
  | none =>
    refine (ht.insertPaginated_front hcap hrest hfilter events newToken).bind ?_
    rintro y ⟨U', htracked, hrest', A, B, hsplit, hgaps, hflat⟩
    rw [elements_append, hsplit, idsOf_append, idsOf_append] at hids
    obtain ⟨unloaded, rest, hels, hU, hr⟩ := map_eq_append_iff.1 hids
    obtain ⟨before, after, rfl, hA, hB⟩ := map_eq_append_iff.1 hr
    refine .ok ⟨U', htracked, hrest', unloaded, before, after, hels, ?_, ?_, ?_⟩
    · rw [hsplit, idsOf_append, idsOf_append]
      exact congrArg₂ (· ++ ·) hA hB
    · have hbefore := congrArg eventsOf (idsOf_without ((s.touch.keptEvents ownUserId filter events).map eventId) hA)
      rw [eventsOf_mapElement, eventsOf_mapElement, hgaps, map_nil] at hbefore
      exact map_eq_nil_iff.1 hbefore
    · rw [hflat]
      refine idsOf_paginated _ _ ?_ hB.symm
      rw [idsOf_append, idsOf_append]
      exact congrArg₂ (· ++ ·) hU.symm hA.symm
  | some token =>
    cases hfind : s.touch.findGap token with
    | none =>
      simp only [hfind, Option.isNone_none, if_true]
      exact .ok ⟨U, ht, hrest, rfl⟩
    | some id =>
      simp only [hfind, Option.isNone_some, Bool.false_eq_true, if_false]
      obtain ⟨pre, post, hmemory⟩ := findGap_some hfind
      have hfree' : ¬ EventCache.Blocked s.touch.memory (some id) newToken (retainNew [] events) :=
        fun hblocked => hfree ⟨token, rfl, hfind ▸ hblocked⟩
      refine (ht.insertPaginated_gap hcap hrest hfilter hmemory events hfree').bind ?_
      rintro y ⟨U', htracked, hrest', hflat⟩
      rw [hmemory, ← append_assoc, elements_append, idsOf_append] at hids
      obtain ⟨before, rest, hels, hbefore, hr⟩ := map_eq_append_iff.1 hids
      obtain ⟨el, after, rfl, hel, hafter⟩ := map_eq_cons_iff.1 hr
      obtain rfl : el = .gap token := by
        cases el with
        | gap gap => rw [Element.gap.inj hel]
        | item event => cases hel
      exact .ok ⟨U', htracked, hrest', before, after, hels,
        hflat.trans (idsOf_paginated _ _ hbefore.symm hafter.symm)⟩

/-- **A blocked back-pagination panics.** -/
theorem Tracked.blocked (h : s.Tracked cap U) (hfilter : filter.Exact) {events : List Event}
    {prevToken newToken : Option Gap} (hblocked : s.touch.Blocked events prevToken newToken) :
    s.concludeBackwardsPaginationFromNetwork cap ownUserId filter events prevToken newToken =
      .error (.fault .assertion) := by
  obtain ⟨token, rfl, htoken, hnil, pre, id, g, id', g', post, hfind, hmemory⟩ := hblocked
  obtain ⟨newGap, rfl⟩ := Option.isSome_iff_exists.1 htoken
  have hcut : s.touch.roomLinkedChunk.pushBackwardsPaginationEvents cap (some id) (some newGap) [] =
      .error .assertion := by
    obtain ⟨g₀, hlike, hsound⟩ := h.touch
    obtain ⟨M, -, hm⟩ := hsound.held
    rw [hlike.chunk]
    exact hm.pushBackwardsPaginationEvents_blocked (hlike.memory ▸ hmemory) newGap
  have hinsert : s.touch.insertPaginated cap ownUserId filter (some id) events (some newGap) =
      .error (.fault .assertion) := by
    have hdup : filterDuplicateEvents ownUserId filter s.touch.store s.touch.roomLinkedChunk events =
        ⟨[], [], [], false⟩ := by
      simp [filterDuplicateEvents, hnil, filter_nil hfilter]
    simp only [RoomEventCacheState.insertPaginated, hdup, Bool.false_eq_true, if_false,
      RoomEventCacheState.pushPaginated, reverse_nil]
    show lift (s.touch.roomLinkedChunk.pushBackwardsPaginationEvents cap (some id) (some newGap) []) >>= _ = _
    rw [hcut]
    rfl
  simp only [RoomEventCacheState.concludeBackwardsPaginationFromNetwork,
    show s.touch.findGap token = some id from hfind, hinsert]
  rfl

end Conclude

/-! ## Purges -/

section Purge

lemma expired_sublist (cutoff : ℕ) (L : List (Position × Event)) :
    ((expired cutoff L).map Prod.snd).Sublist (L.map Prod.fst) := by
  induction L with
  | nil => exact .refl _
  | cons x L ih =>
    rw [expired, map_cons]
    split
    · exact ih.cons _
    · split
      · exact nil_sublist _
      · split
        · exact ih.cons _
        · exact ih.cons_cons _

lemma mem_expired {cutoff : ℕ} {L : List (Position × Event)} {x : EventId × Position}
    (h : x ∈ expired cutoff L) :
    ∃ event, (x.2, event) ∈ L ∧ eventId event = some x.1 := by
  induction L with
  | nil => cases h
  | cons y L ih =>
    obtain ⟨position, event⟩ := y
    have hrest : x ∈ expired cutoff L → ∃ event', (x.2, event') ∈ (position, event) :: L ∧
      eventId event' = some x.1 :=
      fun hx => have ⟨event', hmem, hid⟩ := ih hx; ⟨event', mem_cons_of_mem _ hmem, hid⟩
    rw [expired] at h
    split at h
    · exact hrest h
    · split at h
      · cases h
      · split at h
        · exact hrest h
        · next i hi =>
          rcases mem_cons.1 h with rfl | h
          · exact ⟨event, mem_cons_self .., hi⟩
          · exact hrest h

lemma named_expired {F : List (PlainChunk Event Gap)} (hn : (ids F).Nodup) (cutoff : ℕ) :
    Named F (expired cutoff (positioned F)) :=
  ⟨(nodup_positioned hn).sublist (expired_sublist cutoff _), fun _ hx => mem_expired hx⟩

/-- **A purge removes the expired events.** -/
theorem Tracked.purgeEventsOlderThan (h : s.Tracked cap U) (hs : s.AtRest) (cutoff : ℕ) :
    ∃ s' U', s.purgeEventsOlderThan cap cutoff = .ok s' ∧ s'.Tracked cap U' ∧ s'.AtRest ∧
      idsOf (elements s'.store) = idsOf (without (names (expired cutoff (positioned s.store))) (elements s.store)) := by
  unfold RoomEventCacheState.purgeEventsOlderThan
  by_cases hempty : s.store = []
  · exact ⟨s, U, by simp [hempty], h, hs, by rw [hempty]; rfl⟩
  have ht := h.touch
  have hrest := h.atRest_touch hs
  have hsettled : s.touch.Settled := hrest.resolve_right fun hnil => hempty hnil.1
  have hsame : SameIds s.store (U ++ s.touch.memory) := ht.sameIds hsettled
  have hnamed : Named (U ++ s.touch.memory) (expired cutoff (positioned s.store)) :=
    hsame.named (named_expired (hsame.ids_eq ▸ ht.nodup) cutoff)
  rw [if_neg (by simpa using hempty)]
  simp only [show s.touch.store = s.store from rfl]
  split
  · next hnil =>
    refine ⟨s.touch, U, rfl, ht, hrest, ?_⟩
    rw [isEmpty_iff.1 hnil]
    exact congrArg idsOf without_names_nil.symm
  · obtain ⟨s', U', hs', htracked, hout, hU', hsettled'⟩ := ht.removeNamed hnamed
    have hrest' : s'.AtRest := .inl (hsettled' hsettled)
    refine ⟨s', U', hs', htracked, hrest', ?_⟩
    rw [htracked.idsOf_store hrest', elements_append, hU', hout.elements_eq, ← without_append,
      ← elements_append]
    exact (idsOf_without _ (ht.idsOf_store hrest)).symm

/-- The sequence without the events that were sent by them. -/
def notSentBy (sentBy : UserId → Bool) (els : List (Element Event Gap)) : List (Element Event Gap) :=
  els.filter fun
    | .item event => !(sender event).any sentBy
    | .gap _ => true

lemma without_eq_notSentBy {els : List (Element Event Gap)} {names : List (Option EventId)}
    {sentBy : UserId → Bool}
    (h : ∀ event, .item event ∈ els → (eventId event ∈ names ↔ (sender event).any sentBy)) :
    without names els = notSentBy sentBy els := by
  refine filter_congr fun el hel => ?_
  cases el with
  | gap gap => rfl
  | item event => by_cases hsent : (sender event).any sentBy <;> simp [h event hel, hsent]

lemma Tracked.named_inMemory (h : s.Tracked cap U) (sentBy : UserId → Bool) :
    Named s.memory (s.inMemoryEventsSentBy sentBy) ∧ ∀ event, .item event ∈ elements s.memory →
      (eventId event ∈ names (s.inMemoryEventsSentBy sentBy) ↔ (sender event).any sentBy) := by
  have hd : Distinct (elements s.memory) := (elements_append U s.memory ▸ h.distinct).right
  have hn := h.nodup
  rw [ids_append] at hn
  refine ⟨⟨?_, fun x hx => ?_⟩, fun event he => ⟨fun hname => ?_, fun hsent => ?_⟩⟩
  · refine (nodup_positioned (nodup_append.1 hn).2.1).sublist
      ((filterMap_positions _ fun x y hy => ?_).trans (filter_sublist.map _))
    obtain ⟨i, -, rfl⟩ := Option.map_eq_some_iff.1 hy
    rfl
  · obtain ⟨y, hy, heq⟩ := mem_filterMap.1 hx
    obtain ⟨i, hi, rfl⟩ := Option.map_eq_some_iff.1 heq
    exact ⟨y.2, (mem_filter.1 hy).1, hi⟩
  · obtain ⟨x, hx, hid⟩ := mem_map.1 hname
    obtain ⟨y, hy, heq⟩ := mem_filterMap.1 hx
    obtain ⟨i, hi, rfl⟩ := Option.map_eq_some_iff.1 heq
    obtain ⟨hmem, hsent⟩ := mem_filter.1 hy
    rwa [hd.eq_of_eventId he (mem_elements_of_mem_positioned hmem) (hid.symm.trans hi.symm)]
  · have hflat : event ∈ flatten s.memory := by
      rw [← eventsOf_elements]
      exact mem_eventsOf.2 he
    rw [← map_snd_positioned] at hflat
    obtain ⟨x, hx, rfl⟩ := mem_map.1 hflat
    obtain ⟨i, hi⟩ := exists_eventId hd hx
    refine mem_map.2 ⟨(i, x.1), mem_filterMap.2 ⟨x, mem_filter.2 ⟨hx, hsent⟩, ?_⟩, hi.symm⟩
    rw [hi]
    rfl

lemma Tracked.finds_inStore (h : s.Tracked cap U) (hs : s.AtRest) (hfilter : filter.Exact)
    (roomEvents : List Event) (sentBy : UserId → Bool) :
    Finds U (((roomEvents.filter fun event => (sender event).any sentBy).filterMap eventId).map some)
      (s.inStoreEventsSentBy filter roomEvents sentBy) := by
  have hstore : s.inStoreEventsSentBy filter roomEvents sentBy =
      (filter s.store ((roomEvents.filter fun event => (sender event).any sentBy).filterMap eventId)).filter
        fun x => x.2.chunkIdentifier ∉ ids s.memory := by
    simp only [inStoreEventsSentBy]
    split
    · next hnil => rw [List.isEmpty_iff.1 hnil, filter_nil hfilter, List.filter_nil]
    · rfl
  rw [hstore]
  exact ((h.finds hs hfilter _).split h.nodup).2

/-- `get_room_events` has the events of the chunks, maybe with others. -/
def IsRoomEvents (store : List (PlainChunk Event Gap)) (roomEvents : List Event) : Prop :=
  ∀ event, eventId event ∈ (flatten store).map eventId → (event ∈ roomEvents ↔ event ∈ flatten store)

lemma Sound.named_inStore (h : s.Sound cap U) (hs : s.AtRest) (hfilter : filter.Exact)
    {roomEvents : List Event} (hroom : IsRoomEvents s.store roomEvents) (sentBy : UserId → Bool) :
    ∀ event, .item event ∈ elements U →
      (eventId event ∈ names (s.inStoreEventsSentBy filter roomEvents sentBy) ↔
        (sender event).any sentBy) := by
  intro event he
  have hels := (h.store_elements hs).1
  have hmem : event ∈ flatten s.store := by
    rw [← eventsOf_elements, mem_eventsOf, hels]
    simp [he]
  have hd : Distinct (elements s.store) := hels ▸ h.distinct
  rw [(h.tracked.finds_inStore hs hfilter roomEvents sentBy).mem_names h.distinct_unloaded _ (mem_eventIds he)]
  simp only [mem_map, mem_filterMap, mem_filter]
  constructor
  · rintro ⟨i, ⟨event', ⟨hmem', hsent⟩, hi⟩, hid⟩
    have heq : eventId event' = eventId event := hi.trans hid
    have hmem' := (hroom event' (heq ▸ mem_map_of_mem hmem)).1 hmem'
    rw [← eventsOf_elements, mem_eventsOf] at hmem hmem'
    rwa [hd.eq_of_eventId hmem hmem' heq.symm]
  · intro hsent
    cases hid : eventId event with
    | none => exact absurd (hid ▸ mem_eventIds he) h.distinct_unloaded.1
    | some i => exact ⟨i, ⟨event, ⟨(hroom event (mem_map_of_mem hmem)).2 hmem, hsent⟩, hid⟩, rfl⟩

lemma removeEventsSentBy_cases (hfilter : filter.Exact) (s : RoomEventCacheState Event Gap)
    (roomEvents : List Event) (sentBy : UserId → Bool) :
    (s.removeEventsSentBy cap filter roomEvents sentBy = .ok s.touch ∧
      s.touch.inMemoryEventsSentBy sentBy = [] ∧
      s.touch.inStoreEventsSentBy filter roomEvents sentBy = []) ∨
    (s.removeEventsSentBy cap filter roomEvents sentBy =
      s.touch.removeEvents cap (s.touch.inMemoryEventsSentBy sentBy)
      (s.touch.inStoreEventsSentBy filter roomEvents sentBy) ∧ (s.touch.AtRest → s.touch.Settled)) := by
  unfold RoomEventCacheState.removeEventsSentBy
  simp only
  split
  · next hnil =>
    rw [Bool.and_eq_true, List.isEmpty_iff, List.isEmpty_iff] at hnil
    exact .inl ⟨rfl, hnil⟩
  · next hsome =>
    refine .inr ⟨rfl, fun hrest => hrest.resolve_right fun ⟨hnil, hitems⟩ => hsome ?_⟩
    have hevents : s.touch.roomLinkedChunk.events = [] := positioned_eq_nil hitems
    have hnone (l : List EventId) : filter ([] : List (PlainChunk Event Gap)) l = [] := (hfilter [] l).eq_nil
    simp [inMemoryEventsSentBy, inStoreEventsSentBy, hevents, hnil, hnone]

/-- **The events of some senders are removed.** -/
theorem Sound.removeEventsSentBy (h : s.Sound cap U) (hs : s.AtRest) (hfilter : filter.Exact)
    {roomEvents : List Event} (hroom : IsRoomEvents s.store roomEvents) (sentBy : UserId → Bool) :
    ∃ s' U', s.removeEventsSentBy cap filter roomEvents sentBy = .ok s' ∧ s'.Sound cap U' ∧ s'.AtRest ∧
      elements (U' ++ s'.memory) = notSentBy sentBy (elements (U ++ s.memory)) ∧
      elements s'.memory = notSentBy sentBy (elements s.memory) := by
  have ht := h.touch
  have hrest := hs.touch h
  have hels : elements s.touch.memory = elements s.memory := Mirrors.elements_touch _
  obtain ⟨hmem, hmemory⟩ := ht.tracked.named_inMemory sentBy
  have hunloaded := ht.named_inStore hrest hfilter hroom sentBy
  have hflat : ∀ (s' : RoomEventCacheState Event Gap) U',
      TakenOut (names (s.touch.inMemoryEventsSentBy sentBy)) s.touch.memory s'.memory →
      elements U' = without (names (s.touch.inStoreEventsSentBy filter roomEvents sentBy)) (elements U) →
      elements (U' ++ s'.memory) = notSentBy sentBy (elements (U ++ s.memory)) ∧
      elements s'.memory = notSentBy sentBy (elements s.memory) := by
    intro s' U' hout hU'
    have hmem' : elements s'.memory = notSentBy sentBy (elements s.memory) := by
      rw [hout.elements_eq, without_eq_notSentBy hmemory, hels]
    refine ⟨?_, hmem'⟩
    rw [elements_append, hmem', hU', without_eq_notSentBy hunloaded, elements_append, notSentBy,
      notSentBy, notSentBy, filter_append]
  rcases removeEventsSentBy_cases hfilter s roomEvents sentBy with ⟨hrun, hnil, hnil'⟩ | ⟨hrun, hsettled⟩
  · refine ⟨s.touch, U, hrun, ht, hrest, hflat s.touch U ?_ ?_⟩
    · rw [hnil]
      exact .refl _
    · rw [hnil']
      exact without_names_nil.symm
  · have hfinds := ht.tracked.finds_inStore hrest hfilter roomEvents sentBy
    obtain ⟨s', U', hs', hsound, hout, hU', -, hsettled'⟩ := ht.removeEvents hmem hfinds.named
    exact ⟨s', U', hrun.trans hs', hsound, .inl (hsettled' (hsettled hrest)), hflat s' U' hout hU'⟩

end Purge

end RoomEventCacheState

end HaranaMatrix.EventCache
