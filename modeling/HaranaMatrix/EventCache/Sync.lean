import HaranaMatrix.EventCache.Versions

/-!
# Handling a sync

`handle_sync` replaces the common tail in place, takes the other events of the batch out, from memory and from
the store, and pushes them at the end. On the flat sequence this is `synced`.
-/

set_option linter.unusedSectionVars false

namespace HaranaMatrix.EventCache

open Linked RoomEvent List Stored

variable {Event EventId UserId Gap : Type} [RoomEvent Event EventId UserId] [DecidableEq EventId]
  [DecidableEq UserId]

/-! ## Events that stay in place -/

lemma Mirrors.replaceInPlace {cap : ℕ} {U M : List (PlainChunk Event Gap)} {s : EventLinkedChunk Event Gap}
    (h : Mirrors cap U M s) (hd : Distinct (elements s.plainChunks)) {L : List (Position × Event)}
    (hL : ∀ x ∈ L, ∃ old, (x.1, old) ∈ s.events ∧ eventId x.2 = eventId old) (hp : (L.map Prod.fst).Nodup)
    (hi : ((L.map Prod.snd).map eventId).Nodup) :
    ∃ s', RoomEventCacheState.replaceInPlace cap s L = .ok s' ∧ Mirrors cap U M s' ∧
      elements s'.plainChunks = (elements s.plainChunks).map (renew (L.map Prod.snd)) ∧
      ∀ x ∈ s.events, x.1 ∉ L.map Prod.fst → x ∈ s'.events := by
  induction L generalizing s with
  | nil => exact ⟨s, rfl, h, (map_renew_self (by simp)).symm, fun x hx _ => hx⟩
  | cons y L ih =>
    obtain ⟨p, event⟩ := y
    rw [map_cons, nodup_cons] at hp
    rw [map_cons, map_cons, nodup_cons] at hi
    obtain ⟨old, hmem, hid⟩ := hL (p, event) (by simp)
    obtain ⟨s₁, hs₁, hm₁, hels₁, -, hkeep⟩ := h.replaceItemAt hd hmem hid
    have hd₁ : Distinct (elements s₁.plainChunks) := hels₁ ▸ hd.map keepsIds_renew
    have hL₁ : ∀ x ∈ L, ∃ old, (x.1, old) ∈ s₁.events ∧ eventId x.2 = eventId old := by
      intro x hx
      obtain ⟨old, hmem, hid⟩ := hL x (by simp [hx])
      exact ⟨old, hkeep _ hmem fun heq => hp.1 (mem_map.2 ⟨x, hx, heq⟩), hid⟩
    obtain ⟨s', hs', hm', hels', hkeep'⟩ := ih hm₁ hd₁ hL₁ hp.2 hi.2
    refine ⟨s', ?_, hm', ?_, fun x hx hnot => ?_⟩
    · rw [RoomEventCacheState.replaceInPlace, EventLinkedChunk.replaceEventAt, hs₁]
      exact hs'
    · rw [hels', hels₁, map_cons, map_renew_cons hi.1]
    · rw [map_cons, mem_cons, not_or] at hnot
      exact hkeep' x (hkeep x hx hnot.1) hnot.2

lemma zip_tail {B : List (Position × Event)} {batch : List Event}
    (h : B.map (fun x => eventId x.2) = (batch.take B.length).map eventId) :
    ((B.map Prod.fst).zip batch).map Prod.fst = B.map Prod.fst ∧
    ((B.map Prod.fst).zip batch).map Prod.snd = batch.take B.length ∧
    ∀ x ∈ (B.map Prod.fst).zip batch, ∃ old, (x.1, old) ∈ B ∧ eventId x.2 = eventId old := by
  induction B generalizing batch with
  | nil => simp
  | cons b B ih =>
    cases batch with
    | nil => simp at h
    | cons event batch =>
      simp only [map_cons, length_cons, take_succ_cons, List.cons.injEq] at h
      obtain ⟨hfst, hsnd, hmem⟩ := ih h.2
      refine ⟨by simp [hfst], by simp [hsnd], ?_⟩
      rw [map_cons, zip_cons_cons, forall_mem_cons]
      refine ⟨⟨b.2, by simp, h.1.symm⟩, fun x hx => ?_⟩
      obtain ⟨old, hold, hid⟩ := hmem x hx
      exact ⟨old, by simp [hold], hid⟩

namespace RoomEventCacheState

variable {cap : ℕ} {U : List (PlainChunk Event Gap)} {s : RoomEventCacheState Event Gap}
  {filter : DuplicateFilter Event EventId Gap} {ownUserId : UserId}

/-- The events that stay in place: the longest common tail, none with a new gap. -/
def InPlace (s : RoomEventCacheState Event Gap) (batch : List Event) (gap : Option Gap) (k : ℕ) : Prop :=
  if gap.isSome then k = 0
  else Overlap (s.roomLinkedChunk.events.map Prod.snd) batch k ∧
    ∀ j, Overlap (s.roomLinkedChunk.events.map Prod.snd) batch j → j ≤ k

lemma exists_inPlace (s : RoomEventCacheState Event Gap) {batch : List Event}
    (hnone : none ∉ batch.map eventId) (gap : Option Gap) :
    ∃ A B, s.roomLinkedChunk.events = A ++ B ∧
      (if gap.isNone then s.roomLinkedChunk.commonTailWith batch else []) = B.map Prod.fst ∧
      B.map (fun x => eventId x.2) = (batch.take B.length).map eventId ∧ s.InPlace batch gap B.length := by
  cases gap with
  | some gap => exact ⟨s.roomLinkedChunk.events, [], by simp, rfl, rfl, rfl⟩
  | none =>
    obtain ⟨A, B, hsplit, htail, hids, hmax⟩ := commonTailWith_spec s.roomLinkedChunk hnone
    refine ⟨A, B, hsplit, htail, hids, ⟨A.map Prod.snd, B.map Prod.snd, ?_, by simp, ?_⟩, hmax⟩
    · rw [hsplit, map_append]
    · rw [map_map]
      exact hids

section Tail

variable {batch : List Event} {A B : List (Position × Event)} {F : List (PlainChunk Event Gap)}
  {inMemory : List (EventId × Position)}

lemma take_drop_apart (hn : (batch.map eventId).Nodup) (k : ℕ) :
    ∀ i ∈ (batch.take k).map eventId, i ∉ (batch.drop k).map eventId := by
  rw [← take_append_drop k batch, map_append] at hn
  exact fun i hi hi' => (nodup_append.1 hn).2.2 i hi i hi' rfl

lemma mem_take_or_drop (k : ℕ) {i : Option EventId} :
    i ∈ batch.map eventId ↔ i ∈ (batch.take k).map eventId ∨ i ∈ (batch.drop k).map eventId := by
  conv_lhs => rw [← take_append_drop k batch, map_append, mem_append]

lemma mem_names_iff (hF : (ids F).Nodup) (hd : Distinct (elements F)) (hsplit : positioned F = A ++ B)
    (hids : B.map (fun x => eventId x.2) = (batch.take B.length).map eventId) (hn : (batch.map eventId).Nodup)
    (hfinds : Finds F (batch.map eventId) inMemory) :
    ∀ i ∈ eventIds (elements F),
      i ∈ names (inMemory.filter fun x => x.2 ∉ B.map Prod.fst) ↔ i ∈ (batch.drop B.length).map eventId := by
  have hB : ∀ x ∈ B, x ∈ positioned F := fun x hx => by simp [hsplit, hx]
  have htake : ∀ x ∈ B, eventId x.2 ∈ (batch.take B.length).map eventId := fun x hx => by
    rw [← hids]
    exact mem_map_of_mem (f := fun x : Position × Event => eventId x.2) hx
  intro i hi
  constructor
  · intro hname
    obtain ⟨⟨j, p⟩, hx, rfl⟩ := mem_map.1 hname
    rw [mem_filter, decide_eq_true_eq] at hx
    refine ((mem_take_or_drop B.length).1 (hfinds.mem _ hx.1)).resolve_left fun hj => hx.2 ?_
    -- an event of the tail has this identifier, so it stands at this position
    rw [← hids] at hj
    obtain ⟨y, hy, hyj⟩ := mem_map.1 hj
    obtain ⟨event, hp, hej⟩ := hfinds.named.2 _ hx.1
    rw [position_unique hd hp (hB y hy) (hej.trans hyj.symm)]
    exact mem_map_of_mem hy
  · intro hdrop
    rw [eventIds_elements] at hi
    obtain ⟨x, hx, rfl⟩ := mem_map.1 hi
    have hbatch : eventId x.2 ∈ batch.map eventId := (mem_take_or_drop B.length).2 (.inr hdrop)
    obtain ⟨j, hj⟩ := exists_eventId hd hx
    refine mem_map.2 ⟨(j, x.1), mem_filter.2 ⟨hfinds.all x hx j (hj ▸ hbatch) hj, ?_⟩, hj.symm⟩
    rw [decide_eq_true_eq]
    intro hmem'
    obtain ⟨y, hy, hyx⟩ := mem_map.1 hmem'
    obtain rfl := inj_on_of_nodup_map (nodup_positioned hF) (hB y hy) hx hyx
    exact take_drop_apart hn B.length _ (htake y hy) hdrop

end Tail

lemma Sound.replaceTail (h : s.Sound cap U) {batch : List Event} {A B : List (Position × Event)}
    (hsplit : positioned s.memory = A ++ B) (hids : B.map (fun x => eventId x.2) =
      (batch.take B.length).map eventId)
    (hn : (batch.map eventId).Nodup) :
    ∃ chunk, replaceInPlace cap s.roomLinkedChunk ((B.map Prod.fst).zip batch) = .ok chunk ∧
      Sound cap U ⟨chunk, s.store⟩ ∧
      elements (U ++ chunk.plainChunks) = (elements (U ++ s.memory)).map (renew (batch.take B.length)) ∧
      elements chunk.plainChunks = (elements s.memory).map (renew (batch.take B.length)) ∧
      ∀ x ∈ positioned s.memory, x.1 ∉ B.map Prod.fst → x ∈ positioned chunk.plainChunks := by
  obtain ⟨M, hM, hm⟩ := h.held
  obtain ⟨hfst, hsnd, hzip⟩ := zip_tail hids
  have hB : ∀ x ∈ B, x ∈ positioned s.memory := fun x hx => by simp [hsplit, hx]
  have hpositions : (((B.map Prod.fst).zip batch).map Prod.fst).Nodup := by
    have := nodup_positioned hm.nodup_memory
    rw [show positioned s.roomLinkedChunk.plainChunks = A ++ B from hsplit, map_append] at this
    rw [hfst]
    exact (nodup_append.1 this).2.1
  have htake : ((((B.map Prod.fst).zip batch).map Prod.snd).map eventId).Nodup := by
    rw [hsnd]
    exact hn.sublist ((take_sublist _ _).map _)
  have hold : ∀ x ∈ (B.map Prod.fst).zip batch, ∃ old, (x.1, old) ∈ s.roomLinkedChunk.events ∧
      eventId x.2 = eventId old := by
    intro x hx
    obtain ⟨old, hold, hid⟩ := hzip x hx
    exact ⟨old, hB _ hold, hid⟩
  obtain ⟨chunk, hchunk, hm', hels, hkeep⟩ := hm.replaceInPlace h.distinct_memory hold hpositions htake
  rw [hsnd] at hels
  rw [hfst] at hkeep
  have hU : (elements U).map (renew (batch.take B.length)) = elements U := by
    refine map_renew_self fun i hi hi' => ?_
    rw [← hids] at hi'
    obtain ⟨x, hx, rfl⟩ := mem_map.1 hi'
    have hd := h.distinct
    rw [elements_append] at hd
    exact hd.disjoint hi (mem_eventIds (mem_elements_of_mem_positioned (hB x hx)))
  have hflat : elements (U ++ chunk.plainChunks) =
    (elements (U ++ s.memory)).map (renew (batch.take B.length)) := by
    rw [elements_append, elements_append, map_append, hels, hU]
  refine ⟨chunk, hchunk, ⟨⟨M, hM, hm'⟩, ?_⟩, hflat, hels, hkeep⟩
  rw [hflat]
  exact h.distinct.map keepsIds_renew

lemma Sound.pushSynced (hcap : 0 < cap) (h : s.Sound cap U) (gap : Option Gap) (events : List Event)
    (hd : Distinct (elements (U ++ s.memory) ++ gap.toList.map .gap ++ events.map .item)) :
    Yields (.fault .noMoreIdentifiers) (fun s' => s'.Sound cap U ∧ s'.Settled ∧
        elements s'.memory = elements s.memory ++ gap.toList.map .gap ++ events.map .item)
      (lift (s.roomLinkedChunk.pushLiveEvents cap gap events) >>= fun chunk =>
        RoomEventCacheState.propagateChanges { s with roomLinkedChunk := chunk }) := by
  obtain ⟨M, hM, hm⟩ := h.held
  refine (hm.pushLiveEvents hcap gap events).mapError.bind ?_
  rintro chunk ⟨hm', hels⟩
  have hsound : Sound cap U ⟨chunk, s.store⟩ := by
    refine ⟨⟨M, hM, hm'⟩, ?_⟩
    rw [show memory _ = chunk.plainChunks from rfl, elements_append, hels]
    simpa [elements_append] using hd
  obtain ⟨s', hs', hsound', hsettled, hmemory⟩ := hsound.propagateChanges
  exact .inl ⟨s', hs', hsound', hsettled, by rw [hmemory]; exact hels⟩

/-- **The batch is put in**, if its duplicates are found. -/
theorem Sound.insertSynced (hcap : 0 < cap) (h : s.Sound cap U)
    {store : List (PlainChunk Event Gap)} {events : List Event}
    (hfound : Finds (U ++ s.memory) ((retainNew [] events).map eventId)
      (filter store ((retainNew [] events).filterMap eventId))) (gap : Option Gap) :
    Yields (.fault .noMoreIdentifiers) (fun s' => ∃ U' k, s'.Sound cap U' ∧ s'.Settled ∧
        s.InPlace (retainNew [] events) gap k ∧
        elements s'.memory = synced k gap (retainNew [] events) (elements s.memory) ∧
        elements (U' ++ s'.memory) = synced k gap (retainNew [] events) (elements (U ++ s.memory)))
      (s.insertSynced cap (filterDuplicateEvents ownUserId filter store s.roomLinkedChunk events) gap) := by
  set batch := retainNew [] events with hbatch
  obtain ⟨hnone, hnodup, -⟩ := retainNew_distinct [] events
  rw [← hbatch] at hnone hnodup
  obtain ⟨hmem, hstore⟩ := hfound.split h.nodup
  obtain ⟨A, B, hsplit, htail, hids, hinPlace⟩ := s.exists_inPlace hnone gap
  obtain ⟨chunk, hchunk, hsound₁, hflat₁, hmemory₁, hkeep⟩ := h.replaceTail hsplit hids hnodup
  set inMemory := ((filter store (batch.filterMap eventId)).filter
    fun x => x.2.chunkIdentifier ∈ ids s.memory).filter fun x => x.2 ∉ B.map Prod.fst
  set inStore := (filter store (batch.filterMap eventId)).filter fun x => x.2.chunkIdentifier ∉ ids s.memory
  have hnamed : Named chunk.plainChunks inMemory := by
    refine ⟨hmem.named.1.sublist (filter_sublist.map _), fun x hx => ?_⟩
    rw [mem_filter, decide_eq_true_eq] at hx
    obtain ⟨event, hp, hi⟩ := hmem.named.2 x hx.1
    exact ⟨event, hkeep _ hp hx.2, hi⟩
  obtain ⟨s₂, U₂, hs₂, hsound₂, hout, hels₂, -, -⟩ := hsound₁.removeEvents hnamed hstore.named
  have hd := h.distinct
  rw [elements_append] at hd
  -- what is taken out are the events of the batch after the tail
  have hU : elements U₂ = without ((batch.drop B.length).map eventId) (elements U) := by
    rw [hels₂]
    refine without_congr fun i hi => ?_
    rw [hstore.mem_names hd.left i hi, mem_take_or_drop B.length, or_iff_right]
    rw [← hids]
    intro hmem'
    obtain ⟨x, hx, rfl⟩ := mem_map.1 hmem'
    have hx' : x ∈ positioned s.memory := by
      rw [show positioned s.memory = A ++ B from hsplit]
      exact mem_append_right _ hx
    exact hd.disjoint hi (mem_eventIds (mem_elements_of_mem_positioned hx'))
  have hmemory₂ : elements s₂.memory =
      without ((batch.drop B.length).map eventId) ((elements s.memory).map (renew (batch.take B.length))) := by
    rw [hout.elements_eq, ← hmemory₁]
    refine without_congr fun i hi => ?_
    rw [show memory _ = chunk.plainChunks from rfl, hmemory₁, eventIds_map keepsIds_renew] at hi
    exact mem_names_iff h.nodup_memory hd.right hsplit hids hnodup hmem i hi
  have hflat₂ : elements (U₂ ++ s₂.memory) =
      without ((batch.drop B.length).map eventId) ((elements (U ++ s.memory)).map (renew (batch.take B.length))) := by
    rw [elements_append, hU, hmemory₂, ← without_append, ← hmemory₁, ← elements_append, hflat₁]
  have hrun : s.insertSynced cap (filterDuplicateEvents ownUserId filter store s.roomLinkedChunk events) gap =
      (lift (s₂.roomLinkedChunk.pushLiveEvents cap gap (batch.drop B.length)) >>= fun chunk =>
        RoomEventCacheState.propagateChanges { s₂ with roomLinkedChunk := chunk }) := by
    unfold RoomEventCacheState.insertSynced filterDuplicateEvents
    simp only [← hbatch, htail, hchunk, length_map]
    show (RoomEventCacheState.removeEvents cap ⟨chunk, s.store⟩ inMemory inStore >>= _) = _
    rw [hs₂]
    rfl
  rw [hrun]
  refine (hsound₂.pushSynced hcap gap _ ?_).mono ?_
  · rw [hflat₂]
    exact distinct_synced h.distinct hnone hnodup
  · rintro s' ⟨hsound', hsettled, hels'⟩
    refine ⟨U₂, B.length, hsound', hsettled, hinPlace, by rw [hels', hmemory₂]; rfl, ?_⟩
    rw [elements_append, hels', ← append_assoc, ← append_assoc, ← elements_append, hflat₂]
    rfl

lemma Like.insertSynced {g : RoomEventCacheState Event Gap} (h : Like s g)
    (outcome : DeduplicationOutcome Event EventId)
    (gap : Option Gap) : Sim Like (s.insertSynced cap outcome gap) (g.insertSynced cap outcome gap) := by
  unfold RoomEventCacheState.insertSynced
  rw [h.chunk]
  simp only
  cases hchunk : replaceInPlace cap g.roomLinkedChunk _ with
  | error e => exact .error _
  | ok chunk =>
    show Sim Like (RoomEventCacheState.removeEvents cap ⟨chunk, s.store⟩ _ _ >>= _)
      (RoomEventCacheState.removeEvents cap ⟨chunk, g.store⟩ _ _ >>= _)
    refine Sim.bind ((h.withChunk chunk).removeEvents cap _ _) fun s' g' h' => ?_
    rw [h'.chunk]
    exact h'.edit _

lemma idsOf_synced {k : ℕ} {gap : Option Gap} {batch : List Event} {A B : List (Element Event Gap)}
    (h : idsOf A = idsOf B) : idsOf (synced k gap batch A) = idsOf (synced k gap batch B) := by
  have hrenew : idsOf (A.map (renew (batch.take k))) = idsOf (B.map (renew (batch.take k))) := by
    rw [idsOf_map keepsIds_renew, idsOf_map keepsIds_renew, h]
  rw [synced, synced, idsOf_append, idsOf_append, idsOf_without _ hrenew, ← idsOf_append, ← idsOf_append]

/-- **The batch is put in**, in the store up to versions. -/
theorem Tracked.insertSynced (hcap : 0 < cap) (h : s.Tracked cap U) (hs : s.AtRest) (hfilter : filter.Exact)
    (events : List Event) (gap : Option Gap) :
    Yields (.fault .noMoreIdentifiers) (fun s' => ∃ U' k, s'.Tracked cap U' ∧ s'.Settled ∧
        s.InPlace (retainNew [] events) gap k ∧
        elements s'.memory = synced k gap (retainNew [] events) (elements s.memory) ∧
        idsOf (elements s'.store) = idsOf (synced k gap (retainNew [] events) (elements s.store)) ∧
        (s.Current → elements s'.store = synced k gap (retainNew [] events) (elements s.store)))
      (s.insertSynced cap (filterDuplicateEvents ownUserId filter s.store s.roomLinkedChunk events) gap) := by
  by_cases hc : s.Current
  · obtain ⟨V, hsound⟩ := h.sound_of_current hs hc
    refine (hsound.insertSynced hcap (hsound.tracked.findsOf hs hfilter _) gap).mono ?_
    rintro s' ⟨U', k, hsound', hsettled, hk, hmemory, hels⟩
    rw [← hsound'.store_eq hsettled, ← (hsound.store_elements hs).1] at hels
    exact ⟨U', k, hsound'.tracked, hsettled, hk, hmemory, by rw [hels], fun _ => hels⟩
  · have hfound := h.findsOf hs hfilter (retainNew [] events)
    have hids := h.idsOf_store hs
    obtain ⟨g, hlike, hsound⟩ := h
    rw [hlike.memory] at hfound hids
    rw [hlike.chunk]
    refine ((hsound.insertSynced hcap hfound gap).of_sim (hlike.insertSynced _ gap)).mono ?_
    rintro s' ⟨g', hlike', U', k, hsound', hsettled, hk, hmemory, hels⟩
    refine ⟨U', k, ⟨g', hlike', hsound'⟩, hlike'.settled.2 hsettled, ?_, ?_, ?_, fun hcur => absurd hcur hc⟩
    · rwa [InPlace, hlike.chunk]
    · rwa [hlike'.memory, hlike.memory]
    · rw [hlike'.store.elements_eq, hsound'.store_eq hsettled, hels]
      exact idsOf_synced hids.symm

/-- What a sync does once it knows its gap: the batch is put in, its redactions are applied, and the
chunks but the last one may be unloaded. -/
def syncWith (cap : ℕ) (ownUserId : UserId) (filter : DuplicateFilter Event EventId Gap)
    (s : RoomEventCacheState Event Gap) (events : List Event) (gap : Option Gap) (shrinks : Bool) :
    Except EventCacheError (RoomEventCacheState Event Gap) := do
  let outcome := filterDuplicateEvents ownUserId filter s.store s.roomLinkedChunk events
  let s ← s.insertSynced cap outcome gap
  let s ← s.postProcessUpsertedEvents cap outcome.allEvents
  if shrinks then s.shrinkToLastReloadedChunk cap else pure s

/-- What a sync leaves of the store: the batch is put in, up to versions that the store had before
and memory had not, and then its redactions and bundled events are applied. -/
def Synced (s : RoomEventCacheState Event Gap) (gap : Option Gap) (batch : List Event)
    (els : List (Element Event Gap)) : Prop :=
  ∃ k put, s.InPlace batch gap k ∧ idsOf put = idsOf (synced k gap batch (elements s.store)) ∧
    (s.Current → put = synced k gap batch (elements s.store)) ∧
    els = (batch.foldl postProcess (put, synced k gap batch (elements s.memory))).1

/-- **The batch is put in, its redactions are applied, and what it bundles is saved.** -/
theorem Tracked.syncWith (hcap : 0 < cap) (h : s.Tracked cap U) (hs : s.AtRest) (hfilter : filter.Exact)
    (events : List Event) (gap : Option Gap) (shrinks : Bool) :
    Yields (.fault .noMoreIdentifiers) (fun s' => ∃ U', s'.Tracked cap U' ∧ s'.AtRest ∧
        s.Synced gap (retainNew [] events) (elements s'.store))
      (s.syncWith cap ownUserId filter events gap shrinks) := by
  refine (h.insertSynced hcap hs hfilter events gap).bind ?_
  rintro s₁ ⟨U₁, k, htracked₁, hsettled₁, hinPlace, hmemory₁, hids₁, hstore₁⟩
  obtain ⟨s₂, hs₂, htracked₂, hsettled₂, hels₂⟩ :=
    htracked₁.postProcessUpsertedEvents hsettled₁ (retainNew [] events)
  have hsynced : s.Synced gap (retainNew [] events) (elements s₂.store) :=
    ⟨k, elements s₁.store, hinPlace, hids₁, hstore₁, by rw [← hmemory₁, ← hels₂]⟩
  refine Yields.bind (P := fun y => y = s₂) (.inl ⟨s₂, hs₂, rfl⟩) ?_
  rintro _ rfl
  cases shrinks with
  | true =>
    obtain ⟨s₃, U₃, hs₃, htracked₃, hsettled₃, hstore₃⟩ :=
      htracked₂.shrinkToLastReloadedChunk (.inl hsettled₂)
    exact .inl ⟨s₃, hs₃, U₃, htracked₃, .inl hsettled₃, hstore₃ ▸ hsynced⟩
  | false => exact .ok ⟨U₁, htracked₂, .inl hsettled₂, hsynced⟩

/-- What is kept of the previous-batch token of a sync. -/
def keptToken (s : RoomEventCacheState Event Gap) (timeline : Timeline Event Gap) : Option Gap :=
  if !timeline.limited && !s.roomLinkedChunk.events.isEmpty then none else timeline.prevBatch

/-- All the events of the timeline are known, and it is left at that. -/
def allDuplicates (ownUserId : UserId) (filter : DuplicateFilter Event EventId Gap)
    (s : RoomEventCacheState Event Gap) (events : List Event) : Bool :=
  (filterDuplicateEvents ownUserId filter s.store s.roomLinkedChunk events).nonEmptyAllDuplicates

lemma handleSync_eq (ownUserId : UserId) (filter : DuplicateFilter Event EventId Gap)
    (s : RoomEventCacheState Event Gap) (timeline : Timeline Event Gap) :
    s.handleSync cap ownUserId filter timeline =
      if s.touch.allDuplicates ownUserId filter timeline.events then .ok (false, s.touch)
      else (s.touch.syncWith cap ownUserId filter timeline.events (s.touch.keptToken timeline)
        (timeline.limited && (s.touch.keptToken timeline).isSome)).map (Prod.mk (s.touch.keptToken timeline).isSome) := by
  unfold RoomEventCacheState.handleSync
  cases hdup : s.touch.allDuplicates ownUserId filter timeline.events with
  | true =>
    unfold allDuplicates at hdup
    simp only [hdup, if_true]
    rfl
  | false =>
    unfold allDuplicates at hdup
    have hkept : (if (!timeline.limited && !s.touch.roomLinkedChunk.events.isEmpty) = true then none
        else timeline.prevBatch) = s.touch.keptToken timeline := rfl
    simp only [hdup, Bool.or_false, Bool.false_eq_true, if_false, hkept, RoomEventCacheState.syncWith]
    cases s.touch.insertSynced cap (filterDuplicateEvents ownUserId filter s.touch.store s.touch.roomLinkedChunk
      timeline.events) (s.touch.keptToken timeline) with
    | error e => rfl
    | ok s₁ =>
      show (s₁.postProcessUpsertedEvents cap _ >>= _) =
        Except.map _ (s₁.postProcessUpsertedEvents cap _ >>= _)
      cases s₁.postProcessUpsertedEvents cap (filterDuplicateEvents ownUserId filter s.touch.store
          s.touch.roomLinkedChunk timeline.events).allEvents with
      | error e => rfl
      | ok s₂ =>
        split
        · cases s₂.shrinkToLastReloadedChunk cap <;> rfl
        · rfl

/-- **A sync does what it is to do**, and keeps the invariant. -/
theorem Tracked.handleSync (hcap : 0 < cap) (h : s.Tracked cap U) (hs : s.AtRest) (hfilter : filter.Exact)
    (timeline : Timeline Event Gap) :
    Yields (.fault .noMoreIdentifiers) (fun y => ∃ U', y.2.Tracked cap U' ∧ y.2.AtRest ∧
        if s.touch.allDuplicates ownUserId filter timeline.events then elements y.2.store = elements s.store
        else s.touch.Synced (s.touch.keptToken timeline) (retainNew [] timeline.events) (elements y.2.store))
      (s.handleSync cap ownUserId filter timeline) := by
  have ht := h.touch
  have hrest := h.atRest_touch hs
  rw [handleSync_eq]
  split
  · exact .ok ⟨U, ht, hrest, rfl⟩
  · exact Yields.map (ht.syncWith hcap hrest hfilter timeline.events _ _)

end RoomEventCacheState

end HaranaMatrix.EventCache
