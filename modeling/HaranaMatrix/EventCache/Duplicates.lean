import HaranaMatrix.EventCache.Sound

/-!
# Duplicated events

The deduplicator asks the store for the positions of the events of a batch. If the store answers
exactly, the events it names are where it says, in memory or not, and they are all the events of the
room that are in the batch. The common tail are the last events in memory that are the first ones of
the batch. -/

set_option linter.unusedSectionVars false

namespace HaranaMatrix.EventCache

open Linked RoomEvent List EventLinkedChunk

variable {Event EventId UserId Gap : Type} [RoomEvent Event EventId UserId] [DecidableEq EventId]
  [DecidableEq UserId]

/-! ## A batch -/

lemma retainNew_distinct (seen : List EventId) (events : List Event) :
    none ∉ (retainNew seen events).map eventId ∧ ((retainNew seen events).map eventId).Nodup ∧
      ∀ i ∈ seen, some i ∉ (retainNew seen events).map eventId := by
  induction events generalizing seen with
  | nil => simp [retainNew]
  | cons event events ih =>
    rw [retainNew]
    split
    · exact ih seen
    · next i hi =>
      split
      · exact ih seen
      · next hnot =>
        obtain ⟨hnone, hnodup, hseen⟩ := ih (i :: seen)
        rw [map_cons, hi]
        refine ⟨by simpa using hnone, nodup_cons.2 ⟨hseen i (by simp), hnodup⟩, fun j hj => ?_⟩
        rw [mem_cons, not_or]
        exact ⟨fun heq => hnot (Option.some.inj heq ▸ hj), hseen j (by simp [hj])⟩

/-! ## What the store answers -/

/-- The events of the chunks with these identifiers, with their positions. -/
def entries (cs : List (PlainChunk Event Gap)) (names : List EventId) : List (EventId × Position) :=
  (positioned cs).filterMap fun x => (eventId x.2).bind fun i => if i ∈ names then some (i, x.1) else none

/-- The store gives exactly the linked events, with their current positions. -/
def DuplicateFilter.Exact (filter : DuplicateFilter Event EventId Gap) : Prop :=
  ∀ cs names, (filter cs names).Perm (entries cs names)

section Entries

variable {cs : List (PlainChunk Event Gap)} {ns : List EventId} {i : EventId} {p q : Position}
  {event event' : Event}

lemma mem_entries : (i, p) ∈ entries cs ns ↔
    ∃ event, (p, event) ∈ positioned cs ∧ eventId event = some i ∧ i ∈ ns := by
  simp only [entries, mem_filterMap, Option.bind_eq_some_iff]
  constructor
  · rintro ⟨⟨q, event⟩, hmem, j, hj, heq⟩
    split at heq
    · next hn =>
      cases heq
      exact ⟨event, hmem, hj, hn⟩
    · cases heq
  · rintro ⟨event, hmem, hi, hn⟩
    exact ⟨(p, event), hmem, i, hi, if_pos hn⟩

lemma filterMap_positions (xs : List (Position × Event)) {f : Position × Event → Option (EventId × Position)}
    (hf : ∀ x y, f x = some y → y.2 = x.1) : ((xs.filterMap f).map Prod.snd).Sublist (xs.map Prod.fst) := by
  induction xs with
  | nil => exact .refl _
  | cons x xs ih =>
    rw [filterMap_cons]
    split
    · exact ih.cons _
    · next y hy =>
      rw [map_cons, map_cons, hf x y hy]
      exact ih.cons_cons _

lemma nodup_entries (hn : (ids cs).Nodup) : ((entries cs ns).map Prod.snd).Nodup := by
  refine (nodup_positioned hn).sublist (filterMap_positions _ fun x y hy => ?_)
  obtain ⟨j, -, heq⟩ := Option.bind_eq_some_iff.1 hy
  split at heq
  · cases heq
    rfl
  · cases heq

lemma position_unique (hd : Distinct (elements cs)) (h : (p, event) ∈ positioned cs)
    (h' : (q, event') ∈ positioned cs) (heq : eventId event = eventId event') : p = q := by
  have hn := hd.2
  rw [RoomEventCacheState.eventIds_elements] at hn
  exact congrArg Prod.fst (inj_on_of_nodup_map hn h h' heq)

end Entries

/-- These are the events of the chunks with the identifiers `ns`, all of them, with their
positions. -/
structure Finds (F : List (PlainChunk Event Gap)) (ns : List (Option EventId))
    (L : List (EventId × Position)) :
    Prop where
  named : RoomEventCacheState.Named F L
  mem : ∀ x ∈ L, some x.1 ∈ ns
  all : ∀ x ∈ positioned F, ∀ i, some i ∈ ns → eventId x.2 = some i → (i, x.1) ∈ L

section Finds

variable {F : List (PlainChunk Event Gap)} {ns ns' : List (Option EventId)} {L : List (EventId × Position)}

lemma Finds.congr (h : Finds F ns L) (hns : ∀ i : EventId, some i ∈ ns ↔ some i ∈ ns') : Finds F ns' L :=
  ⟨h.named, fun x hx => (hns _).1 (h.mem x hx), fun x hx i hi => h.all x hx i ((hns i).2 hi)⟩

lemma exists_eventId (hd : Distinct (elements F)) {x : Position × Event} (hx : x ∈ positioned F) :
    ∃ i, eventId x.2 = some i := by
  cases h : eventId x.2 with
  | none => exact absurd (h ▸ mem_eventIds (mem_elements_of_mem_positioned hx)) hd.1
  | some i => exact ⟨i, rfl⟩

lemma Finds.mem_names (h : Finds F ns L) (hd : Distinct (elements F)) :
    ∀ i ∈ eventIds (elements F), i ∈ RoomEventCacheState.names L ↔ i ∈ ns := by
  intro i hi
  constructor
  · intro hname
    obtain ⟨x, hx, rfl⟩ := mem_map.1 hname
    exact h.mem x hx
  · intro hn
    rw [RoomEventCacheState.eventIds_elements] at hi
    obtain ⟨x, hx, rfl⟩ := mem_map.1 hi
    obtain ⟨j, hj⟩ := exists_eventId hd hx
    exact mem_map.2 ⟨(j, x.1), h.all x hx j (hj ▸ hn) hj, hj.symm⟩

/-- **The duplicates are told apart.** -/
theorem Finds.split {U : List (PlainChunk Event Gap)} (h : Finds (U ++ F) ns L) (hn : (ids (U ++ F)).Nodup) :
    Finds F ns (L.filter fun x => x.2.chunkIdentifier ∈ ids F) ∧
      Finds U ns (L.filter fun x => x.2.chunkIdentifier ∉ ids F) := by
  obtain ⟨hmem, hstore⟩ := h.named.placed.split hn
  refine ⟨⟨hmem, fun x hx => h.mem x (mem_filter.1 hx).1, fun x hx i hi hid => ?_⟩,
    ⟨hstore, fun x hx => h.mem x (mem_filter.1 hx).1, fun x hx i hi hid => ?_⟩⟩
  · rw [mem_filter, decide_eq_true_eq]
    refine ⟨h.all x ?_ i hi hid, mem_positioned hx⟩
    rw [positioned_append, mem_append]
    exact .inr hx
  · rw [mem_filter, decide_eq_true_eq]
    refine ⟨h.all x ?_ i hi hid, fun hF => ?_⟩
    · rw [positioned_append, mem_append]
      exact .inl hx
    · rw [ids_append] at hn
      exact (nodup_append.1 hn).2.2 _ (mem_positioned hx) _ hF rfl

end Finds

/-- **The answer names the events of the chunks.** -/
theorem finds_of_perm {F : List (PlainChunk Event Gap)} (hn : (ids F).Nodup) {l : List EventId}
    {L : List (EventId × Position)} (hperm : L.Perm (entries F l)) : Finds F (l.map some) L := by
  refine ⟨⟨(hperm.map Prod.snd).nodup_iff.2 (nodup_entries hn), fun x hx => ?_⟩, fun x hx => ?_, ?_⟩
  · obtain ⟨event, hp, hi, -⟩ := mem_entries.1 (hperm.mem_iff.1 hx)
    exact ⟨event, hp, hi⟩
  · obtain ⟨event, -, -, hl⟩ := mem_entries.1 (hperm.mem_iff.1 hx)
    exact mem_map_of_mem hl
  · intro x hx i hi hid
    exact hperm.mem_iff.2 (mem_entries.2 ⟨x.2, hx, hid, by simpa using hi⟩)

/-! ## The common tail -/

/-- The last `k` events of `known` are the first ones of `batch`. -/
def Overlap (known batch : List Event) (k : ℕ) : Prop :=
  ∃ A B, known = A ++ B ∧ B.length = k ∧ B.map eventId = (batch.take k).map eventId

section CommonTail

variable {batch : List Event}

lemma zip_all_iff {known : List (Position × Option EventId)} (hlen : known.length ≤ batch.length) :
    ((known.zip batch).all fun y => y.1.2.isSome && decide (y.1.2 = eventId y.2)) = true ↔
      known.map Prod.snd = (batch.take known.length).map eventId ∧ none ∉ known.map Prod.snd := by
  induction known generalizing batch with
  | nil => simp
  | cons x known ih =>
    cases batch with
    | nil => simp at hlen
    | cons event batch =>
      rw [length_cons, length_cons, Nat.add_le_add_iff_right] at hlen
      simp only [zip_cons_cons, all_cons, Bool.and_eq_true, decide_eq_true_eq, ih hlen, map_cons,
        length_cons, take_succ_cons, List.cons.injEq, mem_cons, not_or]
      constructor
      · rintro ⟨⟨hsome, heq⟩, hrest, hnone⟩
        exact ⟨⟨heq, hrest⟩, fun hnil => by simp [← hnil] at hsome, hnone⟩
      · rintro ⟨⟨heq, hrest⟩, hne, hnone⟩
        exact ⟨⟨Option.isSome_iff_ne_none.2 (Ne.symm hne), heq⟩, hrest, hnone⟩

lemma findTail_spec {known : List (Position × Option EventId)} (hlen : known.length ≤ batch.length) :
    ∃ C, known = C ++ findTail batch known ∧
      (findTail batch known).map Prod.snd =
        (batch.take (findTail batch known).length).map eventId ∧
      ∀ C' D', known = C' ++ D' → D'.map Prod.snd = (batch.take D'.length).map eventId →
        none ∉ D'.map Prod.snd → D'.length ≤ (findTail batch known).length := by
  induction known with
  | nil =>
    refine ⟨[], rfl, rfl, fun C' D' h _ _ => ?_⟩
    simp [(append_eq_nil_iff.1 h.symm).2]
  | cons x known ih =>
    unfold findTail
    split
    · next hall =>
      refine ⟨[], rfl, ((zip_all_iff hlen).1 hall).1, fun C' D' h _ _ => ?_⟩
      rw [h, length_append]
      omega
    · next hall =>
      obtain ⟨C, hC, hids, hmax⟩ := ih (by rw [length_cons] at hlen; omega)
      refine ⟨x :: C, by rw [cons_append, ← hC], hids, fun C' D' h hD' hnone => ?_⟩
      cases C' with
      | nil =>
        rw [nil_append] at h
        rw [← h] at hD' hnone
        exact absurd ((zip_all_iff hlen).2 ⟨hD', hnone⟩) hall
      | cons y C' =>
        rw [cons_append, List.cons.injEq] at h
        exact hmax C' D' h.2 hD' hnone

/-- **The common tail is the longest one.** -/
theorem commonTailWith_spec (s : EventLinkedChunk Event Gap) (hnone : none ∉ batch.map eventId) :
    ∃ A B, s.events = A ++ B ∧ s.commonTailWith batch = B.map Prod.fst ∧
      B.map (fun x => eventId x.2) = (batch.take B.length).map eventId ∧
      ∀ k, Overlap (s.events.map Prod.snd) batch k → k ≤ B.length := by
  by_cases hnil : batch = []
  · refine ⟨s.events, [], by simp, by simp [commonTailWith, hnil], rfl, ?_⟩
    rintro k ⟨A, B, -, rfl, hB⟩
    have := congrArg List.length hB
    simpa [hnil] using this
  set m := s.events.length - batch.length with hm
  let f : Position × Event → Position × Option EventId := fun x => (x.1, eventId x.2)
  have hknown : ((s.events.reverse.take batch.length).map f).reverse = (s.events.drop m).map f := by
    rw [take_reverse, map_reverse, reverse_reverse]
  have hlen : ((s.events.drop m).map f).length ≤ batch.length := by
    rw [length_map, length_drop]
    omega
  obtain ⟨C, hC, hids, hmax⟩ := findTail_spec hlen
  obtain ⟨C₀, B, hdrop, -, hB⟩ := map_eq_append_iff.1 hC
  have hlength : B.length = (findTail batch ((s.events.drop m).map f)).length := by
    rw [← hB, length_map]
  refine ⟨s.events.take m ++ C₀, B, ?_, ?_, ?_, ?_⟩
  · rw [append_assoc, ← hdrop, take_append_drop]
  · have hempty : batch.isEmpty = false := by simpa using hnil
    rw [commonTailWith, if_neg (by simp [hempty])]
    show (findTail batch ((s.events.reverse.take batch.length).map f).reverse).map Prod.fst = _
    rw [hknown, ← hB, map_map]
    rfl
  · rw [← hB, map_map, length_map] at hids
    exact hids
  · rintro k ⟨A', B', hsplit, rfl, hB'⟩
    obtain ⟨A₁, B₁, hevents, rfl, rfl⟩ := map_eq_append_iff.1 hsplit
    rw [hlength]
    have hle : (B₁.map Prod.snd).length ≤ batch.length := by
      have := congrArg List.length hB'
      simp only [length_map, length_take] at this ⊢
      omega
    have hsuffix : s.events.drop m = A₁.drop m ++ B₁ := by
      rw [hevents, drop_append_of_le_length]
      rw [hm, hevents, length_append]
      rw [length_map] at hle
      omega
    have hD : (B₁.map f).map Prod.snd = (batch.take (B₁.map f).length).map eventId := by
      rw [map_map, length_map]
      rw [map_map, length_map] at hB'
      exact hB'
    have := hmax ((A₁.drop m).map f) (B₁.map f) (by rw [hsuffix, map_append]) hD ?_
    · simpa using this
    · rw [hD]
      exact fun h => hnone ((take_sublist _ batch).map _ |>.subset h)

end CommonTail

end HaranaMatrix.EventCache
