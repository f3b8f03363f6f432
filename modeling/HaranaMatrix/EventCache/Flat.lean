import HaranaMatrix.EventCache.EventLinkedChunk

/-!
# A room as one flat sequence

What a sync, a back-pagination and a redaction are to do, on the flat sequence of the events and the
gaps of a room. Here an event is named by its identifier; the cache names it by its position. -/

set_option linter.unusedSectionVars false

namespace HaranaMatrix.EventCache

open Linked RoomEvent List

variable {Event EventId UserId Gap : Type} [RoomEvent Event EventId UserId] [DecidableEq EventId]

/-! ## Identifiers -/

variable (els : List (Element Event Gap))

/-- The events of a sequence. -/
def eventsOf : List Event :=
  els.filterMap fun
    | .item event => some event
    | .gap _ => none

/-- The identifiers of the events of a sequence. -/
def eventIds : List (Option EventId) := (eventsOf els).map eventId

/-- Every event has an identifier, and no two have the same. -/
def Distinct : Prop := none ∉ eventIds els ∧ (eventIds els).Nodup

section Identifiers

variable {els els' A B : List (Element Event Gap)} {event : Event} {i : Option EventId}

@[simp] lemma eventsOf_nil : eventsOf ([] : List (Element Event Gap)) = [] := rfl
@[simp] lemma eventsOf_item : eventsOf (.item event :: els) = event :: eventsOf els := rfl
@[simp] lemma eventsOf_gap (gap : Gap) : eventsOf (.gap gap :: els) = eventsOf els := rfl
@[simp] lemma eventsOf_append : eventsOf (A ++ B) = eventsOf A ++ eventsOf B := filterMap_append
@[simp] lemma eventsOf_map_item (events : List Event) :
    eventsOf (events.map (.item : Event → Element Event Gap)) = events := by
  simp [eventsOf, filterMap_map]

@[simp] lemma eventIds_nil : eventIds ([] : List (Element Event Gap)) = [] := rfl
@[simp] lemma eventIds_item : eventIds (.item event :: els) = eventId event :: eventIds els := rfl
@[simp] lemma eventIds_gap (gap : Gap) : eventIds (.gap gap :: els) = eventIds els := rfl
@[simp] lemma eventIds_append : eventIds (A ++ B) = eventIds A ++ eventIds B := by simp [eventIds]
@[simp] lemma eventIds_map_item (events : List Event) :
    eventIds (events.map (.item : Event → Element Event Gap)) = events.map eventId := by simp [eventIds]
@[simp] lemma eventIds_gaps (gap : Option Gap) :
    eventIds (gap.toList.map (.gap : Gap → Element Event Gap)) = [] := by cases gap <;> rfl

lemma mem_eventIds (h : .item event ∈ els) : eventId event ∈ eventIds els :=
  mem_map_of_mem (mem_filterMap.2 ⟨_, h, rfl⟩)

lemma mem_eventIds_iff : i ∈ eventIds els ↔ ∃ event, .item event ∈ els ∧ eventId event = i := by
  refine ⟨fun h => ?_, fun ⟨event, h, hi⟩ => hi ▸ mem_eventIds h⟩
  obtain ⟨event, hevent, rfl⟩ := mem_map.1 h
  obtain ⟨el, hmem, hel⟩ := mem_filterMap.1 hevent
  cases el with
  | gap gap => cases hel
  | item event' =>
    cases hel
    exact ⟨event, hmem, rfl⟩

lemma Distinct.sublist (h : Distinct els) (hs : els'.Sublist els) : Distinct els' :=
  have hids := (hs.filterMap _).map eventId
  ⟨fun hmem => h.1 (hids.subset hmem), h.2.sublist hids⟩

lemma Distinct.left (h : Distinct (A ++ B)) : Distinct A := h.sublist (sublist_append_left A B)
lemma Distinct.right (h : Distinct (A ++ B)) : Distinct B := h.sublist (sublist_append_right A B)

lemma Distinct.disjoint (h : Distinct (A ++ B)) (hi : i ∈ eventIds A) : i ∉ eventIds B := by
  have hn := h.2
  rw [eventIds_append] at hn
  exact fun hi' => (nodup_append.1 hn).2.2 i hi i hi' rfl

end Identifiers

/-! ## Taking events out, and replacing them -/

/-- The sequence without the events with these identifiers. -/
def without (names : List (Option EventId)) (els : List (Element Event Gap)) : List (Element Event Gap) :=
  els.filter fun
    | .item event => decide (eventId event ∉ names)
    | .gap _ => true

/-- The event with the identifier of one of `events` is replaced by that one. -/
def renew (events : List Event) : Element Event Gap → Element Event Gap
  | .item old => .item ((events.find? fun event => eventId event = eventId old).getD old)
  | .gap gap => .gap gap

/-- The version of an event that is redacted: the one in memory, if it is there. -/
def version (stored loaded : List (Element Event Gap)) (id : EventId) : Option Event :=
  ((eventsOf loaded).reverse.find? fun event => eventId event = some id).or
    ((eventsOf stored).find? fun event => eventId event = some id)

/-- The redacted form of the target of an event, if it redacts one. -/
def redaction (stored loaded : List (Element Event Gap)) (event : Event) : Option Event :=
  (redactionTarget event).bind fun id => (version stored loaded id).bind fun target => redacted target event

/-- **What is to be done after an event was put in**: its target is redacted, in the store and in
memory, and the latest event of its thread, which it bundles, is renewed in the store. -/
def postProcess (x : List (Element Event Gap) × List (Element Event Gap)) (event : Event) :
    List (Element Event Gap) × List (Element Event Gap) :=
  let redactedEvent := (redaction x.1 x.2 event).toList
  ((x.1.map (renew redactedEvent)).map (renew (bundledLatestThreadEvent event).toList),
    x.2.map (renew redactedEvent))

section Edits

variable {els A B : List (Element Event Gap)} {event : Event} {events : List Event}
  {names names' : List (Option EventId)}

@[simp] lemma without_nil : without names ([] : List (Element Event Gap)) = [] := rfl
@[simp] lemma without_gap (gap : Gap) : without names (.gap gap :: els) = .gap gap :: without names els := rfl
@[simp] lemma without_append : without names (A ++ B) = without names A ++ without names B :=
  filter_append ..

lemma without_item : without names (.item event :: els) =
    if eventId event ∈ names then without names els else .item event :: without names els := by
  by_cases h : eventId event ∈ names <;> simp [without, h]

lemma without_congr (h : ∀ i ∈ eventIds els, i ∈ names ↔ i ∈ names') :
    without names els = without names' els := by
  refine filter_congr fun el hel => ?_
  cases el with
  | gap gap => rfl
  | item event => exact decide_eq_decide.2 (not_congr (h _ (mem_eventIds hel)))

lemma without_names_nil : without [] els = els := by
  refine filter_eq_self.2 fun el _ => ?_
  cases el <;> simp

lemma without_self (h : ∀ i ∈ eventIds els, i ∉ names) : without names els = els :=
  (without_congr fun i hi => by simp [h i hi]).trans without_names_nil

lemma mem_without {event : Event} : .item event ∈ without names els ↔
    .item event ∈ els ∧ eventId event ∉ names := by
  simp [without]

lemma mem_eventIds_without {i : Option EventId} :
    i ∈ eventIds (without names els) ↔ i ∈ eventIds els ∧ i ∉ names := by
  simp only [mem_eventIds_iff, mem_without]
  constructor
  · rintro ⟨event, ⟨h, hn⟩, rfl⟩
    exact ⟨⟨event, h, rfl⟩, hn⟩
  · rintro ⟨⟨event, h, rfl⟩, hn⟩
    exact ⟨event, ⟨h, hn⟩, rfl⟩

lemma Distinct.without (h : Distinct els) : Distinct (without names els) := h.sublist filter_sublist

/-- A map of elements that keeps gaps and identifiers. -/
def KeepsIds (f : Element Event Gap → Element Event Gap) : Prop :=
  (∀ gap, f (.gap gap) = .gap gap) ∧ ∀ event, ∃ event', f (.item event) = .item event' ∧
    eventId event' = eventId event

lemma keepsIds_renew : KeepsIds (renew events : Element Event Gap → Element Event Gap) := by
  refine ⟨fun _ => rfl, fun old => ⟨_, rfl, ?_⟩⟩
  cases h : events.find? fun event => eventId event = eventId old with
  | none => rfl
  | some event => simpa using List.find?_some h

variable {f : Element Event Gap → Element Event Gap}

lemma eventIds_map (hf : KeepsIds f) : eventIds (els.map f) = eventIds els := by
  induction els with
  | nil => rfl
  | cons el els ih =>
    cases el with
    | gap gap => simpa [hf.1] using ih
    | item event =>
      obtain ⟨event', he, hi⟩ := hf.2 event
      simp [he, hi, ih]

lemma Distinct.map (h : Distinct els) (hf : KeepsIds f) : Distinct (els.map f) := by
  rwa [Distinct, eventIds_map hf]

lemma without_map (hf : KeepsIds f) : without names (els.map f) = (without names els).map f := by
  induction els with
  | nil => rfl
  | cons el els ih =>
    cases el with
    | gap gap => simp [hf.1, ih]
    | item event =>
      obtain ⟨event', he, hi⟩ := hf.2 event
      by_cases h : eventId event ∈ names <;> simp [without_item, he, hi, h, ih]

lemma find?_eventId_none {i : Option EventId} (h : i ∉ events.map eventId) :
    events.find? (fun event => decide (eventId event = i)) = none := by
  refine List.find?_eq_none.2 fun event he => ?_
  rw [decide_eq_true_eq]
  rintro rfl
  exact h (mem_map_of_mem he)

lemma map_renew_self (h : ∀ i ∈ eventIds els, i ∉ events.map eventId) : els.map (renew events) = els := by
  conv_rhs => rw [← map_id els]
  refine map_congr_left fun el hel => ?_
  cases el with
  | gap gap => rfl
  | item old => simp [renew, find?_eventId_none (h _ (mem_eventIds hel))]

lemma map_renew_cons (h : eventId event ∉ events.map eventId) :
    els.map (renew (event :: events)) = (els.map (renew [event])).map (renew events) := by
  rw [map_map]
  refine map_congr_left fun el _ => ?_
  cases el with
  | gap gap => rfl
  | item old =>
    by_cases heq : eventId event = eventId old
    · rw [heq] at h
      simp [renew, heq, find?_eventId_none h]
    · simp [renew, heq]

lemma eventsOf_map_renew (h : eventIds els = events.map eventId) (hn : (events.map eventId).Nodup) :
    eventsOf (els.map (renew events)) = events := by
  induction els generalizing events with
  | nil => simpa using h
  | cons el els ih =>
    cases el with
    | gap gap => simpa [renew] using ih h hn
    | item old =>
      cases events with
      | nil => simp at h
      | cons event events =>
        simp only [eventIds_item, map_cons, List.cons.injEq] at h
        rw [map_cons, nodup_cons] at hn
        have hself : (renew [event] (.item old) : Element Event Gap) = .item event := by simp [renew, h.1]
        have hnot : (renew events (.item event) : Element Event Gap) = .item event := by
          have : ([.item event] : List (Element Event Gap)).map (renew events) = [.item event] :=
            map_renew_self (by simpa using hn.1)
          simpa using this
        have hrest : els.map (renew [event]) = els :=
          map_renew_self fun i hi hmem => by
            rw [map_singleton, mem_singleton] at hmem
            rw [h.2, hmem] at hi
            exact hn.1 hi
        rw [map_renew_cons hn.1, map_cons, map_cons, hself, hnot, hrest, eventsOf_item, ih h.2 hn.2]

/-! An event is known by its identifier, and by where it stands. -/

lemma mem_eventsOf : event ∈ eventsOf els ↔ .item event ∈ els := by
  rw [eventsOf, mem_filterMap]
  constructor
  · rintro ⟨el, hmem, hel⟩
    cases el <;> simp_all
  · exact fun h => ⟨_, h, rfl⟩

lemma Distinct.eq_of_eventId (h : Distinct els) {event' : Event} (he : .item event ∈ els)
    (he' : .item event' ∈ els) (heq : eventId event = eventId event') : event = event' :=
  inj_on_of_nodup_map h.2 (mem_eventsOf.2 he) (mem_eventsOf.2 he') heq

lemma Distinct.cut (h : Distinct (A ++ .item event :: B)) :
    eventId event ∉ eventIds A ∧ eventId event ∉ eventIds B := by
  have hn := h.2
  rw [eventIds_append, eventIds_item, nodup_middle, nodup_cons, mem_append, not_or] at hn
  exact hn.1

lemma map_renew_cut {new : Event} (h : Distinct (A ++ .item event :: B)) (hid : eventId new = eventId event) :
    (A ++ .item event :: B).map (renew [new]) = A ++ .item new :: B := by
  have hkeep : ∀ C : List (Element Event Gap), eventId event ∉ eventIds C → C.map (renew [new]) = C := by
    intro C hC
    refine map_renew_self fun i hi hmem => hC ?_
    rw [map_singleton, mem_singleton, hid] at hmem
    rwa [← hmem]
  rw [map_append, map_cons, hkeep A h.cut.1, hkeep B h.cut.2]
  simp [renew, hid]

end Edits

/-! ## Syncs and paginations -/

/-- **What a sync is to do** when its first `k` events stay where they are: the other ones are taken
out and put at the end, after the new gap. -/
def synced (k : ℕ) (gap : Option Gap) (batch : List Event) (els : List (Element Event Gap)) :
    List (Element Event Gap) :=
  without ((batch.drop k).map eventId) (els.map (renew (batch.take k))) ++ gap.toList.map .gap ++ (batch.drop k).map .item

/-- The batch is put at the end, after the new gap. -/
def appended (gap : Option Gap) (batch : List Event) (els : List (Element Event Gap)) :
    List (Element Event Gap) :=
  without (batch.map eventId) els ++ gap.toList.map .gap ++ batch.map .item

section Synced

variable {A K : List (Element Event Gap)} {k : ℕ} {gap : Option Gap} {batch : List Event}

lemma synced_zero (els : List (Element Event Gap)) : synced 0 gap batch els = appended gap batch els := by
  have : els.map (renew ([] : List Event)) = els := map_renew_self (by simp)
  simp [synced, appended, this]

lemma distinct_synced {els : List (Element Event Gap)} (h : Distinct els) (hnone : none ∉ batch.map eventId)
    (hn : (batch.map eventId).Nodup) : Distinct (synced k gap batch els) := by
  have hdrop : ((batch.drop k).map eventId).Sublist (batch.map eventId) := (drop_sublist k batch).map _
  have hids : eventIds (synced k gap batch els) =
      eventIds (without ((batch.drop k).map eventId) (els.map (renew (batch.take k)))) ++ (batch.drop k).map eventId := by
    rw [synced, eventIds_append, eventIds_append, eventIds_gaps, eventIds_map_item, append_nil]
  have hkeep : Distinct (without ((batch.drop k).map eventId) (els.map (renew (batch.take k)))) :=
    (h.map keepsIds_renew).without
  rw [Distinct, hids]
  refine ⟨?_, nodup_append.2 ⟨hkeep.2, hn.sublist hdrop, ?_⟩⟩
  · rw [mem_append, not_or]
    exact ⟨hkeep.1, fun hmem => hnone (hdrop.subset hmem)⟩
  · rintro i hi _ hi' rfl
    exact (mem_eventIds_without.1 hi).2 hi'

section Split

variable (h : Distinct (A ++ K)) (hn : (batch.map eventId).Nodup)
  (hK : eventIds K = (batch.take k).map eventId)
include h hn hK

lemma synced_split :
    synced k gap batch (A ++ K) = without (batch.map eventId) A ++ K.map (renew (batch.take k)) ++
      gap.toList.map .gap ++ (batch.drop k).map .item := by
  have hsplit : batch.map eventId = (batch.take k).map eventId ++ (batch.drop k).map eventId := by
    rw [← map_append, take_append_drop]
  have hA : ∀ i ∈ eventIds A, i ∉ (batch.take k).map eventId := fun i hi => hK ▸ h.disjoint hi
  have hKdrop : ∀ i ∈ eventIds K, i ∉ (batch.drop k).map eventId := by
    rw [hsplit] at hn
    intro i hi
    rw [hK] at hi
    exact fun hi' => (nodup_append.1 hn).2.2 i hi i hi' rfl
  have hwA : without ((batch.drop k).map eventId) A = without (batch.map eventId) A :=
    without_congr fun i hi => by rw [hsplit, mem_append, or_iff_right (hA i hi)]
  rw [synced, map_append, without_append, map_renew_self hA, hwA, without_map keepsIds_renew,
    without_self hKdrop]

/-- **Gaps aside, the batch is put at the end.** -/
lemma eventsOf_synced :
    eventsOf (synced k gap batch (A ++ K)) = eventsOf (without (batch.map eventId) (A ++ K)) ++ batch := by
  have htake : ((batch.take k).map eventId).Nodup := hn.sublist ((take_sublist k batch).map _)
  have hout : eventsOf (without (batch.map eventId) K) = [] := by
    rw [eq_nil_iff_forall_not_mem]
    intro event he
    have hi : eventId event ∈ eventIds (without (batch.map eventId) K) := mem_map_of_mem he
    rw [mem_eventIds_without, hK] at hi
    exact hi.2 ((take_sublist k batch).map _ |>.subset hi.1)
  have hgap : eventsOf (gap.toList.map (.gap : Gap → Element Event Gap)) = [] := by cases gap <;> rfl
  simp only [synced_split h hn hK, eventsOf_append, without_append, hout, eventsOf_map_renew hK htake, hgap,
    eventsOf_map_item, append_nil, nil_append, append_assoc, take_append_drop]

/-- **With no gap after the first of the events that stay in place, the batch is put at the
end.** -/
lemma synced_eq_appended (hitems : K = (eventsOf K).map .item) (hgap : gap = none ∨ k = 0) :
    synced k gap batch (A ++ K) = appended gap batch (A ++ K) := by
  rcases hgap with rfl | rfl
  · have htake : ((batch.take k).map eventId).Nodup := hn.sublist ((take_sublist k batch).map _)
    have hrenew : K.map (renew (batch.take k)) = (batch.take k).map .item := by
      have := eventsOf_map_renew hK htake
      rw [hitems] at this ⊢
      have hmap : ∀ events : List Event, (events.map (.item : Event →
        Element Event Gap)).map (renew (batch.take k)) =
          (eventsOf ((events.map (.item : Event →
            Element Event Gap)).map (renew (batch.take k)))).map .item := by
        intro events
        induction events with
        | nil => rfl
        | cons e events ih => simpa [renew, eventsOf_item] using ih
      rw [hmap, this]
    have hout : without (batch.map eventId) K = [] := by
      refine filter_eq_nil_iff.2 fun el hel => ?_
      rw [hitems] at hel
      obtain ⟨event, he, rfl⟩ := mem_map.1 hel
      have hi : eventId event ∈ eventIds K := mem_map_of_mem he
      rw [hK] at hi
      simpa using ((take_sublist k batch).map _).subset hi
    rw [synced_split h hn hK, appended, without_append, hrenew, hout]
    simp
  · exact synced_zero _

end Split

/-- **What a back-pagination is to do** between `before` and `after`: its events, the latest one
first, are taken out and put there, after the new gap. -/
def paginated (gap : Option Gap) (batch : List Event) (before after : List (Element Event Gap)) :
    List (Element Event Gap) :=
  without (batch.map eventId) before ++ gap.toList.map .gap ++
    (batch.reverse.map .item ++ without (batch.map eventId) after)

lemma distinct_paginated {before after : List (Element Event Gap)} (h : Distinct (before ++ after))
    (hnone : none ∉ batch.map eventId) (hn : (batch.map eventId).Nodup) (gap : Option Gap) :
    Distinct (paginated gap batch before after) := by
  have hids : eventIds (paginated gap batch before after) = eventIds (without (batch.map eventId) before) ++
      ((batch.map eventId).reverse ++ eventIds (without (batch.map eventId) after)) := by
    rw [paginated, eventIds_append, eventIds_append, eventIds_append, eventIds_gaps, eventIds_map_item,
      append_nil, map_reverse]
  have hperm : (eventIds (paginated gap batch before after)).Perm
      (eventIds (without (batch.map eventId) (before ++ after)) ++ batch.map eventId) := by
    rw [hids, without_append, eventIds_append, append_assoc]
    refine List.Perm.append_left _ ((reverse_perm _).append_right _ |>.trans perm_append_comm)
  have hkeep : Distinct (without (batch.map eventId) (before ++ after)) := h.without
  refine ⟨fun hmem => ?_, hperm.nodup_iff.2 (nodup_append.2 ⟨hkeep.2, hn, ?_⟩)⟩
  · rcases mem_append.1 (hperm.mem_iff.1 hmem) with hmem | hmem
    · exact hkeep.1 hmem
    · exact hnone hmem
  · rintro i hi _ hi' rfl
    exact (mem_eventIds_without.1 hi).2 hi'

end Synced

end HaranaMatrix.EventCache
