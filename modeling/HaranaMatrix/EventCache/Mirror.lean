import HaranaMatrix.EventCache.Flat
import HaranaMatrix.Linked.Positions

/-!
# Memory and store

The chunks in memory are the last chunks of the store, once the store has the updates on their way.
Every edit of the linked chunk keeps this, whatever the chunks that are not in memory hold. Events
are taken out and replaced by their positions; with distinct identifiers, that is by their
identifiers. -/

set_option linter.unusedSectionVars false

namespace HaranaMatrix.EventCache

open Linked RoomEvent List EventLinkedChunk

variable {Event EventId UserId Gap : Type} [RoomEvent Event EventId UserId] [DecidableEq EventId]

/-! ## The linked chunk and the store -/

/-- `U` are the stored chunks that are not in memory, and `M` are the other stored ones. The updates
on their way make the chunks in memory out of `M`. -/
structure Mirrors (cap : ℕ) (U M : List (PlainChunk Event Gap)) (s : EventLinkedChunk Event Gap) : Prop where
  ready : Ready none U s.chunks
  nodup : (ids (U ++ s.plainChunks)).Nodup
  capacity : ∀ c ∈ U ++ s.plainChunks, c.content.numItems ≤ cap
  pending : ∀ U', ids U' = ids U → Stored.applyUpdates (U' ++ M) s.updates = some (U' ++ s.plainChunks)

namespace Mirrors

variable {cap : ℕ} {U U' M : List (PlainChunk Event Gap)} {s : EventLinkedChunk Event Gap} {op : Op Event Gap}

section

variable (h : Mirrors cap U M s)
include h

lemma nodup_memory : (ids s.plainChunks).Nodup := by
  have := h.nodup
  rw [ids_append] at this
  exact (nodup_append.1 this).2.1

lemma nodup_unloaded : (ids U).Nodup := by
  have := h.nodup
  rw [ids_append] at this
  exact (nodup_append.1 this).1

lemma change_ids (hids : ids U' = ids U) : Ready none U' s.chunks ∧ (ids (U' ++ s.plainChunks)).Nodup := by
  refine ⟨⟨by rw [hids]; exact h.ready.lazy, ?_⟩, ?_⟩ <;> rw [ids_append, hids, ← ids_append]
  · exact h.ready.le
  · exact h.nodup

lemma change_unloaded (hids : ids U' = ids U) (hcap : ∀ c ∈ U', c.content.numItems ≤ cap) :
    Mirrors cap U' M s where
  ready := (h.change_ids hids).1
  nodup := (h.change_ids hids).2
  capacity := forall_mem_append.2 ⟨hcap, (forall_mem_append.1 h.capacity).2⟩
  pending := fun U'' hids' => h.pending U'' (hids'.trans hids)

/-- **An edit keeps memory and store together.** -/
theorem exec (hop : op.IsEdit) {y} (hs : s.exec cap op = .ok y) : Mirrors cap U M y.2 := by
  obtain ⟨z, hz, rfl⟩ := map_eq_ok hs
  have hemitted := step_emitted hop h.ready hz
  refine ⟨hemitted.ready h.ready, ?_, ?_, fun U' hids => ?_⟩
  · exact hemitted.steps.invariant (I := fun e => (ids e.chunks).Nodup) (fun _ _ _ hs => hs.nodup) h.nodup
  · exact hemitted.steps.invariant (I := fun e => ∀ c ∈ e.chunks, c.content.numItems ≤ cap)
      (fun _ _ _ hs => hs.le_cap) h.capacity
  · obtain ⟨hready, hnodup⟩ := h.change_ids hids
    rw [Stored.applyUpdates_append, h.pending U' hids]
    exact Stored.applyUpdates_steps (step_emitted hop hready hz).steps hnodup

lemma exec_of_step (op : Op Event Gap) (hop : op.IsEdit) {z} (hz : s.chunks.step cap op = .ok z) :
    ∃ s', s.exec cap op = .ok (z.1, s') ∧ Mirrors cap U M s' ∧ s'.plainChunks = plain z.2.1.chunks ∧
      s'.updates = s.updates ++ z.2.2 := by
  have hs : s.exec cap op = .ok (z.1, ⟨z.2.1, s.updates ++ z.2.2⟩) := by
    simp [EventLinkedChunk.exec, hz, Except.map]
  exact ⟨_, hs, h.exec hop hs, rfl, rfl⟩

lemma exec_yields {P} (hy : Yields .noMoreIdentifiers P (s.chunks.step cap op)) (hop : op.IsEdit) :
    Yields .noMoreIdentifiers (fun y => Mirrors cap U M y.2 ∧ ∃ us, P (y.1, y.2.chunks, us))
    (s.exec cap op) := by
  rcases hy with ⟨z, hz, hP⟩ | herr
  · have hs : s.exec cap op = .ok (z.1, ⟨z.2.1, s.updates ++ z.2.2⟩) := by
      simp [EventLinkedChunk.exec, hz, Except.map]
    exact .inl ⟨_, hs, h.exec hop hs, z.2.2, hP⟩
  · exact .inr (by simp [EventLinkedChunk.exec, herr, Except.map])

lemma touch : Mirrors cap U M s.touch :=
  have hop : (Op.observe : Op Event Gap).IsEdit := trivial
  have hs : s.exec cap .observe = .ok (.ok .unit, s.touch) := rfl
  h.exec hop hs

end

end Mirrors

/-! ## Replacing an event -/

namespace Mirrors

variable {cap : ℕ} {U M : List (PlainChunk Event Gap)} {s : EventLinkedChunk Event Gap}
  {p : Position} {event old : Event}

lemma replaceItemAt (h : Mirrors cap U M s) (hd : Distinct (elements s.plainChunks))
    (hp : (p, old) ∈ s.events) (hid : eventId event = eventId old) :
    ∃ s', s.exec cap (.replaceItemAt p event) = .ok (.ok .unit, s') ∧ Mirrors cap U M s' ∧
      elements s'.plainChunks = (elements s.plainChunks).map (renew [event]) ∧
      s'.updates = s.updates ++ [.replaceItem p event] ∧ ∀ x ∈ s.events, x.1 ≠ p → x ∈ s'.events := by
  obtain ⟨pre, l, r, post, hplain, hl⟩ := exists_of_mem_positioned hp
  obtain ⟨y, hy, hout, hchunks, hus⟩ := Chain.replaceItemAt_at cap h.nodup_memory hplain event
  rw [hl] at hy hus
  obtain ⟨s', hs, hm, hs', hupdates⟩ := h.exec_of_step (.replaceItemAt p event) trivial hy
  rw [hout] at hs
  have hcut : ∀ x, elements (pre ++ ⟨p.chunkIdentifier, .items (l ++ x :: r)⟩ :: post) =
      (elements pre ++ l.map .item) ++ .item x :: (r.map .item ++ elements post) := by simp
  refine ⟨s', hs, hm, ?_, by rw [hupdates, hus], ?_⟩
  · rw [hs', hchunks, hcut, hplain, hcut]
    rw [hplain, hcut] at hd
    exact (map_renew_cut hd hid).symm
  · rintro ⟨q, x⟩ hx hq
    rw [events, hplain] at hx
    rw [events, hs', hchunks]
    refine mem_positioned_change hx fun hid hget => ?_
    have hne : q.index ≠ l.length := fun heq => hq (by cases p; cases q; simp_all)
    rcases Nat.lt_or_gt_of_ne hne with hlt | hgt
    · rwa [List.getElem?_append_left hlt] at hget ⊢
    · rw [List.getElem?_append_right (Nat.le_of_lt hgt)] at hget ⊢
      obtain ⟨k, hk⟩ : ∃ k, q.index - l.length = k + 1 := ⟨q.index - l.length - 1, by omega⟩
      rw [hk] at hget ⊢
      simpa using hget

end Mirrors

/-! ## Putting events and gaps in -/

section Place

/-- The element is a gap. -/
def isGap : Element Event Gap → Bool
  | .gap _ => true
  | .item _ => false

/-- The gap goes to this position of the chunks, or to their end: `A` is what stands before it. -/
def Place (A : List (Element Event Gap)) (F : List (PlainChunk Event Gap)) : Option Position → Prop
  | some position => ∃ pre id xs post, position = ⟨id, 0⟩ ∧ F = pre ++ ⟨id, .items xs⟩ :: post ∧
    elements pre = A
  | none => elements F = A

variable {F pre : List (PlainChunk Event Gap)} {p : Position} {event : Event}

lemma isGap_of_positioned (h : positioned F = []) : ∀ el ∈ elements F, isGap el := by
  intro el hel
  obtain ⟨c, hc, hel⟩ := mem_flatMap.1 hel
  cases hcontent : c.content with
  | gap g =>
    rw [hcontent, elements_gap, mem_singleton] at hel
    rw [hel]
    rfl
  | items xs =>
    have hnil : xs = [] := by
      obtain ⟨A, B, rfl⟩ := append_of_mem hc
      rw [positioned_append, positioned_cons, hcontent] at h
      simpa using (append_eq_nil_iff.1 (append_eq_nil_iff.1 h).2).1
    simp [hcontent, hnil] at hel

lemma head_positioned (h : (positioned F).head? = some (p, event)) :
    ∃ pre id xs post, F = pre ++ ⟨id, .items (event :: xs)⟩ :: post ∧ p = ⟨id, 0⟩ ∧ positioned pre = [] := by
  induction F with
  | nil => simp [positioned] at h
  | cons c F ih =>
    obtain ⟨id, content⟩ := c
    rw [positioned_cons] at h
    cases hitems : content.toItems with
    | nil =>
      rw [hitems] at h
      obtain ⟨pre, id', xs, post, rfl, hp, hpre⟩ := ih (by simpa using h)
      refine ⟨⟨id, content⟩ :: pre, id', xs, post, rfl, hp, ?_⟩
      rw [positioned_cons, hitems, hpre]
      rfl
    | cons x xs =>
      rw [hitems] at h
      cases content with
      | gap g => simp at hitems
      | items ys =>
        rw [ChunkContent.toItems_items] at hitems
        obtain ⟨rfl, rfl⟩ := h
        exact ⟨[], id, xs, F, by rw [hitems]; rfl, rfl, rfl⟩

lemma takeWhile_isGap {G R : List (Element Event Gap)} (hG : ∀ el ∈ G, isGap el)
    (hR : ∀ el ∈ R.head?, isGap el = false) :
      (G ++ R).takeWhile isGap = G ∧ (G ++ R).dropWhile isGap = R := by
  have htake : R.takeWhile isGap = [] := by
    cases R with
    | nil => rfl
    | cons el R => simp [hR el rfl]
  have hdrop : R.dropWhile isGap = R := by
    cases R with
    | nil => rfl
    | cons el R => simp [hR el rfl]
  rw [takeWhile_append_of_pos hG, dropWhile_append_of_pos hG, htake, hdrop, append_nil]
  exact ⟨rfl, rfl⟩

end Place

namespace Mirrors

variable {cap : ℕ} {U M : List (PlainChunk Event Gap)} {s s' : EventLinkedChunk Event Gap} {op : Op Event Gap}

lemma execExpect_eq {o : Outcome Event Gap} (hs : s.exec cap op = .ok (.ok o, s')) :
    s.execExpect cap op = .ok s' := by
  simp [execExpect, hs, expect]

lemma execExpect_yields (h : Mirrors cap U M s) {P} (hy : Yields .noMoreIdentifiers P (s.chunks.step cap op))
    (hop : op.IsEdit) (hok : ∀ z, P z → ∃ o, z.1 = .ok o) :
    Yields .noMoreIdentifiers (fun s' => Mirrors cap U M s' ∧ ∃ r us, P (r, s'.chunks, us))
    (s.execExpect cap op) := by
  refine (h.exec_yields hy hop).bind ?_
  rintro ⟨r, s'⟩ ⟨hm, us, hP⟩
  obtain ⟨o, rfl⟩ := hok _ hP
  exact .ok ⟨hm, _, us, hP⟩

lemma touch_plainChunks (h : s.plainChunks ≠ []) : s.touch = s := by
  obtain ⟨⟨chunks, g⟩, updates⟩ := s
  cases chunks with
  | nil => exact absurd rfl h
  | cons c chunks => simp [EventLinkedChunk.touch]

lemma touch_ne (s : EventLinkedChunk Event Gap) : s.touch.plainChunks ≠ [] := by
  have := touch_chunks_ne s.chunks
  simpa [EventLinkedChunk.touch, EventLinkedChunk.plainChunks, plain] using this

lemma elements_touch (s : EventLinkedChunk Event Gap) :
    elements s.touch.plainChunks = elements s.plainChunks :=
  Chain.elements_touch s.chunks

lemma pushItemsBack (hcap : 0 < cap) (h : Mirrors cap U M s) (events : List Event) :
    Yields .noMoreIdentifiers (fun y => Mirrors cap U M y.2 ∧
      elements y.2.plainChunks = elements s.plainChunks ++ events.map .item)
        (s.exec cap (.pushItemsBack events)) :=
  (h.exec_yields (Chain.pushItemsBack_at hcap s.chunks events) trivial).mono fun _ ⟨hm, _, _, hels⟩ => ⟨hm, hels⟩

lemma pushGapBack (h : Mirrors cap U M s) (gap : Gap) :
    Yields .noMoreIdentifiers (fun y => Mirrors cap U M y.2 ∧
      ∃ new, y.2.plainChunks = s.touch.plainChunks ++ [⟨new, .gap gap⟩]) (s.exec cap (.pushGapBack gap)) :=
  (h.exec_yields (Chain.pushGapBack_at s.chunks gap) trivial).mono fun _ ⟨hm, _, _, hchunks⟩ => ⟨hm, hchunks⟩

lemma pushGap (h : Mirrors cap U M s) (gap : Gap) :
    Yields .noMoreIdentifiers (fun s' => Mirrors cap U M s' ∧
      elements s'.plainChunks = elements s.plainChunks ++ [.gap gap]) (s.pushGap cap gap) := by
  rw [← elements_touch s]
  refine (h.touch.pushGapBack gap).bind ?_
  rintro ⟨r, s₁⟩ ⟨hm, new, hchunks⟩
  simp only [touch_plainChunks (touch_ne s)] at hm hchunks ⊢
  split
  · next chunk hprev =>
    obtain ⟨c, hlast, hc⟩ := Option.bind_eq_some_iff.1 hprev
    have hfront := dropLast_append_getLast? c hlast
    split at hc
    · next hcontent =>
      cases hc
      rw [← hfront, append_assoc] at hchunks
      have hsplit : s₁.plainChunks =
          s.touch.plainChunks.dropLast ++ ⟨c.identifier, .items []⟩ :: [⟨new, .gap gap⟩] := by
        rw [hchunks, ← hcontent]
        rfl
      obtain ⟨y, hy, hok, hplain⟩ := Chain.removeEmptyChunkAt_at cap hm.nodup_memory hsplit rfl (by simp)
      obtain ⟨s', hs', hm', hplain', -⟩ := hm.exec_of_step (.removeEmptyChunkAt c.identifier) trivial hy
      rw [hok] at hs'
      rw [execExpect_eq hs']
      refine .ok ⟨hm', ?_⟩
      rw [hplain', hplain, ← hfront]
      simp [hcontent]
    · cases hc
  · exact .ok ⟨hm, by simp [hchunks]⟩

theorem pushLiveEvents (hcap : 0 < cap) (h : Mirrors cap U M s) (newGap : Option Gap) (events : List Event) :
    Yields .noMoreIdentifiers (fun s' => Mirrors cap U M s' ∧
      elements s'.plainChunks = elements s.plainChunks ++ newGap.toList.map .gap ++ events.map .item)
      (s.pushLiveEvents cap newGap events) := by
  cases newGap with
  | none =>
    refine (h.pushItemsBack hcap events).bind ?_
    rintro ⟨r, s'⟩ ⟨hm', hels'⟩
    exact .ok ⟨hm', by simpa using hels'⟩
  | some gap =>
    refine (h.pushGap gap).bind ?_
    rintro s₁ ⟨hm, hels⟩
    refine (hm.pushItemsBack hcap events).bind ?_
    rintro ⟨r, s'⟩ ⟨hm', hels'⟩
    exact .ok ⟨hm', by rw [hels', hels]; rfl⟩

/-! ### Back-paginations -/

lemma replaceGapAt (hcap : 0 < cap) (h : Mirrors cap U M s) {pre post : List (PlainChunk Event Gap)}
    {id : ChunkIdentifier} {g : Gap} (hs : s.plainChunks = pre ++ ⟨id, .gap g⟩ :: post)
    (events : List Event) :
    Yields .noMoreIdentifiers (fun y => Mirrors cap U M y.2 ∧ ∃ position, y.1 = .ok position ∧
        elements y.2.plainChunks = elements pre ++ (events.map .item ++ elements post) ∧
        ((events = [] → ∀ c ∈ post.head?, ∃ xs, c.content = .items xs) →
          Place (elements pre) y.2.plainChunks position))
      (s.replaceGapAt cap id events) := by
  have hne : s.plainChunks ≠ [] := by simp [hs]
  unfold EventLinkedChunk.replaceGapAt
  simp only [touch_plainChunks hne]
  split
  · next hempty =>
    have hmany : pre ++ post ≠ [] := by
      intro hnil
      obtain ⟨rfl, rfl⟩ := append_eq_nil_iff.1 hnil
      exact hempty.2 (by simp [hs])
    obtain ⟨y, hy, hok, hplain⟩ := Chain.removeEmptyChunkAt_at cap h.nodup_memory hs rfl hmany
    obtain ⟨s', hs', hm', hplain', -⟩ := h.exec_of_step (.removeEmptyChunkAt id) trivial hy
    rw [hs', hok]
    rw [hplain] at hplain'
    refine .ok ⟨hm', _, rfl, ?_, fun hitems => ?_⟩
    · simp [hplain', isEmpty_iff.1 hempty.1]
    · rw [hplain']
      cases post with
      | nil => simp [Place]
      | cons c post =>
        obtain ⟨xs, hxs⟩ := hitems (isEmpty_iff.1 hempty.1) c rfl
        exact ⟨pre, c.identifier, xs, post, rfl, by rw [← hxs], rfl⟩
  · refine (h.exec_yields (Chain.replaceGapAt_at hcap h.nodup_memory hs events) trivial).bind ?_
    rintro ⟨r, s'⟩ ⟨hm', -, first, ys, rest, rfl, (hplain' : s'.plainChunks = _), hels⟩
    refine .ok ⟨hm', _, rfl, ?_, fun _ => ?_⟩
    · rw [hplain', ← hels]
      simp
    · exact ⟨pre, first.identifier, ys, rest, rfl, hplain', rfl⟩

lemma insertInFront (hcap : 0 < cap) (h : Mirrors cap U M s) (events : List Event) :
    Yields .noMoreIdentifiers (fun y => Mirrors cap U M y.2 ∧
        elements y.2.plainChunks = (elements s.plainChunks).takeWhile isGap ++
          (events.map .item ++ (elements s.plainChunks).dropWhile isGap) ∧
        Place ((elements s.plainChunks).takeWhile isGap) y.2.plainChunks y.1)
      (s.insertPaginationEvents cap none events) := by
  unfold insertPaginationEvents
  cases hhead : s.events.head? with
  | some x =>
    obtain ⟨pos, event⟩ := x
    obtain ⟨pre, id, xs, post, hplain, rfl, hpre⟩ := head_positioned hhead
    have hsplit : elements s.plainChunks = elements pre ++ ((event :: xs).map .item ++ elements post) := by
      simp [hplain]
    obtain ⟨htake, hdrop⟩ := takeWhile_isGap (isGap_of_positioned hpre)
      (R := (event :: xs).map .item ++ elements post) (by simp [isGap])
    rw [hsplit, htake, hdrop]
    refine (h.execExpect_yields (Chain.insertItemsAt_at hcap h.nodup_memory hplain events) trivial ?_).bind ?_
    · rintro z ⟨-, -, hok, -⟩
      exact ⟨_, hok⟩
    · rintro s' ⟨hm', -, -, ys, rest, -, (hplain' : s'.plainChunks = _), hels⟩
      refine .ok ⟨hm', ?_, pre, id, ys, rest, rfl, hplain', rfl⟩
      rw [hplain', ← hels]
      simp
  | none =>
    have hnil : positioned s.plainChunks = [] := List.head?_eq_none_iff.1 hhead
    obtain ⟨htake, hdrop⟩ := takeWhile_isGap (isGap_of_positioned hnil) (R := []) (by simp)
    rw [append_nil] at htake hdrop
    rw [htake, hdrop, append_nil]
    refine (h.pushItemsBack hcap events).bind ?_
    rintro ⟨r, s'⟩ ⟨hm', hels⟩
    refine .ok ⟨hm', hels, ?_⟩
    cases hhead' : s'.events.head? with
    | none =>
      have hgaps := isGap_of_positioned (List.head?_eq_none_iff.1 hhead')
      have hevents : events = [] := by
        refine eq_nil_iff_forall_not_mem.2 fun event he => ?_
        have := hgaps (.item event) (by rw [hels]; simp [he])
        simp [isGap] at this
      simp [Place, hels, hevents]
    | some x =>
      obtain ⟨pos, event⟩ := x
      obtain ⟨pre, id, xs, post, hplain, rfl, hpre⟩ := head_positioned hhead'
      refine ⟨pre, id, event :: xs, post, rfl, hplain, ?_⟩
      -- both are the gaps in front of the same sequence
      have h₁ := takeWhile_isGap (isGap_of_positioned hpre)
        (R := (event :: xs).map .item ++ elements post) (by simp [isGap])
      have h₂ := takeWhile_isGap (isGap_of_positioned hnil) (R := events.map .item) (by
        intro el hel
        obtain ⟨e, -, rfl⟩ := mem_map.1 (mem_of_mem_head? hel)
        rfl)
      rw [← hels, hplain] at h₂
      simp only [elements_append, elements_cons, elements_items] at h₂
      exact h₁.1.symm.trans h₂.1

lemma insertPaginationGap (h : Mirrors cap U M s) {A R : List (Element Event Gap)}
    {position : Option Position} {newGap : Option Gap} (hels : elements s.plainChunks = A ++ R)
    (hplace : newGap.isSome → Place A s.plainChunks position) :
    Yields .noMoreIdentifiers (fun s' => Mirrors cap U M s' ∧
      elements s'.plainChunks = A ++ newGap.toList.map .gap ++ R)
        (s.insertPaginationGap cap newGap position) := by
  cases newGap with
  | none => exact .ok ⟨h, by simpa using hels⟩
  | some gap =>
    replace hplace := hplace rfl
    cases position with
    | some newPos =>
      obtain ⟨pre, id, xs, post, rfl, hplain, rfl⟩ := hplace
      refine (h.execExpect_yields (Chain.insertGapAt_at h.nodup_memory hplain gap) trivial fun z hz => ⟨_, hz.1⟩).mono ?_
      rintro s' ⟨hm', -, -, -, new, (hplain' : s'.plainChunks = _)⟩
      refine ⟨hm', ?_⟩
      rw [hplain, elements_append, append_cancel_left_eq] at hels
      rw [hplain', elements_append, elements_cons, hels]
      simp
    | none =>
      obtain rfl : R = [] := by
        have : elements s.plainChunks = A := hplace
        rw [this] at hels
        simpa using hels.symm
      refine (h.pushGapBack gap).bind ?_
      rintro ⟨r, s'⟩ ⟨hm', new, hplain'⟩
      refine .ok ⟨hm', ?_⟩
      rw [hplain', elements_append, elements_touch, hels]
      simp

/-- **The events of a back-pagination take the place of its gap**, after the new gap, unless the gap
is just removed and the new one would go in front of another gap. -/
theorem pushBackwardsPaginationEvents_gap (hcap : 0 < cap) (h : Mirrors cap U M s)
    {pre post : List (PlainChunk Event Gap)} {id : ChunkIdentifier} {g : Gap}
    (hs : s.plainChunks = pre ++ ⟨id, .gap g⟩ :: post) (newGap : Option Gap) (events : List Event)
    (hfree : newGap.isSome → events = [] → ∀ c ∈ post.head?, ∃ xs, c.content = .items xs) :
    Yields .noMoreIdentifiers (fun y => Mirrors cap U M y.2 ∧ elements y.2.plainChunks =
        elements pre ++ newGap.toList.map .gap ++ (events.map .item ++ elements post))
      (s.pushBackwardsPaginationEvents cap (some id) newGap events) := by
  unfold pushBackwardsPaginationEvents insertPaginationEvents
  simp only [touch_plainChunks (by simp [hs] : s.plainChunks ≠ [])]
  rw [bind_assoc]
  refine (h.replaceGapAt hcap hs events).bind ?_
  rintro ⟨r, s₁⟩ ⟨hm, position, rfl, hels, hplace⟩
  refine (hm.insertPaginationGap hels fun hgap => hplace (hfree hgap)).bind ?_
  rintro s' ⟨hm', hels'⟩
  exact .ok ⟨hm', hels'⟩

theorem pushBackwardsPaginationEvents_blocked (h : Mirrors cap U M s) {pre post : List (PlainChunk Event Gap)}
    {id id' : ChunkIdentifier} {g g' : Gap}
    (hs : s.plainChunks = pre ++ ⟨id, .gap g⟩ :: ⟨id', .gap g'⟩ :: post) (newGap : Gap) :
    s.pushBackwardsPaginationEvents cap (some id) (some newGap) [] = .error .assertion := by
  obtain ⟨y, hy, hok, hplain⟩ := Chain.removeEmptyChunkAt_at cap h.nodup_memory hs rfl (by simp)
  obtain ⟨s₁, hs₁, hm₁, hplain₁, -⟩ := h.exec_of_step (.removeEmptyChunkAt id) trivial hy
  rw [hok] at hs₁
  rw [hplain] at hplain₁
  have hreplace : s.replaceGapAt cap id [] = .ok (.ok (some ⟨id', 0⟩), s₁) := by
    have hlength : ¬ s.plainChunks.length = 1 := by
      rw [hs, length_append, length_cons, length_cons]
      omega
    simp only [EventLinkedChunk.replaceGapAt, touch_plainChunks (by simp [hs] : s.plainChunks ≠ []),
      isEmpty_nil, hlength, not_false_eq_true, and_self, if_true, hs₁]
    rfl
  obtain ⟨z, hz, herr⟩ : ∃ z, s₁.chunks.step cap (.insertGapAt newGap ⟨id', 0⟩) = .ok z ∧
      z.1 = .error (.linkedChunk (.chunkIsAGap id')) :=
        Chain.insertGapAt_gap hm₁.nodup_memory hplain₁ newGap 0
  have hinsert : s₁.execExpect cap (.insertGapAt newGap ⟨id', 0⟩) = .error .assertion := by
    simp only [EventLinkedChunk.execExpect, EventLinkedChunk.exec, hz, Except.map, herr]
    rfl
  simp only [EventLinkedChunk.pushBackwardsPaginationEvents, EventLinkedChunk.insertPaginationEvents,
    touch_plainChunks (by simp [hs] : s.plainChunks ≠ []), hreplace]
  show (s₁.execExpect cap (.insertGapAt newGap ⟨id', 0⟩) >>= _) = _
  rw [hinsert]
  rfl

/-- **Without a gap of its own, a back-pagination goes in front of the first event in memory.** -/
theorem pushBackwardsPaginationEvents_front (hcap : 0 < cap) (h : Mirrors cap U M s) (newGap : Option Gap)
    (events : List Event) :
    Yields .noMoreIdentifiers (fun y => Mirrors cap U M y.2 ∧ elements y.2.plainChunks =
        (elements s.plainChunks).takeWhile isGap ++ newGap.toList.map .gap ++
          (events.map .item ++ (elements s.plainChunks).dropWhile isGap))
      (s.pushBackwardsPaginationEvents cap none newGap events) := by
  refine (h.touch.insertInFront hcap events).bind ?_
  rintro ⟨position, s₁⟩ ⟨hm, hels, hplace⟩
  rw [elements_touch] at hels hplace
  refine (hm.insertPaginationGap hels fun _ => hplace).bind ?_
  rintro s' ⟨hm', hels'⟩
  exact .ok ⟨hm', hels'⟩

lemma eq_nil_of_head (h : Mirrors cap U M s)
    (hhead : ∀ c ∈ s.chunks.chunks.head?, c.lazyPrevious = none) : U = [] := by
  have hlazy := h.ready.lazy
  have hlast : (ids U).getLast?.or none = none := by
    cases hchunks : s.chunks.chunks with
    | nil =>
      rw [hchunks] at hlazy
      exact hlazy
    | cons c cs =>
      rw [hchunks] at hlazy
      exact hlazy.1.symm.trans (hhead c (by simp [hchunks]))
  simpa [ids] using hlast

end Mirrors

end HaranaMatrix.EventCache
