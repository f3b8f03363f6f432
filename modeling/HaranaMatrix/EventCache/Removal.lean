import HaranaMatrix.EventCache.Mirror
import HaranaMatrix.Lib.Splice

/-!
# Removing events

Events are removed by their positions, the last one of each chunk first, so that the positions of
the others stay right. A chunk in memory that becomes empty is dropped, one of the store stays. With
distinct identifiers, events are removed by their identifiers. -/

set_option linter.unusedSectionVars false

namespace HaranaMatrix.EventCache

open Linked RoomEvent List EventLinkedChunk

variable {Event Gap : Type}

/-! ## One after the other -/

/-- Of two positions in a chunk, the later one is the first to be removed. -/
def Before (p q : Position) : Prop := q.chunkIdentifier = p.chunkIdentifier → q.index < p.index

instance : Std.Total EventLinkedChunk.Descending where
  total p q := by
    rcases lt_trichotomy p.chunkIdentifier.index q.chunkIdentifier.index with h | h | h
    · exact .inr (.inl h)
    · have heq : p.chunkIdentifier = q.chunkIdentifier := ChunkIdentifier.ext h
      rcases Nat.le_total p.index q.index with h | h
      · exact .inr (.inr ⟨heq, h⟩)
      · exact .inl (.inr ⟨heq.symm, h⟩)
    · exact .inl (.inl h)

instance : IsTrans Position EventLinkedChunk.Descending where
  trans p q r hpq hqr := by
    rcases hpq with h | ⟨h, hi⟩ <;> rcases hqr with h' | ⟨h', hi'⟩
    · exact .inl (h'.trans h)
    · exact .inl (h' ▸ h)
    · exact .inl (h ▸ h')
    · exact .inr ⟨h'.trans h, hi'.trans hi⟩

section Sorted

variable {L : List Position} {p : Position}

lemma pairwise_sortPositionsDescending (hn : L.Nodup) : (sortPositionsDescending L).Pairwise Before := by
  have hsorted : (sortPositionsDescending L).Pairwise EventLinkedChunk.Descending :=
    pairwise_insertionSort _ _
  have hnodup : (sortPositionsDescending L).Nodup :=
    (perm_insertionSort EventLinkedChunk.Descending L).nodup_iff.2 hn
  refine (hsorted.and hnodup).imp ?_
  rintro ⟨c, i⟩ ⟨d, j⟩ ⟨h, hne⟩ (rfl : d = c)
  rcases h with h | ⟨-, h⟩
  · exact absurd h (Nat.lt_irrefl _)
  · exact lt_of_le_of_ne h fun heq => hne (by rw [show j = i from heq])

lemma mem_sortPositionsDescending {p : Position} : p ∈ sortPositionsDescending L ↔ p ∈ L :=
  (perm_insertionSort EventLinkedChunk.Descending L).mem_iff

end Sorted

/-! ## Removing positions -/

section Removing

variable {L : List Position} {c : PlainChunk Event Gap}

/-- The chunk without the events of these positions. -/
def removing (L : List Position) (c : PlainChunk Event Gap) : PlainChunk Event Gap :=
  match c.content with
  | .gap _ => c
  | .items xs => ⟨c.identifier, .items ((xs.zipIdx.filter fun x => ⟨c.identifier, x.2⟩ ∉ L).map Prod.fst)⟩

variable (cs : List (PlainChunk Event Gap))

lemma map_removing_nil : cs.map (removing []) = cs := by
  refine (map_congr_left fun c _ => ?_).trans (map_id cs)
  obtain ⟨id, content⟩ := c
  cases content <;> simp [removing]

lemma removing_congr {L' : List Position} (h : ∀ p, p.chunkIdentifier = c.identifier → (p ∈ L ↔ p ∈ L')) :
    removing L c = removing L' c := by
  obtain ⟨id, content⟩ := c
  cases content with
  | gap g => rfl
  | items xs =>
    have : ∀ x ∈ xs.zipIdx, decide ((⟨id, x.2⟩ : Position) ∉ L) = decide ((⟨id, x.2⟩ : Position) ∉ L') :=
      fun x _ => by simp [h ⟨id, x.2⟩ rfl]
    simp only [removing, filter_congr this]

lemma removing_sorted : (removing (sortPositionsDescending L) : PlainChunk Event Gap → _) = removing L :=
  funext fun _ => removing_congr fun _ _ => mem_sortPositionsDescending

lemma removing_cut {id : ChunkIdentifier} {l r : List Event} {event : Event}
    (h : ∀ q ∈ L, q.chunkIdentifier = id → q.index < l.length) :
    removing (⟨id, l.length⟩ :: L) (⟨id, .items (l ++ event :: r)⟩ : PlainChunk Event Gap) =
      removing L ⟨id, .items (l ++ r)⟩ := by
  have hfirst : ∀ x ∈ l.zipIdx, decide ((⟨id, x.2⟩ : Position) ∉ (⟨id, l.length⟩ :: L : List Position)) =
      decide ((⟨id, x.2⟩ : Position) ∉ L) := by
    intro x hx
    have : x.2 ≠ l.length := by
      have := (mem_zipIdx hx).2.1
      omega
    simp [this]
  have hlast : ∀ (k : ℕ) (L' : List Position), (∀ q ∈ L', q.chunkIdentifier = id → q.index < k) →
      (r.zipIdx k).filter (fun x => decide ((⟨id, x.2⟩ : Position) ∉ L')) = r.zipIdx k := by
    intro k L' hL'
    refine filter_eq_self.2 fun x hx => decide_eq_true fun hmem => ?_
    have hk := (mem_zipIdx hx).1
    have := hL' _ hmem rfl
    simp only at this
    omega
  have hshift : ∀ q ∈ (⟨id, l.length⟩ :: L : List Position), q.chunkIdentifier = id →
    q.index < l.length + 1 := by
    intro q hq hid
    rcases mem_cons.1 hq with rfl | hq
    · exact Nat.lt_succ_self _
    · exact (h q hq hid).trans (Nat.lt_succ_self _)
  have hevent : decide ((⟨id, l.length⟩ : Position) ∉ (⟨id, l.length⟩ :: L : List Position)) = false := by simp
  simp only [removing, zipIdx_append, zipIdx_cons, Nat.zero_add, filter_append, filter_cons, hevent,
    filter_congr hfirst, hlast _ _ h, hlast _ _ hshift, map_append, zipIdx_map_fst]
  simp

lemma map_removing_cut {pre post : List (PlainChunk Event Gap)} {id : ChunkIdentifier}
    {l r : List Event} {event : Event}
    (hn : (ids (pre ++ ⟨id, .items (l ++ event :: r)⟩ :: post)).Nodup)
    (h : ∀ q ∈ L, q.chunkIdentifier = id → q.index < l.length) :
    (pre ++ ⟨id, .items (l ++ event :: r)⟩ :: post).map (removing (⟨id, l.length⟩ :: L)) =
      (pre ++ ⟨id, .items (l ++ r)⟩ :: post).map (removing L) := by
  obtain ⟨hpre, hpost⟩ := Stored.not_mem_of_nodup hn
  have hother : ∀ cs : List (PlainChunk Event Gap), id ∉ ids cs →
      cs.map (removing (⟨id, l.length⟩ :: L)) = cs.map (removing L) := by
    intro cs hcs
    refine map_congr_left fun c hc => removing_congr fun q hq => ?_
    have hne : q ≠ ⟨id, l.length⟩ := by
      rintro rfl
      exact hcs ((show id = c.identifier from hq) ▸ mem_map_of_mem hc)
    simp [hne]
  rw [map_append, map_append, map_cons, map_cons, hother pre hpre, hother post hpost, removing_cut h]

lemma ids_map_removing : ids (cs.map (removing L)) = ids cs := by
  rw [ids, map_map]
  refine map_congr_left fun c _ => ?_
  obtain ⟨id, content⟩ := c
  cases content <;> rfl

lemma numItems_removing_le (c : PlainChunk Event Gap) :
    (removing L c).content.numItems ≤ c.content.numItems := by
  obtain ⟨id, content⟩ := c
  cases content with
  | gap g => exact le_rfl
  | items xs =>
    have := length_filter_le (fun x : Event × ℕ => decide ((⟨id, x.2⟩ : Position) ∉ L)) xs.zipIdx
    simpa [removing] using this

lemma flatten_map_removing :
    flatten (cs.map (removing L)) = ((positioned cs).filter fun x => x.1 ∉ L).map Prod.snd := by
  induction cs with
  | nil => rfl
  | cons c cs ih =>
    have hchunk : (removing L c).content.toItems =
        ((c.content.toItems.zipIdx.map fun x => ((⟨c.identifier, x.2⟩ : Position), x.1)).filter
          fun x => x.1 ∉ L).map Prod.snd := by
      obtain ⟨id, content⟩ := c
      cases content with
      | gap g => simp [removing]
      | items xs => simp [removing, List.filter_map, Function.comp_def]
    rw [List.map_cons, Linked.flatten_cons, ih, positioned_cons, List.filter_append, List.map_append, hchunk]

end Removing

/-- The chunks, without some of the empty ones. -/
inductive Thinned : List (PlainChunk Event Gap) → List (PlainChunk Event Gap) → Prop
  | nil : Thinned [] []
  | keep {F F'} (c : PlainChunk Event Gap) (h : Thinned F F') : Thinned (c :: F) (c :: F')
  | drop {F F'} (id : ChunkIdentifier) (h : Thinned F F') : Thinned (⟨id, .items []⟩ :: F) F'

namespace Thinned

variable {L : List Position} {F F' F'' pre post : List (PlainChunk Event Gap)}
  {id : ChunkIdentifier} {g : Gap}

lemma refl : ∀ F : List (PlainChunk Event Gap), Thinned F F
  | [] => .nil
  | c :: F => .keep c (refl F)

lemma trans (h : Thinned F F') (h' : Thinned F' F'') : Thinned F F'' := by
  induction h generalizing F'' with
  | nil => exact h'
  | keep c _ ih =>
    cases h' with
    | keep _ h' => exact .keep c (ih h')
    | drop id h' => exact .drop id (ih h')
  | drop id _ ih => exact .drop id (ih h')

lemma skip (pre post : List (PlainChunk Event Gap)) (id : ChunkIdentifier) :
    Thinned (pre ++ ⟨id, .items []⟩ :: post) (pre ++ post) := by
  induction pre with
  | nil => exact .drop id (refl post)
  | cons c pre ih => exact .keep c ih

lemma map_removing (h : Thinned F F') : Thinned (F.map (removing L)) (F'.map (removing L)) := by
  induction h with
  | nil => exact .nil
  | keep c _ ih => exact .keep _ ih
  | drop id _ ih => exact .drop id ih

lemma elements_eq (h : Thinned F F') : elements F' = elements F := by
  induction h with
  | nil => rfl
  | keep c _ ih => rw [elements_cons, elements_cons, ih]
  | drop id _ ih => exact ih

lemma split (h : Thinned (pre ++ ⟨id, .gap g⟩ :: post) F') :
    ∃ pre' post', F' = pre' ++ ⟨id, .gap g⟩ :: post' ∧ Thinned pre pre' ∧ Thinned post post' := by
  induction pre generalizing F' with
  | nil =>
    cases h with
    | keep _ h => exact ⟨[], _, rfl, .nil, h⟩
  | cons c pre ih =>
    cases h with
    | keep _ h =>
      obtain ⟨pre', post', rfl, hpre, hpost⟩ := ih h
      exact ⟨c :: pre', post', rfl, .keep c hpre, hpost⟩
    | drop id' h =>
      obtain ⟨pre', post', rfl, hpre, hpost⟩ := ih h
      exact ⟨pre', post', rfl, .drop id' hpre, hpost⟩

end Thinned

/-! ## In the store and in memory -/

section Erase

variable {pre post : List (PlainChunk Event Gap)} {id : ChunkIdentifier} {l r : List Event}
  {event event' : Event}
  {p q : Position}

lemma mem_positioned_erase (hq : q.chunkIdentifier = id → q.index < l.length)
    (h : (q, event') ∈ positioned (pre ++ ⟨id, .items (l ++ event :: r)⟩ :: post)) :
    (q, event') ∈ positioned (pre ++ ⟨id, .items (l ++ r)⟩ :: post) := by
  refine mem_positioned_change h fun hid hget => ?_
  have hi := hq hid
  rw [List.getElem?_append_left hi] at hget ⊢
  exact hget

lemma mem_positioned_drop (hlr : l ++ r = []) (hq : q.chunkIdentifier = id → q.index < l.length)
    (h : (q, event') ∈ positioned (pre ++ ⟨id, .items (l ++ event :: r)⟩ :: post)) :
    (q, event') ∈ positioned (pre ++ post) := by
  have := mem_positioned_erase hq h
  rw [mem_positioned_items, hlr] at this
  simpa using this

end Erase

section Both

variable {cap : ℕ} {U M : List (PlainChunk Event Gap)} {s : EventLinkedChunk Event Gap}
  {L : List Position} {p : Position}
  {event : Event}

/-- **The store removes the events of the positions**, and keeps their chunks. -/
theorem applyUpdates_removing (M : List (PlainChunk Event Gap)) (hn : (ids U).Nodup)
    (hL : ∀ p ∈ L, ∃ event, (p, event) ∈ positioned U) (hsorted : L.Pairwise Before) :
    Stored.applyUpdates (U ++ M) (L.map .removeItem) = some (U.map (removing L) ++ M) := by
  induction L generalizing U with
  | nil => rw [map_removing_nil]; rfl
  | cons p L ih =>
    obtain ⟨id, i⟩ := p
    rw [pairwise_cons] at hsorted
    obtain ⟨event, hevent⟩ := hL ⟨id, i⟩ (mem_cons_self ..)
    obtain ⟨pre, l, r, post, hU, hl⟩ := exists_of_mem_positioned hevent
    obtain rfl : l.length = i := hl
    subst hU
    have hupdate : Stored.applyUpdate (pre ++ ⟨id, .items (l ++ event :: r)⟩ :: post ++ M)
        (.removeItem ⟨id, l.length⟩) = some (pre ++ ⟨id, .items (l ++ r)⟩ :: post ++ M) := by
      rw [append_assoc, append_assoc]
      exact Stored.modifyItems_eq (Stored.not_mem_of_nodup hn).1 (by simp [eraseIdx_append_length])
    have hkeep : ∀ q ∈ L, ∃ event', (q, event') ∈ positioned (pre ++ ⟨id, .items (l ++ r)⟩ :: post) := by
      intro q hq
      obtain ⟨event', hevent'⟩ := hL q (mem_cons_of_mem _ hq)
      exact ⟨event', mem_positioned_erase (hsorted.1 q hq) hevent'⟩
    have hrest := ih (by simpa using hn) hkeep hsorted.2
    rw [map_cons, Stored.applyUpdates, foldlM_cons, hupdate]
    exact hrest.trans (by rw [map_removing_cut hn hsorted.1])

namespace Mirrors

lemma removeItemAt_chunks (h : Mirrors cap U M s) (hp : (p, event) ∈ s.events) :
    ∃ s' pre l r post, s.exec cap (.removeItemAt p) = .ok (.ok (.item event), s') ∧ Mirrors cap U M s' ∧
      s.plainChunks = pre ++ ⟨p.chunkIdentifier, .items (l ++ event :: r)⟩ :: post ∧ l.length = p.index ∧
      (s'.plainChunks = pre ++ ⟨p.chunkIdentifier, .items (l ++ r)⟩ :: post ∨
        (l ++ r = [] ∧ s'.plainChunks = pre ++ post)) ∧
      ∀ x ∈ s.events, Before p x.1 → x ∈ s'.events := by
  obtain ⟨pre, l, r, post, hplain, hl⟩ := exists_of_mem_positioned hp
  obtain ⟨y, hy, hout, hchunks⟩ := Chain.removeItemAt_at cap h.nodup_memory hplain
  rw [hl] at hy
  obtain ⟨s', hs, hm, hs', -⟩ := h.exec_of_step (.removeItemAt p) trivial hy
  rw [hout] at hs
  rw [← hs'] at hchunks
  refine ⟨s', pre, l, r, post, hs, hm, hplain, hl, hchunks, ?_⟩
  rintro ⟨q, x⟩ hx hq
  rw [events, hplain] at hx
  rw [events]
  rcases hchunks with hchunks | ⟨hlr, hchunks⟩
  · rw [hchunks]
    exact mem_positioned_erase (fun hid => hl ▸ hq hid) hx
  · rw [hchunks]
    exact mem_positioned_drop hlr (fun hid => hl ▸ hq hid) hx

/-- **The loop of `remove_events_by_position` removes the events of the positions.** -/
theorem removeItems (h : Mirrors cap U M s) (hL : ∀ p ∈ L, ∃ event, (p, event) ∈ s.events)
    (hsorted : L.Pairwise Before) :
    ∃ s', removeItems cap L s = .ok (.ok (), s') ∧ Mirrors cap U M s' ∧
      Thinned (s.plainChunks.map (removing L)) s'.plainChunks := by
  induction L generalizing s with
  | nil => exact ⟨s, rfl, h, by rw [map_removing_nil]; exact .refl _⟩
  | cons p L ih =>
    obtain ⟨id, i⟩ := p
    rw [pairwise_cons] at hsorted
    obtain ⟨event, hevent⟩ := hL ⟨id, i⟩ (mem_cons_self ..)
    obtain ⟨s₁, pre, l, r, post, hs₁, hm₁, hplain, hl, hchunks, hkeep⟩ := h.removeItemAt_chunks hevent
    obtain rfl : l.length = i := hl
    obtain ⟨s', hs', hm', hthin⟩ := ih hm₁ (fun q hq => by
      obtain ⟨event', hevent'⟩ := hL q (mem_cons_of_mem _ hq)
      exact ⟨event', hkeep _ hevent' (hsorted.1 q hq)⟩) hsorted.2
    refine ⟨s', ?_, hm', ?_⟩
    · rw [removeItems, hs₁]
      exact hs'
    rw [hplain, map_removing_cut (hplain ▸ h.nodup_memory) hsorted.1]
    rcases hchunks with hchunks | ⟨hlr, hchunks⟩
    · rwa [hchunks] at hthin
    · rw [hchunks] at hthin
      rw [hlr]
      exact (Thinned.skip pre post id).map_removing.trans hthin

end Mirrors

end Both

/-! ## Identifiers -/

section Identifiers

variable {EventId UserId : Type} [RoomEvent Event EventId UserId] [DecidableEq EventId]
  {names : List (Option EventId)} {F F' : List (PlainChunk Event Gap)} {L : List Position}

/-- The events with these identifiers are taken out of the chunks, and the gaps stay between the
others. -/
structure TakenOut (names : List (Option EventId)) (F F' : List (PlainChunk Event Gap)) : Prop where
  elements_eq : elements F' = without names (elements F)
  gaps : ∀ pre id g post, F = pre ++ ⟨id, .gap g⟩ :: post → ∃ pre' post', F' = pre' ++ ⟨id, .gap g⟩ :: post' ∧
    elements pre' = without names (elements pre) ∧ elements post' = without names (elements post)

lemma TakenOut.refl (F : List (PlainChunk Event Gap)) : TakenOut [] F F :=
  ⟨without_names_nil.symm, fun pre _ _ post h => ⟨pre, post, h, without_names_nil.symm,
    without_names_nil.symm⟩⟩

lemma TakenOut.congr {names' : List (Option EventId)} (h : TakenOut names F F')
    (hnames : ∀ i ∈ eventIds (elements F), i ∈ names ↔ i ∈ names') : TakenOut names' F F' := by
  refine ⟨h.elements_eq.trans (without_congr hnames), fun pre id g post hF => ?_⟩
  obtain ⟨pre', post', hF', hpre, hpost⟩ := h.gaps pre id g post hF
  refine ⟨pre', post', hF', hpre.trans (without_congr fun i hi => hnames i ?_),
    hpost.trans (without_congr fun i hi => hnames i ?_)⟩ <;> rw [hF] <;> simp [hi]

section

variable (h : ∀ x ∈ positioned F, x.1 ∈ L ↔ eventId x.2 ∈ names)
include h

lemma elements_map_removing : elements (F.map (removing L)) = without names (elements F) := by
  induction F with
  | nil => rfl
  | cons c F ih =>
    rw [positioned_cons, forall_mem_append] at h
    rw [map_cons, elements_cons, elements_cons, without_append, ih h.2]
    congr 1
    obtain ⟨id, content⟩ := c
    cases content with
    | gap g => rfl
    | items xs =>
      have hitems : (xs.zipIdx.filter fun x => (⟨id, x.2⟩ : Position) ∉ L).map Prod.fst =
          xs.filter fun event => eventId event ∉ names := by
        conv_rhs => rw [← zipIdx_map_fst 0 xs, filter_map]
        refine congrArg (List.map Prod.fst) (filter_congr fun x hx => ?_)
        exact decide_eq_decide.2 (not_congr (h.1 _ (mem_map_of_mem hx)))
      rw [removing, elements_items, elements_items, hitems, without, filter_map]
      rfl

lemma TakenOut.of_thinned (hthin : Thinned (F.map (removing L)) F') : TakenOut names F F' := by
  refine ⟨hthin.elements_eq.trans (elements_map_removing h), ?_⟩
  rintro pre id g post rfl
  rw [map_append, map_cons] at hthin
  obtain ⟨pre', post', rfl, hpre, hpost⟩ := hthin.split
  rw [positioned_append, positioned_cons, forall_mem_append, forall_mem_append] at h
  exact ⟨pre', post', rfl, hpre.elements_eq.trans (elements_map_removing h.1),
    hpost.elements_eq.trans (elements_map_removing h.2.2)⟩

end

end Identifiers

end HaranaMatrix.EventCache
