import HaranaMatrix.Lib.Worklist
import HaranaMatrix.Linked.OrderTracker

/-!
# The related events of an event

`find_event_relations` (`event_cache/persistence.rs`) asks the store for the events that relate to an event, then for those
that relate to them, and so on. Identifiers that were seen are not asked for again, and results are only appended, so an event is there
twice if its target is asked for twice. What it returns is sorted by the order of the linked chunk.
-/

namespace HaranaMatrix.EventCache.Relations

open Linked

variable {Event EventId RelationType StoreError : Type} [DecidableEq EventId] [DecidableEq RelationType]

/-- An event of the store, with its position in the linked chunk if it has one. -/
abbrev Row (Event : Type) := Event × Option Position

/-! ## The program -/

/-- The comparison of the sort; `eventOrder` is `EventLinkedChunk::event_order`. -/
def comparePositions (eventOrder : Position → Option ℕ) : Option Position → Option Position → Ordering
  | none, none => .eq
  | none, some _ => .lt
  | some _, none => .gt
  | some lhs, some rhs =>
    match eventOrder lhs, eventOrder rhs with
    | none, none => .eq
    | none, some _ => .lt
    | some _, none => .gt
    | some lhs, some rhs => compare lhs rhs

/-- `sort_by`, which is stable. -/
def sortByPosition (eventOrder : Position → Option ℕ) (related : List (Row Event)) : List (Row Event) :=
  related.insertionSort fun lhs rhs => comparePositions eventOrder lhs.2 rhs.2 ≠ .gt

section Program

variable (eventId : Event → Option EventId)

/-- The identifiers of related events, as they are pushed: the last one is on top. -/
def pushIds (related : List (Row Event)) (stack : List EventId) : List EventId :=
  (related.filterMap fun r => eventId r.1).reverse ++ stack

/-- The loop over the stack, whose top comes first; `none` when the fuel is used up. -/
def relatedLoop (findRelations : EventId → Except StoreError (List (Row Event))) :
    ℕ → List EventId → List EventId → List (Row Event) → Option (Except StoreError (List (Row Event)))
  | 0, _, _, _ => none
  | _ + 1, _, [], related => some (.ok related)
  | fuel + 1, alreadySeen, id :: stack, related =>
    if id ∈ alreadySeen then relatedLoop findRelations fuel alreadySeen stack related
    else
      match findRelations id with
      | .error e => some (.error e)
      | .ok otherRelated =>
        relatedLoop findRelations fuel (id :: alreadySeen) (pushIds eventId otherRelated stack) (related ++ otherRelated)

/-- `find_event_relations`. The store's function of this name is `store`, for the room. -/
def findEventRelations (store : EventId → Option (List RelationType) → Except StoreError (List (Row Event)))
    (eventOrder : Position → Option ℕ) (fuel : ℕ) (id : EventId) (filters : Option (List RelationType)) :
    Option (Except StoreError (List Event)) :=
  match store id filters with
  | .error e => some (.error e)
  | .ok related =>
    (relatedLoop eventId (fun id => store id filters) fuel [id] (pushIds eventId related []) related).map
      fun r => r.map fun related => (sortByPosition eventOrder related).map Prod.fst

end Program

/-! ## What the store answers -/

/-- The event that an event relates to, when its relation type passes the filters. -/
def target (relation : Event → Option (EventId × RelationType))
    (filters : Option (List RelationType)) (r : Row Event) :
    Option EventId :=
  match relation r.1 with
  | none => none
  | some (id, relType) => if filters.all (relType ∈ ·) then some id else none

/-- **The store answers with exactly the stored events that relate to an event**, in any order. -/
def Answers (stored : List (Row Event)) (relation : Event → Option (EventId × RelationType))
    (store : EventId → Option (List RelationType) → Except StoreError (List (Row Event))) : Prop :=
  ∀ id filters, ∃ rows, store id filters = .ok rows ∧
    rows.Perm (Worklist.pointingTo stored (target relation filters) id)

/-- Events without a position come first, and the others as they stand in the linked chunk. -/
def InOrder (order : List (Position × Event)) (x y : Row Event) : Prop :=
  match x.2, y.2 with
  | none, _ => True
  | some _, none => False
  | some p, some q => ∃ i j : ℕ, order[i]? = some (p, x.1) ∧ order[j]? = some (q, y.1) ∧ i ≤ j

/-! ## The order -/

section Order

variable (eventOrder : Position → Option ℕ)

/-- Where a position is sorted: nothing, a position without an order, then the order. -/
def rank : Option Position → ℕ
  | none => 0
  | some p =>
    match eventOrder p with
    | none => 1
    | some i => i + 2

lemma comparePositions_eq (p q : Option Position) :
    comparePositions eventOrder p q = compare (rank eventOrder p) (rank eventOrder q) := by
  have hcompare : ∀ i j : ℕ, compare i j = compare (i + 2) (j + 2) := fun i j => by
    simp only [Nat.compare_eq_ite_lt, Nat.add_lt_add_iff_right]
  have hlt : ∀ {i j : ℕ}, i < j → Ordering.lt = compare i j := fun h => (Nat.compare_eq_lt.2 h).symm
  have hgt : ∀ {i j : ℕ}, j < i → Ordering.gt = compare i j := fun h => (Nat.compare_eq_gt.2 h).symm
  cases p with
  | none =>
    cases q with
    | none => rfl
    | some q =>
      refine hlt ?_
      simp only [rank]
      split <;> omega
  | some p =>
    cases q with
    | none =>
      refine hgt ?_
      simp only [rank]
      split <;> omega
    | some q =>
      simp only [comparePositions, rank]
      cases eventOrder p with
      | none =>
        cases eventOrder q with
        | none => rfl
        | some j => exact hlt (by simp only; omega)
      | some i =>
        cases eventOrder q with
        | none => exact hgt (by simp only; omega)
        | some j => exact hcompare i j

lemma pairwise_sortByPosition (related : List (Row Event)) :
    (sortByPosition eventOrder related).Pairwise fun x y => rank eventOrder x.2 ≤ rank eventOrder y.2 := by
  have hrel : ∀ x y : Row Event, comparePositions eventOrder x.2 y.2 ≠ .gt ↔
    rank eventOrder x.2 ≤ rank eventOrder y.2 := by
    intro x y
    rw [comparePositions_eq, ne_eq, Nat.compare_eq_gt, not_lt]
  have htotal : Std.Total fun x y : Row Event => comparePositions eventOrder x.2 y.2 ≠ .gt :=
    ⟨fun x y => by simpa only [hrel] using le_total _ _⟩
  have htrans : IsTrans (Row Event) fun x y => comparePositions eventOrder x.2 y.2 ≠ .gt :=
    ⟨fun x y z => by simpa only [hrel] using le_trans⟩
  exact (List.pairwise_insertionSort _ related).imp fun h => (hrel _ _).1 h

lemma perm_sortByPosition (related : List (Row Event)) : (sortByPosition eventOrder related).Perm related :=
  List.perm_insertionSort _ related

end Order

/-! ## The closure -/

section Closure

variable {eventId : Event → Option EventId} {stored : List (Row Event)}
  {relation : Event → Option (EventId × RelationType)}
  {store : EventId → Option (List RelationType) → Except StoreError (List (Row Event))}
  {filters : Option (List RelationType)} {start : EventId}

/-- The invariant of the loop. -/
abbrev LoopInv (eventId : Event → Option EventId) (stored : List (Row Event))
    (relation : Event → Option (EventId × RelationType)) (filters : Option (List RelationType))
    (start : EventId) :=
  Worklist.Inv stored (target relation filters) (fun r => eventId r.1) start

omit [DecidableEq EventId] in
lemma mem_pushIds {related : List (Row Event)} {stack : List EventId} {id : EventId} :
    id ∈ pushIds eventId related stack ↔ (∃ r ∈ related, eventId r.1 = some id) ∨ id ∈ stack := by
  simp [pushIds]

omit [DecidableEq EventId] in
lemma length_pushIds_le (eventId : Event → Option EventId) (related : List (Row Event))
    (stack : List EventId) :
    (pushIds eventId related stack).length ≤ related.length + stack.length := by
  rw [pushIds, List.length_append, List.length_reverse]
  exact Nat.add_le_add_right (List.length_filterMap_le _ _) _

/-- **The loop ends**, with the invariant and an empty stack. Every identifier that is pushed
belongs to an event that is collected, so the stack and the events that are not collected yet bound
the number of rounds. -/
lemma relatedLoop_ends (hstore : Answers stored relation store) {fuel : ℕ} {seen stack : List EventId}
    {related : List (Row Event)} (h : LoopInv eventId stored relation filters start seen stack related)
    (hfuel : stack.length + (stored.length - related.length) < fuel) :
    ∃ seen' collected, relatedLoop eventId (fun id => store id filters) fuel seen stack related =
      some (.ok collected) ∧ LoopInv eventId stored relation filters start seen' [] collected := by
  induction fuel generalizing seen stack related with
  | zero => omega
  | succ fuel ih =>
    cases stack with
    | nil => exact ⟨seen, related, rfl, h⟩
    | cons id stack =>
      rw [List.length_cons] at hfuel
      rw [relatedLoop]
      split
      next hseen => exact ih (h.skip hseen) (by omega)
      next hnew =>
        obtain ⟨rows, hrows, hperm⟩ := hstore id filters
        have h' := h.expand hnew hperm fun id' => mem_pushIds
        have hlen := length_pushIds_le eventId rows stack
        have hle := h'.length_le
        rw [List.length_append] at hle
        simp only [hrows]
        exact ih h' (by rw [List.length_append]; omega)

end Closure

/-! ## What is returned -/

section Spec

variable {Gap : Type} {cap : ℕ} {s : LinkedChunk Event Gap} {tracker : OrderTracker}
  {unloaded rest : List (PlainChunk Event Gap)} {eventOrder : Position → Option ℕ}

lemma eventOrder_of_getElem (h : LinkedChunk.Ordered cap unloaded s tracker) (hloaded : s.loaded = .ok rest)
    (horder : ∀ position, tracker.ordering s position = .ok (eventOrder position)) {i : ℕ}
    {p : Position} {event : Event}
    (hi : (positioned (unloaded ++ rest))[i]? = some (p, event)) : eventOrder p = some i := by
  obtain ⟨a, hreads, -, hn, hmapper⟩ := h
  cases hloaded.symm.trans (LinkedChunk.loaded_eq hreads.repr)
  have hp := horder p
  rw [hreads.ordering_eq, hmapper, orderingFrom_lengths hn, indexOf_eq_some hn hi] at hp
  exact ((Except.ok.inj hp).symm.trans (by simp))

lemma inOrder_of_rank {order : List (Position × Event)} {x y : Row Event}
    (hindex : ∀ i p event, order[i]? = some (p, event) → eventOrder p = some i)
    (hx : ∀ p, x.2 = some p → (p, x.1) ∈ order) (hy : ∀ p, y.2 = some p → (p, y.1) ∈ order)
    (hle : rank eventOrder x.2 ≤ rank eventOrder y.2) : InOrder order x y := by
  obtain ⟨x, p⟩ := x
  obtain ⟨y, q⟩ := y
  cases p with
  | none => trivial
  | some p =>
    obtain ⟨i, hi⟩ := List.mem_iff_getElem?.1 (hx p rfl)
    cases q with
    | none => simp [rank, hindex i p x hi] at hle
    | some q =>
      obtain ⟨j, hj⟩ := List.mem_iff_getElem?.1 (hy q rfl)
      refine ⟨i, j, hi, hj, ?_⟩
      simpa [rank, hindex i p x hi, hindex j q y hj] using hle

open scoped Classical in
/-- **The related events are the transitive closure.** The store answers with the stored events that
relate to an event, and their positions are current. Then `find_event_relations` ends, and returns
each stored event that is reached by one or more relations exactly once and no other event, those
without a position first and the others in the order of the linked chunk. The relations may form
circles. -/
theorem findEventRelations_closure (eventId : Event → Option EventId) {stored : List (Row Event)}
    {relation : Event → Option (EventId × RelationType)}
    {store : EventId → Option (List RelationType) → Except StoreError (List (Row Event))}
    (hstore : Answers stored relation store) (h : LinkedChunk.Ordered cap unloaded s tracker)
    (hloaded : s.loaded = .ok rest) (horder : ∀ position, tracker.ordering s position =
      .ok (eventOrder position))
    (hcurrent : ∀ r ∈ stored, ∀ p, r.2 = some p → (p, r.1) ∈ positioned (unloaded ++ rest))
    (start : EventId) (filters : Option (List RelationType)) {fuel : ℕ} (hfuel : stored.length < fuel) :
    ∃ rows : List (Row Event), findEventRelations eventId store eventOrder fuel start filters =
      some (.ok (rows.map Prod.fst)) ∧ rows.Perm (stored.filter fun r =>
        Worklist.Reach stored (target relation filters) (fun r => eventId r.1) start r) ∧
      rows.Pairwise (InOrder (positioned (unloaded ++ rest))) := by
  obtain ⟨related, hrelated, hperm⟩ := hstore start filters
  have hinit : LoopInv eventId stored relation filters start [start] (pushIds eventId related []) related :=
    Worklist.Inv.init hperm fun id => by simp [mem_pushIds]
  have hlen := length_pushIds_le eventId related []
  have hle := hinit.length_le
  rw [List.length_nil, Nat.add_zero] at hlen
  obtain ⟨seen, collected, hloop, hinv⟩ := relatedLoop_ends hstore hinit (show _ < fuel by omega)
  have hsort := perm_sortByPosition eventOrder collected
  refine ⟨sortByPosition eventOrder collected, ?_, hsort.trans hinv.done, ?_⟩
  · simp only [findEventRelations, hrelated, hloop, Option.map_some]
    rfl
  · have hstored : ∀ r ∈ sortByPosition eventOrder collected, r ∈ stored := fun r hr =>
      (List.mem_filter.1 (hinv.done.mem_iff.1 (hsort.mem_iff.1 hr))).1
    refine (pairwise_sortByPosition eventOrder collected).imp_of_mem fun {x y} hx hy hle => ?_
    exact inOrder_of_rank (fun i p event hi => eventOrder_of_getElem h hloaded horder hi)
      (hcurrent x (hstored x hx)) (hcurrent y (hstored y hy)) hle

/-- The events `1`, `2` and `3` relate to each other in a circle, and an event without a position
relates to `3`. -/
def circle : List (Row ℕ) := [(1, some ⟨⟨0⟩, 0⟩), (2, some ⟨⟨0⟩, 1⟩), (3, some ⟨⟨1⟩, 0⟩), (9, none)]

def circleRelation : ℕ → Option (ℕ × Unit)
  | 1 => some (3, ())
  | 2 => some (1, ())
  | 3 => some (2, ())
  | _ => some (3, ())

def circleStore (id : ℕ) (filters : Option (List Unit)) : Except Unit (List (Row ℕ)) :=
  .ok (Worklist.pointingTo circle (target circleRelation filters) id)

open scoped Classical in
/-- The events of the circle lie in two chunks, the first of which is not in memory. -/
theorem findEventRelations_closure_circle :
    ∃ s tracker s₁, ∃ rows : List (Row ℕ),
      LinkedChunk.fromLastChunk 2 (some (⟨.items [3], some ⟨0⟩, ⟨1⟩, none⟩ : RawChunk ℕ Char)) ⟨1⟩ =
        .ok (some s) ∧
      s.orderTracker (some [⟨2, none, ⟨0⟩, some ⟨1⟩⟩, ⟨1, some ⟨0⟩, ⟨1⟩, none⟩]) = .ok (some tracker, s₁) ∧
      findEventRelations some circleStore (fun p => OrderTracker.orderingFrom p 0 tracker.mapper.chunks) 5 1 none =
        some (.ok (rows.map Prod.fst)) ∧
      rows.Perm (circle.filter fun r =>
        Worklist.Reach circle (target circleRelation none) (fun r => some r.1) 1 r) := by
  obtain ⟨s, tracker, s₁, hs, ht, hloaded⟩ : ∃ s tracker s₁,
      LinkedChunk.fromLastChunk 2 (some (⟨.items [3], some ⟨0⟩, ⟨1⟩, none⟩ : RawChunk ℕ Char)) ⟨1⟩ =
        .ok (some s) ∧
      s.orderTracker (some [⟨2, none, ⟨0⟩, some ⟨1⟩⟩, ⟨1, some ⟨0⟩, ⟨1⟩, none⟩]) = .ok (some tracker, s₁) ∧
      s₁.loaded = .ok [⟨⟨1⟩, .items [3]⟩] := ⟨_, _, _, rfl, rfl, rfl⟩
  have htracked : LinkedChunk.Tracked 2 [⟨⟨0⟩, .items [1, 2]⟩] s₁ tracker :=
    .fromLastChunk (c := ⟨⟨1⟩, .items [3]⟩) (by decide) (by decide) (by decide) rfl rfl hs ht
  have horder : ∀ p, tracker.ordering s₁ p = .ok (OrderTracker.orderingFrom p 0 tracker.mapper.chunks) := by
    obtain ⟨a, hreads, -⟩ := htracked.ordered
    exact hreads.ordering_eq
  have hstore : Answers circle circleRelation circleStore := fun id filters => ⟨_, rfl, List.Perm.refl _⟩
  obtain ⟨rows, hrows, hperm, -⟩ := findEventRelations_closure some hstore htracked.ordered hloaded horder (by decide)
    1 none (show circle.length < 5 by decide)
  exact ⟨s, tracker, s₁, rows, hs, ht, hrows, hperm⟩

end Spec

end HaranaMatrix.EventCache.Relations
