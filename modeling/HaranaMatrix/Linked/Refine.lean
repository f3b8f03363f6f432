import HaranaMatrix.Lib.Sim
import HaranaMatrix.Linked.Chain

/-!
# The pointer program does what the list operations say

`Cells s cs` says that the heap of `s` is the one chain `cs`, with its ends where `links` has them, and
`Repr s a` that this chain holds the chunks of `a`. Each operation of `LinkedChunk` is simulated by the
operation of `Chain` with its name: same fault, same result, related states, and the updates of the
one are those that the other pushes.
-/

namespace HaranaMatrix.Linked

open HaranaMatrix.DList

variable {Item Gap : Type}

/-! ## Emitted updates -/

/-- One update reaches the buffer of updates. `Clear` empties what is pending first. -/
def emitOne (inner : UpdatesInner (Update Item Gap)) (u : Update Item Gap) : UpdatesInner (Update Item Gap) :=
  match u with
  | .clear => inner.clearPending.push .clear
  | u => inner.push u

variable (updates : Option (UpdatesInner (Update Item Gap)))

def emit (us : List (Update Item Gap)) : Option (UpdatesInner (Update Item Gap)) :=
  updates.map fun inner => us.foldl emitOne inner

@[simp] lemma emit_nil : emit updates [] = updates := by
  cases updates <;> rfl

@[simp] lemma emit_emit (us vs : List (Update Item Gap)) :
    emit (emit updates us) vs = emit updates (us ++ vs) := by
  cases updates <;> simp [emit]

namespace LinkedChunk

variable {s s' : LinkedChunk Item Gap} {a : Chain Item Gap} {cs pre post : List (Ptr × ChunkData Item Gap)}
  {ls : List (Ptr × Node (ChunkData Item Gap))} {p q new : Ptr} {c d dn : ChunkData Item Gap} {cap : ℕ}

/-- The chunks of a list of cells. -/
abbrev dataOf (cs : List (Ptr × ChunkData Item Gap)) : List (ChunkData Item Gap) := cs.map Prod.snd

lemma push_eq (u : Update Item Gap) (hu : u ≠ .clear) : s.push u = { s with updates := emit s.updates [u] } := by
  cases u <;> first | rfl | exact absurd rfl hu

/-! ## What the pieces of a chunk do -/

lemma lastId_dataOf_concat (pre : List (Ptr × ChunkData Item Gap)) (x : Ptr × ChunkData Item Gap) :
    lastId (dataOf (pre ++ [x])) = some x.2.identifier := by
  simp [lastId]

lemma identifierAt_last (hr : Rep s.heap (pre ++ post) ls) :
    s.identifierAt (lastPtr pre none) = .ok (lastId (dataOf pre)) := by
  rcases List.eq_nil_or_concat' pre with rfl | ⟨pre, x, rfl⟩
  · rfl
  · have hr' : Rep s.heap (pre ++ (x.1, x.2) :: post) ls := by simpa using hr
    rw [lastId_dataOf_concat, lastPtr_append]
    simp only [lastPtr, identifierAt, hr'.cell, deref]
    rfl

lemma identifierAt_head (hr : Rep s.heap (pre ++ post) ls) :
    s.identifierAt (headPtr post none) = .ok (headId (dataOf post)) := by
  cases post with
  | nil => rfl
  | cons x post =>
    have hr' : Rep s.heap (pre ++ (x.1, x.2) :: post) ls := hr
    simp only [headPtr, identifierAt, hr'.cell, deref]
    rfl

lemma modifyData_eq {n : Node (ChunkData Item Gap)} (hp : s.heap.cells p = some n)
    (f : ChunkData Item Gap → ChunkData Item Gap) :
    s.modifyData p f = .ok { s with heap := s.heap.set p { n with data := f n.data } } := by
  simp only [modifyData, Heap.modify_eq hp, deref]
  rfl

lemma modifyData_spec (hr : Rep s.heap (pre ++ (p, d) :: post) ls)
    (f : ChunkData Item Gap → ChunkData Item Gap) :
    ∃ h, s.modifyData p f = .ok { s with heap := h } ∧ Rep h (pre ++ (p, f d) :: post) ls :=
  ⟨_, modifyData_eq hr.cell f, hr.setData (f d)⟩

lemma modifyData_loose {n : Node (ChunkData Item Gap)} (hr : Rep s.heap cs ((p, n) :: ls))
    (f : ChunkData Item Gap → ChunkData Item Gap) :
    ∃ h, s.modifyData p f = .ok { s with heap := h } ∧
      Rep h cs ((p, { n with data := f n.data }) :: ls) :=
  ⟨_, modifyData_eq (hr.loose (p, n) (by simp)) f, hr.setLoose _⟩

lemma newLeaked_spec (hr : Rep s.heap cs ls) (identifier : ChunkIdentifier)
    (content : ChunkContent Item Gap) :
    ∃ new h, s.newLeaked identifier content = (new, { s with heap := h }) ∧
      Rep h cs ((new, ⟨none, none, ⟨none, identifier, content⟩⟩) :: ls) :=
  ⟨_, _, rfl, hr.alloc _⟩

section

variable (hr : Rep s.heap (pre ++ (p, d) :: post) ((new, ⟨none, none, dn⟩) :: ls))
include hr

/-- **`insert_next`** on a chain. -/
lemma insertNext_spec :
    ∃ h, s.insertNext p new = .ok { s with
        heap := h
        updates := emit s.updates [newChunkUpdate (some d.identifier) dn.identifier (headId (dataOf post)) dn.content] } ∧
      Rep h (pre ++ (p, d) :: (new, dn) :: post) ls := by
  obtain ⟨h, hh, hr'⟩ := hr.linkAfter
  refine ⟨h, ?_, hr'⟩
  have hr1 : Rep ({ s with heap := h } : LinkedChunk Item Gap).heap
      ((pre ++ [(p, d)]) ++ (new, dn) :: post) ls := by simpa using hr'
  have hr2 : Rep ({ s with heap := h } : LinkedChunk Item Gap).heap
      ((pre ++ [(p, d), (new, dn)]) ++ post) ls := by simpa using hr'
  have hcell : h.cells new = some ⟨lastPtr (pre ++ [(p, d)]) none, headPtr post none, dn⟩ := hr1.cell
  simp only [insertNext, hh, hcell, deref, ok_bind, identifierAt_last hr1, identifierAt_head hr2,
    lastId_dataOf_concat]
  rw [push_eq _ (by cases dn.content <;> simp [newChunkUpdate])]

/-- **`insert_before`** on a chain: a new first chunk takes over the `lazy_previous` of the old
one. -/
lemma insertBefore_spec
    (hdn : dn.lazyPrevious = none) :
    ∃ h, s.insertBefore p new = .ok { s with
        heap := h
        updates := emit s.updates
          [newChunkUpdate ((lastId (dataOf pre)).or (if pre = [] then d.lazyPrevious else none))
            dn.identifier (some d.identifier) dn.content] } ∧
      Rep h (pre ++ (new, { dn with lazyPrevious := if pre = [] then d.lazyPrevious else none }) ::
        (p, if pre = [] then { d with lazyPrevious := none } else d) :: post) ls := by
  -- the state once `lazy_previous` has moved
  obtain ⟨h0, hs0, hr0⟩ : ∃ h0,
      s.moveLazyPrevious p new ⟨lastPtr pre none, headPtr post none, d⟩ = .ok { s with heap := h0 } ∧
      Rep h0 (pre ++ (p, if pre = [] then { d with lazyPrevious := none } else d) :: post)
        ((new, ⟨none, none, { dn with lazyPrevious := if pre = [] then d.lazyPrevious else none }⟩) :: ls) := by
    rcases List.eq_nil_or_concat' pre with rfl | ⟨pre, x, rfl⟩
    · obtain ⟨h1, hs1, hr1⟩ := modifyData_loose hr fun e => { e with lazyPrevious := d.lazyPrevious }
      obtain ⟨h2, hs2, hr2⟩ := modifyData_spec (s := { s with heap := h1 }) hr1
        fun e => { e with lazyPrevious := none }
      exact ⟨h2, by simp only [moveLazyPrevious, lastPtr, setLazyPrevious, hs1, hs2, ok_bind], by simpa using hr2⟩
    · refine ⟨s.heap, by simp [moveLazyPrevious, lastPtr], ?_⟩
      have hdn' : { dn with lazyPrevious := none } = dn := by rw [← hdn]
      simpa [hdn'] using hr
  obtain ⟨h, hh, hr'⟩ := hr0.linkBefore
  refine ⟨h, ?_, hr'⟩
  have hcell := hr'.cell
  have hr2 : Rep ({ s with heap := h } : LinkedChunk Item Gap).heap ((pre ++
      [(new, { dn with lazyPrevious := if pre = [] then d.lazyPrevious else none })]) ++
        (p, if pre = [] then { d with lazyPrevious := none } else d) :: post) ls := by simpa using hr'
  have hid : (if pre = [] then { d with lazyPrevious := none } else d).identifier = d.identifier := by
    split <;> rfl
  simp only [insertBefore, hr.cell, deref, ok_bind, hs0, hh, hcell,
    identifierAt_last (s := { s with heap := h }) hr', identifierAt_head hr2]
  rw [push_eq _ (by cases dn.content <;> simp [newChunkUpdate])]
  simp [headId, hid]

end

/-- The cells after a removed one: the first of them inherits its `lazy_previous`. -/
def passCells (lazyPrevious : Option ChunkIdentifier) :
    List (Ptr × ChunkData Item Gap) → List (Ptr × ChunkData Item Gap)
  | [] => []
  | x :: cs => (x.1, { x.2 with lazyPrevious := lazyPrevious }) :: cs

section

variable (l : Option ChunkIdentifier)
include l

variable (cs)

@[simp] lemma dataOf_passCells : dataOf (passCells l cs) = passLazy l (dataOf cs) := by
  cases cs <;> rfl

@[simp] lemma headPtr_passCells (b : Option Ptr) : headPtr (passCells l cs) b = headPtr cs b := by
  cases cs <;> rfl

@[simp] lemma lastPtr_passCells (b : Option Ptr) : lastPtr (passCells l cs) b = lastPtr cs b := by
  cases cs <;> rfl

variable {cs}

end

/-- **`unlink`** on a chain. -/
lemma unlink_spec (hr : Rep s.heap (pre ++ (p, d) :: post) ls) :
    ∃ h, s.unlink p = .ok { s with
        heap := h, updates := emit s.updates [.removeChunk d.identifier] } ∧
      Rep h (pre ++ passCells d.lazyPrevious post)
        ((p, ⟨lastPtr pre none, headPtr post none, { d with lazyPrevious := none }⟩) :: ls) := by
  obtain ⟨h1, hs1, hr1⟩ := modifyData_spec hr fun e => { e with lazyPrevious := none }
  obtain ⟨h2, hs2, hr2⟩ := hr1.unlink
  simp only [LinkedChunk.unlink, hr.cell, deref, ok_bind, setLazyPrevious, hs1, hs2]
  cases post with
  | nil =>
    refine ⟨h2, ?_, hr2⟩
    simp only [headPtr, push_eq _ (show Update.removeChunk d.identifier ≠ .clear by simp)]
  | cons x post =>
    obtain ⟨h3, hs3, hr3⟩ := modifyData_spec (s := { s with heap := h2 }) (p := x.1) (d := x.2) hr2
      fun e => { e with lazyPrevious := d.lazyPrevious }
    refine ⟨h3, ?_, hr3⟩
    simp only [headPtr, hs3, ok_bind, push_eq _ (show Update.removeChunk d.identifier ≠ .clear by simp)]

/-! ## `push_items` -/

/-- What a push on the chunk at `p`, between `pre` and `post`, leaves behind. -/
def PushRel (s : LinkedChunk Item Gap) (pre : List (Ptr × ChunkData Item Gap)) (p : Ptr)
    (post : List (Ptr × ChunkData Item Gap)) (ls : List (Ptr × Node (ChunkData Item Gap)))
    (x : Ptr × LinkedChunk Item Gap) (r : Pushed Item Gap) : Prop :=
  ∃ cells h,
    x.2 = { s with
      heap := h, chunkIdentifierGenerator := r.generator, updates := emit s.updates r.updates } ∧
    Rep h (pre ++ cells ++ (x.1, r.last) :: post) ls ∧
    dataOf cells = r.done ∧ headPtr cells (some x.1) = some p

/-- What a new chunk after the chunk at `p` leaves behind. -/
def NewRel (s : LinkedChunk Item Gap) (pre : List (Ptr × ChunkData Item Gap)) (p : Ptr)
    (d : ChunkData Item Gap) (content : ChunkContent Item Gap)
    (post : List (Ptr × ChunkData Item Gap)) (ls : List (Ptr × Node (ChunkData Item Gap)))
    (x : Ptr × LinkedChunk Item Gap) (y : ChunkIdentifier × ChunkIdentifierGenerator) : Prop :=
  ∃ h,
    x.2 = { s with
      heap := h
      chunkIdentifierGenerator := y.2
      updates := emit s.updates [newChunkUpdate (some d.identifier) y.1 (headId (dataOf post)) content] } ∧
    Rep h (pre ++ (p, d) :: (x.1, ⟨none, y.1, content⟩) :: post) ls

lemma insertNextNew_sim (hr : Rep s.heap (pre ++ (p, d) :: post) ls) (content : ChunkContent Item Gap) :
    Sim (NewRel s pre p d content post ls) (s.insertNextNew p content) s.chunkIdentifierGenerator.next := by
  unfold insertNextNew newChunkLeaked
  cases s.chunkIdentifierGenerator.next with
  | error e => exact .error e
  | ok x =>
    obtain ⟨new, h1, hs1, hr1⟩ := newLeaked_spec (s := { s with chunkIdentifierGenerator := x.2 })
      hr x.1 content
    obtain ⟨h2, hs2, hr2⟩ := insertNext_spec (s := { s with
      heap := h1, chunkIdentifierGenerator := x.2 }) hr1
    simp only [ok_bind, hs1, hs2]
    exact .ok ⟨h2, rfl, hr2⟩

lemma PushRel.cons {x : Ptr × LinkedChunk Item Gap} {r : Pushed Item Gap} {h : Heap (ChunkData Item Gap)}
    {g : ChunkIdentifierGenerator} {us : List (Update Item Gap)}
    (hp : PushRel { s with heap := h, chunkIdentifierGenerator := g, updates := emit s.updates us }
      (pre ++ [(p, d)]) new post ls x r) :
    PushRel s pre p post ls x { r with done := d :: r.done, updates := us ++ r.updates } := by
  obtain ⟨cells, h', hx, hr, hd, -⟩ := hp
  exact ⟨(p, d) :: cells, h', by simp [hx], by simpa using hr, by simp [hd], rfl⟩

lemma fillFreeSpace_spec {items : List Item} (hr : Rep s.heap (pre ++ (p, d) :: post) ls)
    (hd : d.content = .items items) (freeSpace : ℕ) (newItems : List Item) :
    ∃ h, s.fillFreeSpace p d.identifier items freeSpace newItems = .ok { s with
        heap := h
        updates := emit s.updates (if 0 < freeSpace then
          [.pushItems ⟨d.identifier, items.length⟩ (newItems.take freeSpace)] else []) } ∧
      Rep h (pre ++ (p, { d with content := .items (items ++ newItems.take freeSpace) }) :: post) ls := by
  unfold fillFreeSpace
  split
  · obtain ⟨h, hs, hr'⟩ := modifyData_spec hr fun e =>
      { e with content := .items (items ++ newItems.take freeSpace) }
    refine ⟨h, ?_, hr'⟩
    simp only [setContent, hs, ok_bind]
    rw [push_eq _ (by simp)]
  · obtain rfl : freeSpace = 0 := by omega
    refine ⟨s.heap, by simp, ?_⟩
    rw [List.take_zero, List.append_nil, ← hd]
    exact hr

/-- **`push_items` is `pushChunks`.** The induction is on the bound of the recursion. -/
theorem pushItems_sim (cap fuel : ℕ) (items : List Item) (hr : Rep s.heap (pre ++ (p, d) :: post) ls) :
    Sim (PushRel s pre p post ls) (s.pushItems cap fuel p items)
      (pushChunks cap (headId (dataOf post)) fuel s.chunkIdentifierGenerator d items) := by
  induction fuel generalizing s pre p d items with
  | zero => exact .error _
  | succ fuel ih =>
    simp only [pushItems, pushChunks]
    split
    · exact .ok ⟨[], s.heap, by simp, by simpa using hr, rfl, rfl⟩
    simp only [hr.cell, deref, ok_bind]
    cases hd : d.content with
    | gap gap =>
      refine (insertNextNew_sim hr (.items [])).bind fun x y ⟨h, hx, hr'⟩ => ?_
      have hr1 : Rep h ((pre ++ [(p, d)]) ++ (x.1, ⟨none, y.1, .items []⟩) :: post) ls := by simpa using hr'
      rw [hx]
      exact (ih (s := { s with
        heap := h, chunkIdentifierGenerator := y.2, updates := emit s.updates _ }) items hr1).bind_right
        fun x r hx => hx.cons
    | items current =>
      simp only
      split
      · obtain ⟨h, hs, hr'⟩ := modifyData_spec hr fun e => { e with content := .items (current ++ items) }
        refine Sim.bind_left hs (.ok ⟨[], h, ?_, by simpa using hr', rfl, rfl⟩)
        rw [push_eq _ (by simp)]
      · obtain ⟨h0, hs0, hr0⟩ := fillFreeSpace_spec hr hd (cap - current.length) items
        refine Sim.bind_left hs0 ?_
        refine (insertNextNew_sim (s := { s with heap := h0, updates := emit s.updates _ }) hr0
          (.items [])).bind fun x y ⟨h, hx, hr'⟩ => ?_
        have hr1 : Rep h ((pre ++ [(p, { d with
            content := .items (current ++ items.take (cap - current.length)) })]) ++
            (x.1, ⟨none, y.1, .items []⟩) :: post) ls := by simpa using hr'
        simp only [emit_emit] at hx
        rw [hx]
        refine (ih (s := { s with heap := h, chunkIdentifierGenerator := y.2, updates := emit s.updates _ })
          (items.drop (cap - current.length)) hr1).bind_right fun x r hx => ?_
        simpa [newChunkUpdate] using hx.cons

end LinkedChunk

end HaranaMatrix.Linked
