import HaranaMatrix.Linked.Tables
import HaranaMatrix.Linked.Reader
import HaranaMatrix.Linked.Sequence

/-!
# The updates of a linked chunk, replayed on a store

A store follows an update when the items that are linked afterwards have distinct identifiers.
Between two updates of one operation the items are some of those before it or some of those after
it, so it is enough that they are distinct before and after every operation. -/

namespace HaranaMatrix.Linked

open List

variable {Item Gap : Type}

/-! ## What an update does to the items -/

/-- The updates that take no item away. -/
def Update.Adds : Update Item Gap → Prop
  | .removeItem _ | .replaceItem _ _ => False
  | _ => True

/-- The updates that bring no item in. -/
def Update.Drops : Update Item Gap → Prop
  | .pushItems _ _ | .replaceItem _ _ => False
  | _ => True

section Labels

variable {base : Option ChunkIdentifier} {cap limit : ℕ} {e e' : Edit Item Gap} {u : Update Item Gap}
  {us : List (Update Item Gap)}

lemma Step.sublist_of_adds (h : Step base cap limit e u e') (hu : u.Adds) : e.items.Sublist e'.items := by
  cases h with
  | newChunk _ _ _ _ hempty | removeChunk _ _ _ hempty | newChunkDetached _ _ _ _ _ _ _ hempty =>
    simp [Edit.items, ChunkContent.toItems_eq_nil hempty]
  | replaceItem | removeItem => exact hu.elim
  | pushItems pre post id xs new =>
    simp only [Edit.items, flatten_append, flatten_cons, ChunkContent.toItems_items]
    exact (((sublist_append_left xs new).append_right _).append_left _)
  | pushItemsDetached pre post id xs new rest =>
    exact (((sublist_append_left xs new).append_left _).append_right _).append_right _
  | detachLastItems | startReattachItems | pushItemsReattached | endReattachItems => simp [Edit.items]

lemma Step.sublist_of_drops (h : Step base cap limit e u e') (hu : u.Drops) : e'.items.Sublist e.items := by
  cases h with
  | newChunk _ _ _ _ hempty | removeChunk _ _ _ hempty | newChunkDetached _ _ _ _ _ _ _ hempty =>
    simp [Edit.items, ChunkContent.toItems_eq_nil hempty]
  | replaceItem | pushItems | pushItemsDetached | pushItemsReattached => exact hu.elim
  | removeItem pre post id xs i =>
    simp only [Edit.items, flatten_append, flatten_cons, ChunkContent.toItems_items]
    exact (((eraseIdx_sublist xs i).append_right _).append_left _)
  | detachLastItems | startReattachItems | endReattachItems => simp [Edit.items]

lemma Steps.sublist_of_adds (h : Steps base cap limit e us e') (hus : ∀ u ∈ us, u.Adds) :
    e.items.Sublist e'.items := by
  induction h with
  | nil => exact .refl _
  | cons hs _ ih =>
    obtain ⟨hu, hus⟩ := forall_mem_cons.1 hus
    exact (hs.sublist_of_adds hu).trans (ih hus)

lemma Edit.flatten_chunks_sublist (e : Edit Item Gap) : (flatten e.chunks).Sublist e.items := by
  cases e with
  | settled cs => exact .refl _
  | detached pre cur post rest r =>
    simp only [Edit.chunks, Edit.items, flatten_append, flatten_cons, append_assoc]
    exact ((sublist_append_right rest _).append_left _).append_left _

lemma PushRun.adds {next : Option ChunkIdentifier} {g : ChunkIdentifierGenerator} {c : ChunkData Item Gap}
    {items : List Item} {r : Pushed Item Gap} (h : PushRun cap next g c items r) :
      ∀ u ∈ r.updates, u.Adds := by
  induction h with
  | done => simp
  | fits => simp [Update.Adds]
  | fills _ _ _ _ _ _ _ _ _ ih => simpa [Update.Adds] using ih
  | opens _ _ _ _ _ ih => simpa [Update.Adds] using ih

end Labels

/-! ### The updates of an operation -/

namespace Chain

variable {cap : ℕ} {a : Chain Item Gap}

lemma touch_adds (a : Chain Item Gap) : ∀ u ∈ a.touch.2, u.Adds := by
  obtain ⟨_ | ⟨c, cs⟩, g⟩ := a <;> simp [touch, Update.Adds]

lemma touch_drops (a : Chain Item Gap) : ∀ u ∈ a.touch.2, u.Drops := by
  obtain ⟨_ | ⟨c, cs⟩, g⟩ := a <;> simp [touch, Update.Drops]

/-- What the updates of an operation do to the items: they only add some, they only take some away,
or the last one replaces one item. -/
def Labels (us : List (Update Item Gap)) : Prop :=
  (∀ u ∈ us, u.Adds) ∨ (∀ u ∈ us, u.Drops) ∨
    ∃ vs position item, us = vs ++ [.replaceItem position item] ∧ ∀ u ∈ vs, u.Drops

lemma insertItemsAt_adds {position : Position} {items : List Item} {y}
    (hs : a.insertItemsAt cap position items = .ok y) : ∀ u ∈ y.2.2, u.Adds := by
  unfold insertItemsAt at hs
  simp only at hs
  split at hs
  · cases hs
    exact a.touch_adds
  split at hs
  · cases hs
    exact a.touch_adds
  split at hs
  · cases hs
    exact a.touch_adds
  split at hs
  · obtain ⟨r, hr, hs⟩ := bind_eq_ok hs
    cases hs
    exact forall_mem_append.2 ⟨a.touch_adds, (pushRun_of_pushChunks hr).adds⟩
  · obtain ⟨r, hr, hs⟩ := bind_eq_ok hs
    obtain ⟨r', hr', hs⟩ := bind_eq_ok hs
    cases hs
    have h₁ := (pushRun_of_pushChunks hr).adds
    have h₂ := (pushRun_of_pushChunks hr').adds
    simp only [forall_mem_append, forall_mem_cons]
    exact ⟨⟨⟨a.touch_adds, trivial, h₁⟩, trivial, h₂⟩, trivial, by simp⟩

lemma insertGapAt_adds {position : Position} {content : Gap} {y}
    (hs : a.insertGapAt cap content position = .ok y) : ∀ u ∈ y.2.2, u.Adds := by
  unfold insertGapAt at hs
  simp only at hs
  split at hs
  · cases hs
    exact a.touch_adds
  split at hs
  · cases hs
    exact a.touch_adds
  split at hs
  · obtain ⟨x, -, hs⟩ := bind_eq_ok hs
    cases hs
    exact forall_mem_append.2 ⟨a.touch_adds, by simp [Update.Adds]⟩
  split at hs
  · cases hs
    exact a.touch_adds
  obtain ⟨x, -, hs⟩ := bind_eq_ok hs
  obtain ⟨x', -, hs⟩ := bind_eq_ok hs
  obtain ⟨r, hr, hs⟩ := bind_eq_ok hs
  cases hs
  have h₁ := (pushRun_of_pushChunks hr).adds
  simp only [forall_mem_append, forall_mem_cons]
  exact ⟨⟨a.touch_adds, trivial, trivial, trivial, trivial, h₁⟩, trivial, by simp⟩

lemma replaceGapAt_adds {id : ChunkIdentifier} {items : List Item} {y}
    (hs : a.replaceGapAt cap items id = .ok y) : ∀ u ∈ y.2.2, u.Adds := by
  unfold replaceGapAt at hs
  simp only at hs
  split at hs
  · cases hs
    exact a.touch_adds
  split at hs
  · cases hs
    exact a.touch_adds
  obtain ⟨x, -, hs⟩ := bind_eq_ok hs
  obtain ⟨r, hr, hs⟩ := bind_eq_ok hs
  cases hs
  have h₁ := (pushRun_of_pushChunks hr).adds
  simp only [forall_mem_append, forall_mem_cons]
  exact ⟨⟨a.touch_adds, trivial, h₁⟩, trivial, by simp⟩

lemma pushItemsBack_adds {items : List Item} {y} (hs : a.pushItemsBack cap items = .ok y) :
    ∀ u ∈ y.2.2, u.Adds := by
  simp only [pushItemsBack] at hs
  split at hs
  · cases hs
    exact a.touch_adds
  · obtain ⟨r, hr, hs⟩ := bind_eq_ok hs
    cases hs
    exact forall_mem_append.2 ⟨a.touch_adds, (pushRun_of_pushChunks hr).adds⟩

lemma removeItemAt_drops (a : Chain Item Gap) (position : Position) :
    ∀ u ∈ (a.removeItemAt position).2.2, u.Drops := by
  unfold removeItemAt
  simp only
  split
  · exact a.touch_drops
  split
  · exact a.touch_drops
  split
  · exact a.touch_drops
  split <;> exact forall_mem_append.2 ⟨a.touch_drops, by simp [Update.Drops]⟩

lemma replaceItemAt_labels (a : Chain Item Gap) (position : Position) (item : Item) :
    Labels (a.replaceItemAt position item).2.2 := by
  unfold replaceItemAt
  simp only
  split
  · exact .inl a.touch_adds
  split
  · exact .inl a.touch_adds
  split
  · exact .inl a.touch_adds
  · exact .inr (.inr ⟨_, position, item, rfl, a.touch_drops⟩)

lemma removeEmptyChunkAt_adds (a : Chain Item Gap) (id : ChunkIdentifier) :
    ∀ u ∈ (a.removeEmptyChunkAt id).2.2, u.Adds := by
  unfold removeEmptyChunkAt
  simp only
  split
  · exact a.touch_adds
  split
  · exact a.touch_adds
  split
  · exact a.touch_adds
  · exact forall_mem_append.2 ⟨a.touch_adds, by simp [Update.Adds]⟩

lemma step_labels {op : Op Item Gap} (hop : op.IsEdit) {y} (hs : a.step cap op = .ok y) : Labels y.2.2 := by
  cases op with
  | pushItemsBack items =>
    obtain ⟨x, hx, rfl⟩ := map_eq_ok hs
    exact .inl (pushItemsBack_adds hx)
  | pushGapBack content =>
    obtain ⟨x, hx, rfl⟩ := map_eq_ok hs
    obtain ⟨z, -, hz⟩ := bind_eq_ok hx
    cases hz
    exact .inl (forall_mem_append.2 ⟨a.touch_adds, by simp [Update.Adds]⟩)
  | insertItemsAt position items =>
    obtain ⟨x, hx, rfl⟩ := map_eq_ok hs
    exact .inl (insertItemsAt_adds hx)
  | removeItemAt position =>
    cases hs
    exact .inr (.inl (a.removeItemAt_drops position))
  | replaceItemAt position item =>
    cases hs
    exact a.replaceItemAt_labels position item
  | insertGapAt content position =>
    obtain ⟨x, hx, rfl⟩ := map_eq_ok hs
    exact .inl (insertGapAt_adds hx)
  | removeEmptyChunkAt id =>
    cases hs
    exact .inl (a.removeEmptyChunkAt_adds id)
  | replaceGapAt items id =>
    obtain ⟨x, hx, rfl⟩ := map_eq_ok hs
    exact .inl (replaceGapAt_adds hx)
  | observe =>
    cases hs
    exact .inl a.touch_adds
  | clear | insertNewFirstChunk | replaceWith => exact absurd hop id

end Chain

/-! ## Steps that a store follows -/

section StoreStep

variable {ItemId : Type} [IndexableItem Item ItemId] {cap limit : ℕ} {e e' : Edit Item Gap}
  {us : List (Update Item Gap)}

/-- A step after which the items have distinct identifiers, or a `Clear`. -/
inductive StoreStep (cap : ℕ) : Edit Item Gap → Update Item Gap → Edit Item Gap → Prop
  | step {limit : ℕ} {e e' : Edit Item Gap} {u : Update Item Gap} (h : Step none cap limit e u e')
      (hd : (itemIds e'.items).Nodup) : StoreStep cap e u e'
  | clear (cs : List (PlainChunk Item Gap)) : StoreStep cap (.settled cs) .clear (.settled [])

lemma nodup_itemIds_of_sublist {xs ys : List Item} (h : xs.Sublist ys) (hd : (itemIds ys).Nodup) :
    (itemIds xs).Nodup :=
  hd.sublist (h.map _)

section

variable (h : Steps none cap limit e us e')
include h

lemma storeSteps_of_adds (hus : ∀ u ∈ us, u.Adds) (hd : (itemIds e'.items).Nodup) :
    Trace (StoreStep cap) e us e' := by
  induction h with
  | nil => exact .nil _
  | cons hs hrest ih =>
    obtain ⟨-, hus⟩ := forall_mem_cons.1 hus
    exact .cons (.step hs (nodup_itemIds_of_sublist (Steps.sublist_of_adds hrest hus) hd)) (ih hus hd)

lemma storeSteps_of_drops (hus : ∀ u ∈ us, u.Drops) (hd : (itemIds e.items).Nodup) :
    Trace (StoreStep cap) e us e' := by
  induction h with
  | nil => exact .nil _
  | cons hs _ ih =>
    obtain ⟨hu, hus⟩ := forall_mem_cons.1 hus
    have hd' := nodup_itemIds_of_sublist (hs.sublist_of_drops hu) hd
    exact .cons (.step hs hd') (ih hus hd')

/-- **The updates of an operation can be replayed when the items before and after it are
distinct.** -/
theorem storeSteps (hus : Chain.Labels us)
    (hd : (itemIds e.items).Nodup) (hd' : (itemIds e'.items).Nodup) : Trace (StoreStep cap) e us e' := by
  rcases hus with hus | hus | ⟨vs, position, item, rfl, hvs⟩
  · exact storeSteps_of_adds h hus hd'
  · exact storeSteps_of_drops h hus hd
  · obtain ⟨e₁, h₁, h₂⟩ := h.of_append
    cases h₂ with
    | cons hs hnil =>
      cases hnil
      exact (storeSteps_of_drops h₁ hvs hd).concat (.step hs hd')

end

/-! ## The updates on their way -/

/-- **The updates that the main reader of a linked chunk has taken, and those that it has not read
yet, lead from `e` to the chunks in memory.** Between them the chunks are at rest. -/
def Follows (cap : ℕ) (s : LinkedChunk Item Gap) (taken : List (Update Item Gap))
    (e : Edit Item Gap) : Prop :=
  ∃ a q cs, LinkedChunk.Reads cap UpdatesInner.mainReaderToken s a q ∧ Ready none [] a ∧
    (itemIds (flatten (plain a.chunks))).Nodup ∧ Trace (StoreStep cap) e taken (.settled cs) ∧
    Trace (StoreStep cap) (.settled cs) q (.settled (plain a.chunks))

variable {s s' : LinkedChunk Item Gap} {taken : List (Update Item Gap)}

lemma follows_new : Follows cap (.newWithUpdateHistory : LinkedChunk Item Gap) [] (.settled []) :=
  ⟨Chain.new, [], [], ⟨LinkedChunk.repr_newWithUpdateHistory, Chain.wf_new, _, rfl,
    UpdatesInner.inv_new, rfl⟩, ⟨rfl, by simp [Chain.new]⟩, nodup_nil, .nil _, .nil _⟩

section

variable (h : Follows cap s taken e)
include h

lemma Follows.edit {op : Op Item Gap} (hop : op.IsEdit) {r}
    (hs : s.step cap op = .ok (r, s')) {cs : List (PlainChunk Item Gap)} (hloaded : s'.loaded = .ok cs)
    (hd : (itemIds (flatten cs)).Nodup) : Follows cap s' taken e := by
  obtain ⟨a, q, cs₁, hreads, hready, hn, htaken, hqueue⟩ := h
  have hload : s.Loadable op := by cases op <;> trivial
  obtain ⟨y, hy, -, hreads'⟩ := hreads.step hload hs
  have hemitted := step_emitted hop hready hy
  rw [enqueue_steps hemitted.steps] at hreads'
  obtain rfl : plain y.2.1.chunks = cs :=
    Except.ok.inj ((LinkedChunk.loaded_eq hreads'.repr).symm.trans hloaded)
  exact ⟨_, _, cs₁, hreads', hemitted.ready hready, hd, htaken,
    hqueue.append (storeSteps hemitted.steps (Chain.step_labels hop hy) hn hd)⟩

lemma Follows.clear {r} (hs : s.step cap .clear = .ok (r, s')) : Follows cap s' taken e := by
  obtain ⟨a, q, cs, hreads, -, -, htaken, -⟩ := h
  have hload : s.Loadable .clear := trivial
  obtain ⟨y, hy, -, hreads'⟩ := hreads.step hload hs
  cases hy
  exact ⟨Chain.new, [.clear], cs, hreads', ⟨rfl, by simp [Chain.new]⟩, nodup_nil, htaken, .single (.clear cs)⟩

/-- **An operation adds its updates**, when the items are distinct after it. -/
lemma Follows.step {op : Op Item Gap} (hop : op.IsEdit ∨ op = .clear) {r}
    (hs : s.step cap op = .ok (r, s')) {cs : List (PlainChunk Item Gap)} (hloaded : s'.loaded = .ok cs)
    (hd : (itemIds (flatten cs)).Nodup) : Follows cap s' taken e := by
  rcases hop with hop | rfl
  · exact h.edit hop hs hloaded hd
  · exact h.clear hs

lemma Follows.take (ht : s.takeUpdates UpdatesInner.mainReaderToken = .ok (us, s')) :
    Follows cap s' (taken ++ us) e := by
  obtain ⟨a, q, cs, hreads, hready, hn, htaken, hqueue⟩ := h
  obtain ⟨s₁, ht₁, hreads₁⟩ := hreads.take
  obtain ⟨rfl, rfl⟩ := Prod.mk.inj (Except.ok.inj (ht₁.symm.trans ht))
  exact ⟨a, [], plain a.chunks, hreads₁, hready, hn, htaken.append hqueue, .nil _⟩

lemma Follows.other {inner inner' : UpdatesInner (Update Item Gap)}
    {ev : UpdatesInner.Event (Update Item Gap)} {log : List (ℕ × List (Update Item Gap))}
    (hu : s.updates = some inner) (he : ev.IsRead) (hother : ¬ ev.Concerns UpdatesInner.mainReaderToken)
    (hs : inner.step ev = some (inner', log)) : Follows cap { s with updates := some inner' } taken e := by
  obtain ⟨a, q, cs, hreads, hrest⟩ := h
  exact ⟨a, q, cs, hreads.other hu he hother hs, hrest⟩

end

end StoreStep

end HaranaMatrix.Linked
