import HaranaMatrix.Linked.Replay
import HaranaMatrix.Linked.Load

/-!
# The index of the items of a store

Positions are stored twice: in the rows, and in the index that `unordered_linked_chunk_items` and
`MemoryStore::filter_duplicated_events` read. The index follows every update that pushes items, but not
`RemoveItem`, not a `Clear` of linked items, and not a `ReplaceItem` by an item with another identifier.
`Keeps` leaves these out; in every session that keeps to it, the index and the rows agree.
-/

namespace HaranaMatrix.Linked

open Rows List

variable {ItemId Item Gap : Type} [LinearOrder ItemId] [IndexableItem Item ItemId]

namespace RelationalLinkedChunk

/-! ## Duplicated events -/

/-- The loop of `filter_duplicated_events`: an event that is found is taken out of `events`. -/
def duplicatedEvents : List ItemId → List (Item × Position) → List (ItemId × Position)
  | _, [] => []
  | events, (event, position) :: items =>
    if IndexableItem.id event ∈ events then
      (IndexableItem.id event, position) :: duplicatedEvents (events.erase (IndexableItem.id event)) items
    else duplicatedEvents events items

def filterDuplicatedEvents (store : RelationalLinkedChunk ItemId Item Gap) (linkedChunkId : LinkedChunkId)
    (events : List ItemId) : List (ItemId × Position) :=
  if events.isEmpty then []
  else duplicatedEvents events (store.unorderedLinkedChunkItems linkedChunkId)

section Duplicated

variable {items : List (Item × Position)} {events : List ItemId}

lemma mem_duplicatedEvents (hn : (items.map fun x => IndexableItem.id x.1).Nodup) (id : ItemId)
    (position : Position) : (id, position) ∈ duplicatedEvents events items ↔
      id ∈ events ∧ ∃ item, (item, position) ∈ items ∧ IndexableItem.id item = id := by
  induction items generalizing events with
  | nil => simp [duplicatedEvents]
  | cons x items ih =>
    obtain ⟨event, p⟩ := x
    rw [map_cons, nodup_cons] at hn
    have hother : ∀ item q, (item, q) ∈ items → IndexableItem.id item ≠ IndexableItem.id event :=
      fun item q hmem heq => hn.1 (heq ▸ mem_map_of_mem (f := fun x => IndexableItem.id x.1) hmem)
    simp only [duplicatedEvents]
    split
    next hevent =>
      rw [mem_cons, ih hn.2]
      constructor
      · rintro (heq | ⟨hid, item, hitem, rfl⟩)
        · cases heq
          exact ⟨hevent, event, by simp, rfl⟩
        · exact ⟨mem_of_mem_erase hid, item, by simp [hitem], rfl⟩
      · rintro ⟨hid, item, hitem, rfl⟩
        rcases mem_cons.1 hitem with heq | hitem
        · cases heq
          exact .inl rfl
        · exact .inr ⟨(mem_erase_of_ne (hother item position hitem)).2 hid, item, hitem, rfl⟩
    next hevent =>
      rw [ih hn.2]
      constructor
      · rintro ⟨hid, item, hitem, rfl⟩
        exact ⟨hid, item, by simp [hitem], rfl⟩
      · rintro ⟨hid, item, hitem, rfl⟩
        rcases mem_cons.1 hitem with heq | hitem
        · cases heq
          exact absurd hid hevent
        · exact ⟨hid, item, hitem, rfl⟩

lemma duplicatedEvents_sublist (events : List ItemId) (items : List (Item × Position)) :
    ((duplicatedEvents events items).map Prod.fst).Sublist (items.map fun x => IndexableItem.id x.1) := by
  induction items generalizing events with
  | nil => simp [duplicatedEvents]
  | cons x items ih =>
    simp only [duplicatedEvents]
    split
    · exact (ih _).cons_cons _
    · exact (ih _).cons _

end Duplicated

/-! ## The updates that the index follows -/

section Keeps

variable {L : LinkedChunkId} {store : RelationalLinkedChunk ItemId Item Gap}

/-- The index follows an update to `L`: no item is removed, a `Clear` finds no linked item, and an
item is replaced by one with its identifier, which the first row at that position holds as well. -/
def Keeps (L : LinkedChunkId) (store : RelationalLinkedChunk ItemId Item Gap) : Update Item Gap → Prop
  | .removeItem _ => False
  | .clear => ∀ row ∈ store.itemsChunks, row.linkedChunkId = L → ∃ gap, row.item = .gap gap
  | .replaceItem «at» item =>
    ⟨L, «at», .item (IndexableItem.id item)⟩ ∈ store.itemsChunks ∧
    ∀ row, store.itemsChunks.find? (·.position == «at») = some row → row.item = .item (IndexableItem.id item)
  | _ => True

/-- The index follows every update of a list, in the store that it is applied to. -/
def KeepsAll (L : LinkedChunkId) : RelationalLinkedChunk ItemId Item Gap → List (Update Item Gap) → Prop
  | _, [] => True
  | store, u :: us =>
    Keeps L store u ∧ ∀ store', store.applyUpdate L u = .ok (.ok (), store') → KeepsAll L store' us

lemma Keeps.reaches {u : Update Item Gap} (h : Keeps L store u) : Reaches L store u := by
  cases u with
  | replaceItem «at» item => exact fun row hfind => .inr ⟨h.2 row hfind, h.1⟩
  | _ => trivial

lemma Keeps.spares {u : Update Item Gap} (h : Keeps L store u) : Spares L store u := by
  cases u with
  | replaceItem «at» item => exact fun row hfind => .inr (h.2 row hfind)
  | _ => trivial

lemma KeepsAll.spares {us : List (Update Item Gap)} (h : KeepsAll L store us) : SparesAll L store us := by
  induction us generalizing store with
  | nil => trivial
  | cons u us ih => exact ⟨h.1.spares, fun store' hu => ih (h.2 store' hu)⟩

end Keeps

/-! ## The index of a list of chunks -/

/-- **The index of `L` is that of the chunks of `e`.** Detached items keep an entry, at some
position. -/
structure Indexes (store : RelationalLinkedChunk ItemId Item Gap) (L : LinkedChunkId) (e : Edit Item Gap) :
    Prop where
  stores : Stores store L e.chunks
  nodup : (ids e.chunks).Nodup
  positions : ∀ x ∈ positioned e.chunks, store.entry L (IndexableItem.id x.2) = some (x.2, some x.1)
  only : ∀ k v, store.entry L k = some v → k ∈ itemIds e.items

section Step

variable {L : LinkedChunkId} {store store' : RelationalLinkedChunk ItemId Item Gap} {e e' : Edit Item Gap}
  {u : Update Item Gap} {cap limit : ℕ} {pre post cs : List (PlainChunk Item Gap)} {c : ChunkIdentifier}
  {xs new : List Item} {i : ℕ}

omit [LinearOrder ItemId] [IndexableItem Item ItemId] in
lemma mem_positioned_middle {x : Position × Item} : x ∈ positioned (pre ++ ⟨c, .items xs⟩ :: post) ↔
    x ∈ positioned pre ∨ (x.1.chunkIdentifier = c ∧ (x.2, x.1.index) ∈ xs.zipIdx) ∨ x ∈ positioned post := by
  rw [positioned_append, positioned_cons, mem_append, mem_append, mem_map]
  refine or_congr_right (or_congr_left ⟨?_, ?_⟩)
  · rintro ⟨⟨y, k⟩, hy, rfl⟩
    exact ⟨rfl, hy⟩
  · rintro ⟨rfl, hx⟩
    exact ⟨_, hx, rfl⟩

lemma applyUpdate_items {r : Except RelationalLinkedChunkError Unit} (hu : u.Drops)
    (h : store.applyUpdate L u = .ok (r, store')) : store'.items = store.items := by
  cases u with
  | newItemsChunk | startReattachItems | endReattachItems | detachLastItems | clear =>
    cases h
    rfl
  | newGapChunk previous new next gap =>
    simp only [applyUpdate] at h
    split at h <;> cases h <;> rfl
  | removeChunk c =>
    obtain ⟨chunks, -, h⟩ := bind_eq_ok h
    cases h
    rfl
  | removeItem «at» =>
    obtain ⟨rows, -, h⟩ := map_eq_ok h
    cases h
    rfl
  | pushItems | replaceItem => exact hu.elim

omit [LinearOrder ItemId] [IndexableItem Item ItemId] in
lemma positioned_subset (hs : Step none cap limit e u e') (ha : u.Adds) (hd : u.Drops) :
    ∀ x ∈ positioned e'.chunks, x ∈ positioned e.chunks := by
  cases hs with
  | newChunk _ _ _ _ hempty | removeChunk _ _ _ hempty | newChunkDetached _ _ _ _ _ _ _ hempty =>
    simp [Edit.chunks, positioned_cons, ChunkContent.toItems_eq_nil hempty]
  | detachLastItems pre post id xs i hi =>
    intro x hx
    simp only [Edit.chunks, mem_positioned_middle] at hx ⊢
    refine hx.imp_right fun hx => hx.imp_left fun hx => ⟨hx.1, ?_⟩
    rw [mk_mem_zipIdx_iff_getElem?] at hx ⊢
    obtain ⟨hlt, heq⟩ := List.getElem?_eq_some_iff.1 hx.2
    rw [getElem_take] at heq
    exact List.getElem?_eq_some_iff.2 ⟨_, heq⟩
  | startReattachItems | endReattachItems => exact fun x hx => hx
  | replaceItem | pushItems | pushItemsDetached | pushItemsReattached => exact hd.elim
  | removeItem => exact ha.elim

lemma Indexes.same (h : Indexes store L e) (hs : Step none cap limit e u e') (ha : u.Adds) (hd : u.Drops)
    (hu : store.applyUpdate L u = .ok (.ok (), store')) (hstores : Stores store' L e'.chunks) :
    Indexes store' L e' := by
  have hentry : ∀ k, store'.entry L k = store.entry L k := fun k => by
    rw [entry, entry, applyUpdate_items hd hu]
  refine ⟨hstores, hs.nodup h.nodup, fun x hx => ?_, fun k v hk => ?_⟩
  · rw [hentry]
    exact h.positions x (positioned_subset hs ha hd x hx)
  · rw [hentry] at hk
    exact ((hs.sublist_of_adds ha).map _).subset (h.only k v hk)

lemma Indexes.push (hchunks : e.chunks = pre ++ ⟨c, .items xs⟩ :: post)
    (hchunks' : e'.chunks = pre ++ ⟨c, .items (xs ++ new)⟩ :: post) (h : Indexes store L e)
    (hsub : e.items.Sublist e'.items) (hd : (itemIds (flatten e'.chunks)).Nodup)
    (hn : (ids e'.chunks).Nodup) :
    ∃ store', store.applyUpdate L (.pushItems ⟨c, xs.length⟩ new) = .ok (.ok (), store') ∧
      Indexes store' L e' := by
  have hstores := h.stores
  rw [hchunks] at hstores
  rw [hchunks'] at hd
  obtain ⟨store', happly, hstores'⟩ := hstores.pushItems hd
  obtain ⟨hnew, hold⟩ := nodup_push hd
  refine ⟨store', happly, hchunks' ▸ hstores', hn, fun x hx => ?_, fun k v hk => ?_⟩
  · cases happly
    rw [hchunks', mem_positioned_middle] at hx
    have hlinked : x ∈ positioned e.chunks → (store.pushItems L ⟨c, xs.length⟩ new).entry L
        (IndexableItem.id x.2) = some (x.2, some x.1) := fun hmem => by
      have hflat : x.2 ∈ flatten (pre ++ ⟨c, .items xs⟩ :: post) := by
        rw [← hchunks, ← map_snd_positioned]
        exact mem_map_of_mem hmem
      rw [entry_pushItems_of_not_mem (hold x.2 hflat)]
      exact h.positions x hmem
    rw [hchunks, mem_positioned_middle] at hlinked
    rcases hx with hx | ⟨hc, hx⟩ | hx
    · exact hlinked (.inl hx)
    · rw [zipIdx_append, mem_append] at hx
      rcases hx with hx | hx
      · exact hlinked (.inr (.inl ⟨hc, hx⟩))
      · subst hc
        exact entry_pushItems hnew (by simpa using hx)
    · exact hlinked (.inr (.inr hx))
  · cases happly
    by_cases hmem : k ∈ itemIds new
    · have hlinked : new.Sublist e'.items := by
        refine List.Sublist.trans ?_ e'.flatten_chunks_sublist
        rw [hchunks']
        simp only [flatten_append, flatten_cons, ChunkContent.toItems_items]
        refine List.Sublist.trans ?_ (sublist_append_right _ _)
        exact (sublist_append_right xs new).trans (sublist_append_left _ _)
      exact (hlinked.map _).subset hmem
    · rw [entry_pushItems_of_not_mem hmem] at hk
      exact (hsub.map _).subset (h.only k v hk)

lemma Indexes.replace {x : Item} (h : Indexes store L (.settled (pre ++ ⟨c, .items xs⟩ :: post)))
    (hi : i < xs.length) (hk : Keeps L store (.replaceItem ⟨c, i⟩ x))
    (hd : (itemIds (flatten (pre ++ ⟨c, .items (xs.set i x)⟩ :: post))).Nodup) :
    ∃ store', store.applyUpdate L (.replaceItem ⟨c, i⟩ x) = .ok (.ok (), store') ∧
      Indexes store' L (.settled (pre ++ ⟨c, .items (xs.set i x)⟩ :: post)) := by
  obtain ⟨store', happly, hstores⟩ := h.stores.replaceItem h.nodup hi hd hk.reaches
  -- the replaced item has the identifier of the new one
  obtain ⟨y, hget, hrow⟩ := h.stores.filter_isAt h.nodup hi
  have hid : (IndexableItem.id x : ItemId) = IndexableItem.id y := by
    have hmem : (⟨L, ⟨c, i⟩, .item (IndexableItem.id x)⟩ : ItemRow ItemId Gap) ∈
        store.itemsChunks.filter (·.isAt L ⟨c, i⟩) := mem_filter.2 ⟨hk.1, by simp [ItemRow.isAt]⟩
    rw [hrow, mem_singleton] at hmem
    exact Either.item.inj (ItemRow.mk.inj hmem).2.2
  have hids : (itemIds (xs.set i x) : List ItemId) = itemIds xs := by
    have hmap : (xs.map (IndexableItem.id : Item → ItemId))[i]? = some (IndexableItem.id y) := by simp [hget]
    obtain ⟨hlt, hmap⟩ := List.getElem?_eq_some_iff.1 hmap
    rw [itemIds, map_set, hid, ← hmap, set_getElem_self]
    rfl
  have hentry : ∀ k, store'.entry L k =
      if IndexableItem.id x = k then some (x, some ⟨c, i⟩) else store.entry L k := by
    obtain ⟨store₁, hreplace, heq⟩ := map_eq_ok happly
    cases heq
    unfold RelationalLinkedChunk.replaceItem at hreplace
    split at hreplace
    · cases hreplace
    split at hreplace
    · cases hreplace
    cases hreplace
    exact fun k => entry_indexItem x k _ _
  refine ⟨store', happly, hstores, by simpa [Edit.chunks] using h.nodup, fun z hz => ?_, fun k v hv => ?_⟩
  · have hnew : ((⟨c, i⟩ : Position), x) ∈ positioned (pre ++ ⟨c, .items (xs.set i x)⟩ :: post) := by
      rw [mem_positioned_middle]
      exact .inr (.inl ⟨rfl, mk_mem_zipIdx_iff_getElem?.2 (by simp [hi])⟩)
    rw [hentry]
    split
    next heq =>
      have hkeys : ((positioned (pre ++ ⟨c, .items (xs.set i x)⟩ :: post)).map
          fun z => (IndexableItem.id z.2 : ItemId)).Nodup := by
        rw [itemIds, ← map_snd_positioned, map_map] at hd
        exact hd
      rw [← inj_on_of_nodup_map hkeys hnew hz heq]
    next hne =>
      refine h.positions z ?_
      rw [Edit.chunks, mem_positioned_middle] at hz ⊢
      refine hz.imp_right fun hz => hz.imp_left fun hz => ⟨hz.1, ?_⟩
      have hget := mk_mem_zipIdx_iff_getElem?.1 hz.2
      rw [List.getElem?_set] at hget
      refine mk_mem_zipIdx_iff_getElem?.2 ?_
      split at hget
      · exact absurd (congrArg IndexableItem.id (Option.some.inj hget)) hne
      · exact hget
  · have hsame : (itemIds (flatten (pre ++ ⟨c, .items (xs.set i x)⟩ :: post)) : List ItemId) =
        itemIds (flatten (pre ++ ⟨c, .items xs⟩ :: post)) := by
      simp only [itemIds, flatten_append, flatten_cons, ChunkContent.toItems_items, map_append] at hids ⊢
      rw [hids]
    rw [hentry] at hv
    show k ∈ itemIds (flatten _)
    split at hv
    next heq =>
      rw [← heq]
      refine mem_map_of_mem ?_
      simp [mem_set hi]
    · rw [hsame]
      exact h.only k v hv

lemma Indexes.clear (h : Indexes store L (.settled cs)) (hk : Keeps L store .clear) :
    ∃ store', store.applyUpdate L .clear = .ok (.ok (), store') ∧ Indexes store' L (.settled []) := by
  have hempty : flatten cs = [] := by
    rw [eq_nil_iff_forall_not_mem]
    intro x hx
    rw [← map_snd_positioned] at hx
    obtain ⟨y, hy, rfl⟩ := mem_map.1 hx
    obtain ⟨d, hd, hy⟩ := mem_flatMap.1 hy
    obtain ⟨z, hz, rfl⟩ := mem_map.1 hy
    obtain ⟨id, content⟩ := d
    cases content with
    | gap gap => cases hz
    | items xs =>
      have hrow : (⟨L, ⟨id, z.2⟩, .item (IndexableItem.id z.1)⟩ : ItemRow ItemId Gap) ∈ itemRows L cs :=
        mem_flatMap.2 ⟨_, hd, mem_map.2 ⟨z, hz, rfl⟩⟩
      have hmem := (mem_filter.1 (h.stores.itemsChunks.mem_iff.2 hrow)).1
      obtain ⟨gap, hgap⟩ := hk _ hmem rfl
      cases hgap
  obtain ⟨store', happly, hstores⟩ := stores_clear store L
  refine ⟨store', happly, hstores, nodup_nil, fun x hx => (by cases hx), fun k v hv => ?_⟩
  rw [entry, applyUpdate_items (u := .clear) trivial happly] at hv
  have := h.only k v hv
  rw [Edit.items, hempty] at this
  exact this

/-- **The index follows an update that keeps to it.** -/
theorem Indexes.step (h : Indexes store L e) (hs : StoreStep cap e u e') (hk : Keeps L store u) :
    ∃ store', store.applyUpdate L u = .ok (.ok (), store') ∧ Indexes store' L e' := by
  cases hs with
  | clear cs => exact h.clear hk
  | step hs hd =>
    have hlinked := nodup_itemIds_of_sublist e'.flatten_chunks_sublist hd
    have hn := hs.nodup h.nodup
    have hsub := fun ha : u.Adds => hs.sublist_of_adds ha
    have hsame : u.Adds → u.Drops → ∃ store', store.applyUpdate L u = .ok (.ok (), store') ∧
        Indexes store' L e' := fun ha hdrop => by
      obtain ⟨store', happly, hstores⟩ := h.stores.step h.nodup hs hlinked hk.reaches
      exact ⟨store', happly, h.same hs ha hdrop happly hstores⟩
    cases hs with
    | newChunk _ _ _ content | newChunkDetached _ _ _ _ _ _ content =>
      exact hsame (by cases content <;> trivial) (by cases content <;> trivial)
    | removeChunk | detachLastItems | startReattachItems | endReattachItems => exact hsame trivial trivial
    | pushItems | pushItemsDetached | pushItemsReattached =>
      exact h.push rfl rfl (hsub trivial) hlinked hn
    | replaceItem pre post id xs i x hi => exact h.replace hi hk hlinked
    | removeItem => exact hk.elim

/-- **The index follows a batch that keeps to it.** -/
theorem Indexes.replay {us : List (Update Item Gap)} (h : Indexes store L e)
    (hs : Trace (StoreStep cap) e us e') (hk : KeepsAll L store us) :
    ∃ store', store.applyUpdates L us = .ok (.ok (), store') ∧ Indexes store' L e' := by
  induction hs generalizing store with
  | nil => exact ⟨store, rfl, h⟩
  | cons hstep _ ih =>
    obtain ⟨store₁, happly, h₁⟩ := h.step hstep hk.1
    obtain ⟨store', hrest, h'⟩ := ih h₁ (hk.2 store₁ happly)
    refine ⟨store', ?_, h'⟩
    rw [applyUpdates, happly]
    exact hrest

lemma Indexes.agree {M : LinkedChunkId} (h : Indexes store M e) (ha : Agree M store store') :
    Indexes store' M e := by
  have hentry : ∀ k, store'.entry M k = store.entry M k := fun k => by rw [entry, entry, ha.items]
  refine ⟨⟨ha.chunks ▸ h.stores.chunks, ha.itemsChunks ▸ h.stores.itemsChunks, fun x hx => ?_⟩, h.nodup,
    fun x hx => (hentry _).trans (h.positions x hx), fun k v hv => h.only k v ((hentry k).symm.trans hv)⟩
  rw [itemContent, hentry]
  exact h.stores.items x hx

end Step

/-! ## Reading the index -/

section Read

variable {L : LinkedChunkId} {store : RelationalLinkedChunk ItemId Item Gap} {cs : List (PlainChunk Item Gap)}

/-- The items of raw chunks with their positions. -/
def rawPositions (raws : List (RawChunk Item Gap)) : List (Item × Position) :=
  raws.flatMap fun raw => raw.content.toItems.zipIdx.map fun x => (x.1, ⟨raw.identifier, x.2⟩)

omit [LinearOrder ItemId] [IndexableItem Item ItemId] in
lemma rawPositions_rawChunks (previous : Option ChunkIdentifier) (cs : List (PlainChunk Item Gap)) :
    rawPositions (rawChunks previous cs) = (positioned cs).map Prod.swap := by
  induction cs generalizing previous with
  | nil => rfl
  | cons c cs ih =>
    rw [rawChunks, rawPositions, flatMap_cons, ← rawPositions, ih, positioned_cons, map_append, map_map]
    rfl

omit [IndexableItem Item ItemId] in
lemma mem_unorderedLinkedChunkItems {item : Item} {position : Position} :
    (item, position) ∈ store.unorderedLinkedChunkItems L ↔
      ∃ k, store.entry L k = some (item, some position) := by
  unfold unorderedLinkedChunkItems entry
  cases store.items.lookup L with
  | none => simp
  | some items => simp [Option.map_eq_some_iff]

section

variable (h : Indexes store L (.settled cs))
include h

lemma Indexes.entry_id {k : ItemId} {item : Item} {position : Position}
    (hk : store.entry L k = some (item, some position)) :
    IndexableItem.id item = k ∧ (position, item) ∈ positioned cs := by
  have hmem := h.only k _ hk
  rw [Edit.items, ← map_snd_positioned, itemIds, map_map] at hmem
  obtain ⟨x, hx, rfl⟩ := mem_map.1 hmem
  have heq := (h.positions x hx).symm.trans hk
  cases heq
  exact ⟨rfl, hx⟩

lemma Indexes.nodup_ids : ((store.unorderedLinkedChunkItems L).map fun x => (IndexableItem.id x.1 : ItemId)).Nodup := by
  unfold unorderedLinkedChunkItems
  cases hlookup : store.items.lookup L with
  | none => exact nodup_nil
  | some items =>
    have hkey : ∀ a ∈ items.toList, ∀ position, a.2.2 = some position → IndexableItem.id a.2.1 = a.1 := by
      rintro ⟨k, item, _⟩ ha position rfl
      have hentry : store.entry L k = some (item, some position) := by
        rw [entry, hlookup]
        exact Std.TreeMap.mem_toList_iff_getElem?_eq_some.1 ha
      exact (h.entry_id hentry).1
    rw [List.Nodup, pairwise_map, pairwise_filterMap, pairwise_map]
    refine Std.TreeMap.distinct_keys_toList.imp_of_mem fun {a b} ha hb hne x hx y hy heq => hne ?_
    obtain ⟨p, hp, rfl⟩ := Option.map_eq_some_iff.1 hx
    obtain ⟨q, hq, rfl⟩ := Option.map_eq_some_iff.1 hy
    rw [← hkey a ha p hp, ← hkey b hb q hq, heq]
    exact compare_eq_iff_eq.2 rfl

lemma Indexes.unordered_perm {raws : List (RawChunk Item Gap)} (hraws : raws.Perm (rawChunks none cs)) :
    (store.unorderedLinkedChunkItems L).Perm (rawPositions raws) := by
  have hload : (rawPositions raws).Perm ((positioned cs).map Prod.swap) := by
    rw [← rawPositions_rawChunks none cs]
    exact hraws.flatMap_right _
  refine List.Perm.trans ?_ hload.symm
  have hn : (positioned cs).Nodup := .of_map _ (nodup_positioned h.nodup)
  refine (perm_ext_iff_of_nodup (.of_map _ h.nodup_ids) (hn.map Prod.swap_injective)).2 ?_
  rintro ⟨item, position⟩
  rw [mem_unorderedLinkedChunkItems, mem_map]
  constructor
  · rintro ⟨k, hk⟩
    exact ⟨_, (h.entry_id hk).2, rfl⟩
  · rintro ⟨x, hx, heq⟩
    cases heq
    exact ⟨_, h.positions x hx⟩

end

end Read

end RelationalLinkedChunk

/-! ## Sessions -/

open RelationalLinkedChunk LinkedChunk

/-- Linked chunks with their histories of updates, and the store that they share. The updates are
taken and applied in batches that the index follows; the items linked in one linked chunk always
have distinct identifiers. -/
inductive Indexed (cap : ℕ) :
    (LinkedChunkId → LinkedChunk Item Gap) → RelationalLinkedChunk ItemId Item Gap → Prop
  | new : Indexed cap (fun _ => .newWithUpdateHistory) .new
  | step {f : LinkedChunkId → LinkedChunk Item Gap} {s' : LinkedChunk Item Gap} {L : LinkedChunkId}
      {store : RelationalLinkedChunk ItemId Item Gap} {op : Op Item Gap}
      {r : Except OpError (Outcome Item Gap)} {cs : List (PlainChunk Item Gap)} (h : Indexed cap f store)
      (hop : op.IsEdit ∨ op = .clear) (hs : (f L).step cap op = .ok (r, s')) (hloaded : s'.loaded = .ok cs)
      (hd : (itemIds (flatten cs)).Nodup) : Indexed cap (Function.update f L s') store
  | flush {f : LinkedChunkId → LinkedChunk Item Gap} {s' : LinkedChunk Item Gap} {L : LinkedChunkId}
      {store store' : RelationalLinkedChunk ItemId Item Gap} {us : List (Update Item Gap)}
      {r : Except RelationalLinkedChunkError Unit} (h : Indexed cap f store)
      (ht : (f L).takeUpdates UpdatesInner.mainReaderToken = .ok (us, s')) (hk : KeepsAll L store us)
      (ha : store.applyUpdates L us = .ok (r, store')) : Indexed cap (Function.update f L s') store'

variable {cap : ℕ} {f : LinkedChunkId → LinkedChunk Item Gap} {store : RelationalLinkedChunk ItemId Item Gap}

theorem Indexed.indexes (h : Indexed cap f store) (L : LinkedChunkId) :
    ∃ cs, Indexes store L (.settled cs) ∧ Follows cap (f L) [] (.settled cs) := by
  induction h generalizing L with
  | new =>
    refine ⟨[], ⟨⟨.nil, .nil, by simp [Edit.chunks]⟩, nodup_nil, ?_, ?_⟩, follows_new⟩
    · rintro x ⟨⟩
    · rintro k v ⟨⟩
  | @step f s' M store op r cs _ hop hs hloaded hd ih =>
    obtain ⟨cs₁, hindexes, hfollows⟩ := ih L
    refine ⟨cs₁, hindexes, ?_⟩
    by_cases hL : L = M
    · subst hL
      rw [Function.update_self]
      exact hfollows.step hop hs hloaded hd
    · rw [Function.update_of_ne hL]
      exact hfollows
  | @flush f s' M store store' us r _ ht hk ha ih =>
    obtain ⟨cs₁, hindexes, hfollows⟩ := ih L
    by_cases hL : L = M
    · subst hL
      obtain ⟨a, q, cs, hreads, hready, hn, htaken, hqueue⟩ := hfollows.take ht
      obtain ⟨store₁, ha₁, hindexes₁⟩ := hindexes.replay htaken hk
      obtain ⟨-, rfl⟩ := Prod.mk.inj (Except.ok.inj (ha₁.symm.trans ha))
      rw [Function.update_self]
      exact ⟨cs, hindexes₁, a, q, cs, hreads, hready, hn, .nil _, hqueue⟩
    · rw [Function.update_of_ne hL]
      exact ⟨cs₁, hindexes.agree (applyUpdates_agree ha hk.spares hL), hfollows⟩

/-- **The index reports the current positions** after every batch that it follows: the store yields
the items that are linked, each at the position that it is loaded from, and finds exactly those
events that are linked. -/
theorem unordered_items_current (h : Indexed cap f store) (L : LinkedChunkId) :
    ∃ raws, store.loadAllChunks L = .ok raws ∧
      (store.unorderedLinkedChunkItems L).Perm (rawPositions raws) ∧
      ∀ events : List ItemId, ((store.filterDuplicatedEvents L events).map Prod.fst).Nodup ∧
        ∀ id position, (id, position) ∈ store.filterDuplicatedEvents L events ↔
          id ∈ events ∧ ∃ item, (item, position) ∈ rawPositions raws ∧ IndexableItem.id item = id := by
  obtain ⟨cs, hindexes, -⟩ := h.indexes L
  obtain ⟨raws, hraws, hperm⟩ := hindexes.stores.loadAllChunks hindexes.nodup
  have hitems := hindexes.unordered_perm hperm
  refine ⟨raws, hraws, hitems, fun events => ?_⟩
  unfold filterDuplicatedEvents
  split
  next hempty =>
    rw [List.isEmpty_iff] at hempty
    simp [hempty]
  next =>
    refine ⟨hindexes.nodup_ids.sublist (duplicatedEvents_sublist events _), fun id position => ?_⟩
    simp only [mem_duplicatedEvents hindexes.nodup_ids, hitems.mem_iff]

theorem unordered_items_current_two_items :
    ∃ r s us s' store', (newWithUpdateHistory : LinkedChunk Char Unit).step 2 (.pushItemsBack ['a', 'b']) =
        .ok (r, s) ∧
      s.takeUpdates UpdatesInner.mainReaderToken = .ok (us, s') ∧
      (RelationalLinkedChunk.new : RelationalLinkedChunk Char Char Unit).applyUpdates (.room "a") us =
        .ok (.ok (), store') ∧
      (store'.unorderedLinkedChunkItems (.room "a")).Perm [('a', ⟨⟨0⟩, 0⟩), ('b', ⟨⟨0⟩, 1⟩)] := by
  have key : ∀ {r s us s' store' raws},
      (newWithUpdateHistory : LinkedChunk Char Unit).step 2 (.pushItemsBack ['a', 'b']) = .ok (r, s) →
      s.loaded = .ok [⟨⟨0⟩, .items ['a', 'b']⟩] →
      s.takeUpdates UpdatesInner.mainReaderToken = .ok (us, s') →
      us = [.newItemsChunk none ⟨0⟩ none, .pushItems ⟨⟨0⟩, 0⟩ ['a', 'b']] →
      (RelationalLinkedChunk.new : RelationalLinkedChunk Char Char Unit).applyUpdates (.room "a") us =
        .ok (.ok (), store') →
      store'.loadAllChunks (.room "a") = .ok raws →
      (store'.unorderedLinkedChunkItems (.room "a")).Perm (rawPositions raws) := by
    rintro r s us s' store' raws hs hloaded ht rfl ha hraws
    have hop : (Op.pushItemsBack ['a', 'b'] : Op Char Unit).IsEdit := trivial
    have hnew : Indexed 2 (fun _ => .newWithUpdateHistory) (.new : RelationalLinkedChunk Char Char Unit) := .new
    have hstep := hnew.step (L := .room "a") (.inl hop) hs hloaded (by decide)
    rw [← Function.update_self (LinkedChunkId.room "a") s fun _ => newWithUpdateHistory] at ht
    have hflush := hstep.flush ht ⟨trivial, fun _ _ => ⟨trivial, fun _ _ => trivial⟩⟩ ha
    obtain ⟨raws₁, hraws₁, hperm, -⟩ := unordered_items_current hflush (.room "a")
    rw [hraws] at hraws₁
    cases hraws₁
    exact hperm
  exact ⟨_, _, _, _, _, rfl, rfl, rfl, key rfl rfl rfl rfl rfl rfl⟩

/-- **`RemoveItem` leaves the index behind.** `'a'` and `'b'` are pushed, then `'a'` is removed: the
index still yields `'a'`, and `'b'` at its old position. -/
theorem removeItem_stale_index :
    ∃ r s r' t us t' store',
      (newWithUpdateHistory : LinkedChunk Char Unit).step 2 (.pushItemsBack ['a', 'b']) = .ok (r, s) ∧
      s.step 2 (.removeItemAt ⟨⟨0⟩, 0⟩) = .ok (r', t) ∧
      t.takeUpdates UpdatesInner.mainReaderToken = .ok (us, t') ∧
      (RelationalLinkedChunk.new : RelationalLinkedChunk Char Char Unit).applyUpdates (.room "a") us =
        .ok (.ok (), store') ∧
      store'.loadAllChunks (.room "a") = .ok [⟨.items ['b'], none, ⟨0⟩, none⟩] ∧
      store'.unorderedLinkedChunkItems (.room "a") = [('a', ⟨⟨0⟩, 0⟩), ('b', ⟨⟨0⟩, 1⟩)] ∧
      store'.filterDuplicatedEvents (.room "a") ['a', 'b'] = [('a', ⟨⟨0⟩, 0⟩), ('b', ⟨⟨0⟩, 1⟩)] := by
  refine ⟨_, _, _, _, _, _, _, rfl, rfl, rfl, rfl, ?_, ?_, ?_⟩ <;> rfl

end HaranaMatrix.Linked
