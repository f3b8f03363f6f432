import HaranaMatrix.Lib.Rows
import HaranaMatrix.Linked.Ops

/-!
# The relational linked chunk

`RelationalLinkedChunk` (`linked_chunk/relational.rs`) stores the chunks of all linked chunks in three
tables: a row per chunk, a row per item or gap, and an index of the items. It is written by updates and
read chunk by chunk.

All linked chunks share the tables, and an update is meant for one of them. `ReplaceItem` is the only
update that looks for its row without its linked chunk: `Spares` says when this does no harm, and
`applyUpdates_frame` that nothing else ever touches another linked chunk.
-/

namespace HaranaMatrix.Linked

open Rows List

/-- `OwnedLinkedChunkId`. -/
inductive LinkedChunkId where
  | room (roomId : String)
  | thread (roomId root : String)
  | pinnedEvents (roomId : String)
  | eventFocused (roomId event : String)
deriving DecidableEq, Repr

class IndexableItem (Item : Type) (ItemId : outParam Type) where
  id : Item → ItemId

structure ChunkRow where
  linkedChunkId : LinkedChunkId
  previousChunk : Option ChunkIdentifier
  chunk : ChunkIdentifier
  nextChunk : Option ChunkIdentifier
deriving DecidableEq, Repr

inductive Either (ItemId Gap : Type) where
  | item (item : ItemId)
  | gap (gap : Gap)
deriving DecidableEq, Repr

structure ItemRow (ItemId Gap : Type) where
  linkedChunkId : LinkedChunkId
  position : Position
  item : Either ItemId Gap
deriving DecidableEq, Repr

/-- The items of a linked chunk by their identifiers. An item has a position once it was linked. -/
abbrev ItemIndex (ItemId Item : Type) [Ord ItemId] : Type :=
  Std.TreeMap ItemId (Item × Option Position)

structure RelationalLinkedChunk (ItemId Item Gap : Type) [Ord ItemId] where
  chunks : List ChunkRow
  itemsChunks : List (ItemRow ItemId Gap)
  items : AList fun _ : LinkedChunkId => ItemIndex ItemId Item

inductive RelationalLinkedChunkError where
  | invalidChunkIdentifier (identifier : ChunkIdentifier)
  | duplicateChunkIdentifier (identifier : ChunkIdentifier)
deriving DecidableEq, Repr

/-! ## The table of chunks -/

def ChunkRow.isChunk (linkedChunkId : LinkedChunkId) (identifier : ChunkIdentifier) (row : ChunkRow) : Bool :=
  row.linkedChunkId == linkedChunkId && row.chunk == identifier

variable (chunks : List ChunkRow)

/-- A neighbour is relinked by `set`, if there is one. The error is the identifier that has no
row. -/
def relink (linkedChunkId : LinkedChunkId) (neighbour : Option ChunkIdentifier)
    (set : ChunkRow → ChunkRow) : Except ChunkIdentifier (List ChunkRow) :=
  match neighbour with
  | none => .ok chunks
  | some neighbour =>
    if chunks.any (·.isChunk linkedChunkId neighbour) then
      .ok (modifyFirst (·.isChunk linkedChunkId neighbour) set chunks)
    else .error neighbour

/-- Find the previous chunk, and update its next chunk. -/
def linkPrevious (linkedChunkId : LinkedChunkId)
    (previous next : Option ChunkIdentifier) : Except ChunkIdentifier (List ChunkRow) :=
  relink chunks linkedChunkId previous fun row => { row with nextChunk := next }

/-- Find the next chunk, and update its previous chunk. -/
def linkNext (linkedChunkId : LinkedChunkId)
    (next previous : Option ChunkIdentifier) : Except ChunkIdentifier (List ChunkRow) :=
  relink chunks linkedChunkId next fun row => { row with previousChunk := previous }

/-- `insert_chunk`. A missing next chunk is found out after the previous one is linked. -/
def insertChunk (linkedChunkId : LinkedChunkId)
    (previous : Option ChunkIdentifier) (new : ChunkIdentifier) (next : Option ChunkIdentifier) :
    Except RelationalLinkedChunkError Unit × List ChunkRow :=
  if chunks.any (·.isChunk linkedChunkId new) then (.error (.duplicateChunkIdentifier new), chunks)
  else
    match linkPrevious chunks linkedChunkId previous (some new) with
    | .error identifier => (.error (.invalidChunkIdentifier identifier), chunks)
    | .ok chunks =>
      match linkNext chunks linkedChunkId next (some new) with
      | .error identifier => (.error (.invalidChunkIdentifier identifier), chunks)
      | .ok chunks => (.ok (), chunks ++ [⟨linkedChunkId, previous, new, next⟩])

/-- `remove_chunk`, which panics when the chunk or a neighbour of it has no row. -/
def removeChunk (linkedChunkId : LinkedChunkId) (chunkToRemove : ChunkIdentifier) :
    Except Fault (List ChunkRow) :=
  match chunks.find? (·.isChunk linkedChunkId chunkToRemove) with
  | none => .error .assertion
  | some row => do
    let chunks := chunks.eraseP (·.isChunk linkedChunkId chunkToRemove)
    let chunks ← (linkPrevious chunks row.linkedChunkId row.previousChunk row.nextChunk).mapError
      fun _ => .assertion
    (linkNext chunks row.linkedChunkId row.nextChunk row.previousChunk).mapError fun _ => .assertion

/-! ## Updates -/

section Updates

variable {ItemId Item Gap : Type}

def Position.incrementIndex (position : Position) : Position := { position with index := position.index + 1 }

def Position.decrementIndex (position : Position) : Position := { position with index := position.index - 1 }

namespace ItemRow

variable (linkedChunkId : LinkedChunkId)

/-- The row of a chunk that stands at the index of `«at»` or after it. -/
def isFrom («at» : Position) (row : ItemRow ItemId Gap) : Bool :=
  row.linkedChunkId == linkedChunkId && row.position.chunkIdentifier == «at».chunkIdentifier &&
    decide («at».index ≤ row.position.index)

/-- The row of a chunk. -/
def isIn (identifier : ChunkIdentifier) (row : ItemRow ItemId Gap) : Bool :=
  row.linkedChunkId == linkedChunkId && row.position.chunkIdentifier == identifier

/-- The row at a position. -/
def isAt («at» : Position) (row : ItemRow ItemId Gap) : Bool :=
  row.linkedChunkId == linkedChunkId && row.position == «at»

/-- A row after `«at»` moves one place to the front. -/
def shift («at» : Position) (row : ItemRow ItemId Gap) : ItemRow ItemId Gap :=
  if row.linkedChunkId = linkedChunkId ∧ row.position.chunkIdentifier = «at».chunkIdentifier ∧
      «at».index < row.position.index then
    { row with position := row.position.decrementIndex }
  else row

end ItemRow

/-- The loop of `RemoveItem`: the rows after `«at»` are shifted, and the one at `«at»` is removed.
It panics when there is no such row, or more than one. -/
def removeItemRow (itemsChunks : List (ItemRow ItemId Gap)) (linkedChunkId : LinkedChunkId)
    («at» : Position) : Except Fault (List (ItemRow ItemId Gap)) :=
  match indicesOf (·.isAt linkedChunkId «at») itemsChunks with
  | [entryToRemove] => .ok ((itemsChunks.map (·.shift linkedChunkId «at»)).eraseIdx entryToRemove)
  | _ => .error .assertion

namespace RelationalLinkedChunk

variable [LinearOrder ItemId]

def new : RelationalLinkedChunk ItemId Item Gap := ⟨[], [], ∅⟩

variable [IndexableItem Item ItemId] (store : RelationalLinkedChunk ItemId Item Gap)
  (linkedChunkId : LinkedChunkId)

/-- `items.entry(linked_chunk_id).or_default().insert(item.id(), (item, Some(at)))`. -/
def indexItem («at» : Position) (item : Item) : AList fun _ : LinkedChunkId => ItemIndex ItemId Item :=
  store.items.insert linkedChunkId
    (((store.items.lookup linkedChunkId).getD ∅).insert (IndexableItem.id item) (item, some «at»))

def pushItems (linkedChunkId : LinkedChunkId) :
    RelationalLinkedChunk ItemId Item Gap → Position → List Item → RelationalLinkedChunk ItemId Item Gap
  | store, _, [] => store
  | store, «at», item :: items =>
    pushItems linkedChunkId
      { store with
        items := store.indexItem linkedChunkId «at» item
        itemsChunks := store.itemsChunks ++ [⟨linkedChunkId, «at», .item (IndexableItem.id item)⟩] }
      «at».incrementIndex items

/-- The row is looked up by its position, whatever its linked chunk. -/
def replaceItem («at» : Position) (item : Item) : Except Fault (RelationalLinkedChunk ItemId Item Gap) :=
  match store.itemsChunks.find? (·.position == «at») with
  | none => .error .assertion
  | some existing =>
    match existing.item with
    | .gap _ => .error .assertion
    | .item _ =>
      .ok { store with
        items := store.indexItem linkedChunkId «at» item
        itemsChunks := modifyFirst (·.position == «at»)
          (fun row => { row with item := .item (IndexableItem.id item) }) store.itemsChunks }

/-- One turn of the loop of `apply_updates`. -/
def applyUpdate :
    Update Item Gap → Except Fault (Except RelationalLinkedChunkError Unit × RelationalLinkedChunk ItemId Item Gap)
  | .newItemsChunk previous new next =>
    let (r, chunks) := insertChunk store.chunks linkedChunkId previous new next
    .ok (r, { store with chunks := chunks })
  | .newGapChunk previous new next gap =>
    match insertChunk store.chunks linkedChunkId previous new next with
    | (.error e, chunks) => .ok (.error e, { store with chunks := chunks })
    | (.ok (), chunks) =>
      .ok (.ok (), { store with
        chunks := chunks
        itemsChunks := store.itemsChunks ++ [⟨linkedChunkId, ⟨new, 0⟩, .gap gap⟩] })
  | .removeChunk chunkIdentifier => do
    let chunks ← Linked.removeChunk store.chunks linkedChunkId chunkIdentifier
    let indicesToRemove := indicesOf (·.isIn linkedChunkId chunkIdentifier) store.itemsChunks
    .ok (.ok (), { store with
      chunks := chunks
      itemsChunks := removeIndices store.itemsChunks indicesToRemove })
  | .pushItems «at» items => .ok (.ok (), store.pushItems linkedChunkId «at» items)
  | .replaceItem «at» item => (store.replaceItem linkedChunkId «at» item).map fun store => (.ok (), store)
  | .removeItem «at» =>
    (removeItemRow store.itemsChunks linkedChunkId «at»).map fun itemsChunks =>
      (.ok (), { store with itemsChunks := itemsChunks })
  | .detachLastItems «at» =>
    let indicesToRemove := indicesOf (·.isFrom linkedChunkId «at») store.itemsChunks
    .ok (.ok (), { store with itemsChunks := removeIndices store.itemsChunks indicesToRemove })
  | .startReattachItems | .endReattachItems => .ok (.ok (), store)
  | .clear =>
    .ok (.ok (), { store with
      chunks := store.chunks.filter (·.linkedChunkId != linkedChunkId)
      itemsChunks := store.itemsChunks.filter (·.linkedChunkId != linkedChunkId) })

/-- `apply_updates`: an error ends the loop, and what was done before it stays. -/
def applyUpdates (linkedChunkId : LinkedChunkId) :
    RelationalLinkedChunk ItemId Item Gap → List (Update Item Gap) →
      Except Fault (Except RelationalLinkedChunkError Unit × RelationalLinkedChunk ItemId Item Gap)
  | store, [] => .ok (.ok (), store)
  | store, update :: updates => do
    match ← store.applyUpdate linkedChunkId update with
    | (.error e, store) => .ok (.error e, store)
    | (.ok (), store) => applyUpdates linkedChunkId store updates

end RelationalLinkedChunk

end Updates

/-! ## Loading -/

namespace RelationalLinkedChunk

section Loading

variable {ItemId Item Gap : Type} [LinearOrder ItemId]

/-- The identifiers and the indices of the rows of an items chunk. -/
def collectItems (chunk : ChunkIdentifier) (rows : List (ItemRow ItemId Gap)) :
    Except String (List (ItemId × ℕ)) :=
  rows.mapM fun row =>
    match row.item with
    | .item itemId => .ok (itemId, row.position.index)
    | .gap _ => .error ("unexpected gap in items chunk " ++ toString chunk.index)

variable (store : RelationalLinkedChunk ItemId Item Gap) (linkedChunkId : LinkedChunkId)

/-- What the index of a linked chunk holds for an item. -/
def entry (itemId : ItemId) : Option (Item × Option Position) := do
  let items ← store.items.lookup linkedChunkId
  items[itemId]?

/-- The content of an item that a row names. -/
def itemContent (itemId : ItemId) : Option Item :=
  (store.entry linkedChunkId itemId).map Prod.fst

def loadRawChunk (chunkRow : ChunkRow) (linkedChunkId : LinkedChunkId) : Except String (RawChunk Item Gap) :=
  let items := store.itemsChunks.filter (·.isIn linkedChunkId chunkRow.chunk)
  match items with
  | [] => .ok ⟨.items [], chunkRow.previousChunk, chunkRow.chunk, chunkRow.nextChunk⟩
  | first :: rest =>
    match first.item with
    | .item _ => do
      let collectedItems ← collectItems chunkRow.chunk items
      let sorted := collectedItems.insertionSort fun x y => x.2 ≤ y.2
      let content := sorted.filterMap fun x => store.itemContent linkedChunkId x.1
      .ok ⟨.items content, chunkRow.previousChunk, chunkRow.chunk, chunkRow.nextChunk⟩
    | .gap gap =>
      if rest.isEmpty then .ok ⟨.gap gap, chunkRow.previousChunk, chunkRow.chunk, chunkRow.nextChunk⟩
      else
        .error ("there shouldn't be more than one item row attached in gap chunk " ++ toString chunkRow.chunk.index)

def loadRawChunkMetadata (chunkRow : ChunkRow) (linkedChunkId : LinkedChunkId) :
    Except String ChunkMetadata :=
  let items := store.itemsChunks.filter (·.isIn linkedChunkId chunkRow.chunk)
  match items with
  | [] => .ok ⟨0, chunkRow.previousChunk, chunkRow.chunk, chunkRow.nextChunk⟩
  | first :: rest =>
    match first.item with
    | .item _ => do
      let collectedItems ← collectItems chunkRow.chunk items
      .ok ⟨collectedItems.length, chunkRow.previousChunk, chunkRow.chunk, chunkRow.nextChunk⟩
    | .gap _ =>
      if rest.isEmpty then .ok ⟨0, chunkRow.previousChunk, chunkRow.chunk, chunkRow.nextChunk⟩
      else
        .error ("there shouldn't be more than one item row attached in gap chunk " ++ toString chunkRow.chunk.index)

def chunkRows : List ChunkRow :=
  store.chunks.filter (·.linkedChunkId == linkedChunkId)

def loadAllChunks : Except String (List (RawChunk Item Gap)) :=
  (store.chunkRows linkedChunkId).mapM fun chunkRow => store.loadRawChunk chunkRow linkedChunkId

def loadAllChunksMetadata : Except String (List ChunkMetadata) :=
  (store.chunkRows linkedChunkId).mapM fun chunkRow => store.loadRawChunkMetadata chunkRow linkedChunkId

/-- The generator that continues the identifiers of a linked chunk. -/
def chunkIdentifierGenerator (store : RelationalLinkedChunk ItemId Item Gap)
    (linkedChunkId : LinkedChunkId) : ChunkIdentifierGenerator :=
  match ((store.chunkRows linkedChunkId).map (·.chunk.index)).max? with
  | some last => .newFromPreviousChunkIdentifier ⟨last⟩
  | none => .newFromScratch

def loadLastChunk : Except String (Option (RawChunk Item Gap) × ChunkIdentifierGenerator) :=
  let generator := store.chunkIdentifierGenerator linkedChunkId
  let rows := store.chunkRows linkedChunkId
  match rows.find? (·.nextChunk.isNone) with
  | some chunkRow => (store.loadRawChunk chunkRow linkedChunkId).map fun raw => (some raw, generator)
  | none =>
    if rows.length = 0 then .ok (none, generator)
    else .error "last chunk is not found but chunks exist: the linked chunk contains a cycle"

def loadPreviousChunk (beforeChunkIdentifier : ChunkIdentifier) :
    Except String (Option (RawChunk Item Gap)) :=
  match (store.chunkRows linkedChunkId).find? (·.nextChunk == some beforeChunkIdentifier) with
  | some chunkRow => (store.loadRawChunk chunkRow linkedChunkId).map some
  | none => .ok none

/-- The items of a linked chunk that have a position, in the order of their identifiers. -/
def unorderedLinkedChunkItems (store : RelationalLinkedChunk ItemId Item Gap) (target : LinkedChunkId) :
    List (Item × Position) :=
  match store.items.lookup target with
  | none => []
  | some items => (items.toList.map Prod.snd).filterMap fun x => x.2.map fun position => (x.1, position)

end Loading

/-! ## Other linked chunks -/

section Frame

variable {ItemId Item Gap : Type} [LinearOrder ItemId] {M L : LinkedChunkId}
  {store store' store'' : RelationalLinkedChunk ItemId Item Gap}

/-- The two stores hold the same rows and the same index for a linked chunk. -/
structure Agree (M : LinkedChunkId) (store store' : RelationalLinkedChunk ItemId Item Gap) : Prop where
  chunks : store'.chunkRows M = store.chunkRows M
  itemsChunks : store'.itemsChunks.filter (·.linkedChunkId == M) =
    store.itemsChunks.filter (·.linkedChunkId == M)
  items : store'.items.lookup M = store.items.lookup M

lemma Agree.refl (M : LinkedChunkId) (store : RelationalLinkedChunk ItemId Item Gap) : Agree M store store :=
  ⟨rfl, rfl, rfl⟩

lemma Agree.trans (h : Agree M store store') (h' : Agree M store' store'') : Agree M store store'' :=
  ⟨h'.chunks.trans h.chunks, h'.itemsChunks.trans h.itemsChunks, h'.items.trans h.items⟩

omit [LinearOrder ItemId] in
lemma filter_isIn (rows : List (ItemRow ItemId Gap)) (c : ChunkIdentifier) :
    rows.filter (·.isIn M c) = (rows.filter (·.linkedChunkId == M)).filter (·.position.chunkIdentifier == c) := by
  rw [filter_filter]
  exact filter_congr fun row _ => Bool.and_comm _ _

section

variable (h : Agree M store store')
include h

lemma Agree.isIn (c : ChunkIdentifier) :
    store'.itemsChunks.filter (·.isIn M c) = store.itemsChunks.filter (·.isIn M c) := by
  rw [filter_isIn, filter_isIn, h.itemsChunks]

lemma Agree.loadRawChunk (row : ChunkRow) : store'.loadRawChunk row M = store.loadRawChunk row M := by
  unfold RelationalLinkedChunk.loadRawChunk itemContent entry
  rw [h.isIn, h.items]

lemma Agree.loadRawChunkMetadata (row : ChunkRow) :
    store'.loadRawChunkMetadata row M = store.loadRawChunkMetadata row M := by
  unfold RelationalLinkedChunk.loadRawChunkMetadata
  rw [h.isIn]

lemma Agree.loadAllChunks : store'.loadAllChunks M = store.loadAllChunks M := by
  unfold RelationalLinkedChunk.loadAllChunks
  simp only [h.chunks, h.loadRawChunk]

lemma Agree.loadAllChunksMetadata : store'.loadAllChunksMetadata M = store.loadAllChunksMetadata M := by
  unfold RelationalLinkedChunk.loadAllChunksMetadata
  simp only [h.chunks, h.loadRawChunkMetadata]

lemma Agree.loadLastChunk : store'.loadLastChunk M = store.loadLastChunk M := by
  unfold RelationalLinkedChunk.loadLastChunk chunkIdentifierGenerator
  simp only [h.chunks, h.loadRawChunk]

lemma Agree.unorderedLinkedChunkItems : store'.unorderedLinkedChunkItems M =
    store.unorderedLinkedChunkItems M := by
  unfold RelationalLinkedChunk.unorderedLinkedChunkItems
  rw [h.items]

end

omit [LinearOrder ItemId] in
lemma filter_removeIndices {p : ItemRow ItemId Gap → Bool} (rows : List (ItemRow ItemId Gap))
    (hp : ∀ row, p row → (row.linkedChunkId == M) = false) :
    (removeIndices rows (indicesOf p rows)).filter (·.linkedChunkId == M) =
      rows.filter (·.linkedChunkId == M) := by
  rw [removeIndices_indicesOf, filter_filter]
  refine filter_congr fun row _ => ?_
  cases hrow : p row with
  | true => simp [hp row hrow]
  | false => simp

lemma ChunkRow.isChunk_other {row : ChunkRow} {c : ChunkIdentifier} (hM : M ≠ L) (h : row.isChunk L c) :
    (row.linkedChunkId == M) = false := by
  obtain ⟨rfl, -⟩ : row.linkedChunkId = L ∧ row.chunk = c := by simpa [ChunkRow.isChunk] using h
  simpa using hM.symm

section Tables

variable {chunks chunks' : List ChunkRow} {previous next : Option ChunkIdentifier}

section

variable (hM : M ≠ L)
include hM

lemma relink_frame {neighbour : Option ChunkIdentifier} {set : ChunkRow → ChunkRow}
    (h : relink chunks L neighbour set = .ok chunks')
    (hset : ∀ row, (set row).linkedChunkId = row.linkedChunkId) :
    chunks'.filter (·.linkedChunkId == M) = chunks.filter (·.linkedChunkId == M) := by
  unfold relink at h
  split at h
  · cases h
    rfl
  split at h
  · cases h
    refine filter_modifyFirst_of_not fun row hrow => ?_
    have hother := ChunkRow.isChunk_other hM hrow
    exact ⟨hother, by rwa [hset]⟩
  · cases h

lemma linkPrevious_frame (h : linkPrevious chunks L previous next = .ok chunks') :
    chunks'.filter (·.linkedChunkId == M) = chunks.filter (·.linkedChunkId == M) :=
  relink_frame hM h fun _ => rfl

lemma linkNext_frame (h : linkNext chunks L next previous = .ok chunks') :
    chunks'.filter (·.linkedChunkId == M) = chunks.filter (·.linkedChunkId == M) :=
  relink_frame hM h fun _ => rfl

lemma insertChunk_frame (chunks : List ChunkRow) (previous : Option ChunkIdentifier)
    (new : ChunkIdentifier) (next : Option ChunkIdentifier) :
    (insertChunk chunks L previous new next).2.filter (·.linkedChunkId == M) =
      chunks.filter (·.linkedChunkId == M) := by
  unfold insertChunk
  split
  · rfl
  split
  · rfl
  next chunks₁ h₁ =>
  split
  · exact linkPrevious_frame hM h₁
  next chunks₂ h₂ =>
  have hnew : (L == M) = false := by simpa using hM.symm
  simp [hnew, linkNext_frame hM h₂, linkPrevious_frame hM h₁]

lemma removeChunk_frame {c : ChunkIdentifier} (h : removeChunk chunks L c = .ok chunks') :
    chunks'.filter (·.linkedChunkId == M) = chunks.filter (·.linkedChunkId == M) := by
  unfold removeChunk at h
  split at h
  · cases h
  next row hrow =>
  obtain ⟨rfl, -⟩ : row.linkedChunkId = L ∧ row.chunk = c := by
    simpa [ChunkRow.isChunk] using List.find?_some hrow
  set rest := chunks.eraseP (·.isChunk row.linkedChunkId c) with hrest
  obtain ⟨chunks₁, h₁, h⟩ := bind_eq_ok h
  rw [linkNext_frame hM (mapError_eq_ok h), linkPrevious_frame hM (mapError_eq_ok h₁), hrest]
  exact filter_eraseP_of_not fun row hrow => ChunkRow.isChunk_other hM hrow

end

variable {itemsChunks itemsChunks' : List (ItemRow ItemId Gap)} {«at» : Position}

omit [LinearOrder ItemId] in
lemma removeItemRow_ok (h : removeItemRow itemsChunks L «at» = .ok itemsChunks') :
    itemsChunks' = (itemsChunks.filter fun row => !row.isAt L «at»).map (·.shift L «at») := by
  unfold removeItemRow at h
  split at h
  next nth hnth =>
    cases h
    rw [eraseIdx_map, ← removeIndices_indicesOf, hnth]
    rfl
  · cases h

omit [LinearOrder ItemId] in
@[simp] lemma ItemRow.shift_linkedChunkId (row : ItemRow ItemId Gap) :
    (row.shift L «at»).linkedChunkId = row.linkedChunkId := by
  unfold ItemRow.shift
  split <;> rfl

omit [LinearOrder ItemId] in
lemma removeItemRow_frame (hM : M ≠ L) (h : removeItemRow itemsChunks L «at» = .ok itemsChunks') :
    itemsChunks'.filter (·.linkedChunkId == M) = itemsChunks.filter (·.linkedChunkId == M) := by
  rw [removeItemRow_ok h, filter_map, filter_filter]
  have hother : ∀ row : ItemRow ItemId Gap, row.linkedChunkId = M → row.linkedChunkId ≠ L :=
    fun row hrow => hrow ▸ hM
  have hrows : (itemsChunks.filter fun row =>
      (((fun row => row.linkedChunkId == M) ∘ fun row => row.shift L «at») row && !row.isAt L «at»)) =
      itemsChunks.filter (·.linkedChunkId == M) := by
    refine filter_congr fun row _ => ?_
    by_cases hrow : row.linkedChunkId = M
    · simp [ItemRow.isAt, hrow, hM]
    · simp [hrow]
  rw [hrows]
  conv_rhs => rw [← map_id (itemsChunks.filter _)]
  refine map_congr_left fun row hrow => ?_
  simp [ItemRow.shift, hother row (by simpa using (mem_filter.1 hrow).2)]

end Tables

section Apply

variable [IndexableItem Item ItemId]

lemma indexItem_frame (hM : M ≠ L) (store : RelationalLinkedChunk ItemId Item Gap) («at» : Position)
    (item : Item) : (store.indexItem L «at» item).lookup M = store.items.lookup M :=
  AList.lookup_insert_ne hM

lemma pushItems_frame (hM : M ≠ L) (store : RelationalLinkedChunk ItemId Item Gap) («at» : Position)
    (items : List Item) : Agree M store (store.pushItems L «at» items) := by
  induction items generalizing store «at» with
  | nil => exact .refl M store
  | cons item items ih =>
    have hnew : (L == M) = false := by simpa using hM.symm
    have hitem : Agree M store { store with
        items := store.indexItem L «at» item
        itemsChunks := store.itemsChunks ++ [⟨L, «at», .item (IndexableItem.id item)⟩] } :=
      ⟨rfl, by simp [hnew], indexItem_frame hM store «at» item⟩
    exact hitem.trans (ih _ _)

/-- An update may be applied to `L` without harm to others: the first row at the position of a
replaced item is one of `L`, or one that already holds that item. -/
def Spares (L : LinkedChunkId) (store : RelationalLinkedChunk ItemId Item Gap) : Update Item Gap → Prop
  | .replaceItem «at» item =>
    ∀ row, store.itemsChunks.find? (·.position == «at») = some row →
      row.linkedChunkId = L ∨ row.item = .item (IndexableItem.id item)
  | _ => True

lemma replaceItem_frame {«at» : Position} {item : Item} (h : store.replaceItem L «at» item = .ok store') :
    (∀ M ≠ L, Agree M store store') ↔ Spares L store (.replaceItem «at» item) := by
  unfold replaceItem at h
  split at h
  · cases h
  next existing hfind =>
  split at h
  · cases h
  cases h
  have hrows (M : LinkedChunkId) := @filter_modifyFirst_eq_iff (ItemRow ItemId Gap)
    (·.position == «at») (·.linkedChunkId == M)
    (fun row => { row with item := .item (IndexableItem.id item) }) store.itemsChunks existing hfind rfl
  have hsame : ({ existing with item := .item (IndexableItem.id item) } : ItemRow ItemId Gap) = existing ↔
      existing.item = .item (IndexableItem.id item) := by
    cases existing
    simp [eq_comm]
  simp only [hsame, beq_iff_eq] at hrows
  constructor
  · rintro hall row hrow
    obtain rfl : existing = row := Option.some.inj (hfind.symm.trans hrow)
    by_cases hL : existing.linkedChunkId = L
    · exact .inl hL
    · exact .inr ((hrows _).1 (hall _ hL).itemsChunks rfl)
  · intro hs M hM
    refine ⟨rfl, (hrows M).2 fun hexisting => ?_, indexItem_frame hM store «at» item⟩
    exact (hs existing hfind).resolve_left (hexisting ▸ hM)

/-- **One update leaves the other linked chunks alone exactly when it spares them.** -/
lemma applyUpdate_frame {u : Update Item Gap} {r : Except RelationalLinkedChunkError Unit}
    (h : store.applyUpdate L u = .ok (r, store')) : (∀ M ≠ L, Agree M store store') ↔ Spares L store u := by
  cases u with
  | replaceItem «at» item =>
    obtain ⟨store₁, hs, hstore⟩ := map_eq_ok h
    cases hstore
    exact replaceItem_frame hs
  | newItemsChunk previous new next =>
    cases h
    exact iff_of_true (fun M hM => ⟨insertChunk_frame hM _ previous new next, rfl, rfl⟩) trivial
  | newGapChunk previous new next gap =>
    refine iff_of_true (fun M hM => ?_) trivial
    have hchunks := insertChunk_frame hM store.chunks previous new next
    have hnew : (L == M) = false := by simpa using hM.symm
    simp only [applyUpdate] at h
    split at h
    next e chunks hinsert =>
      cases h
      rw [hinsert] at hchunks
      exact ⟨hchunks, rfl, rfl⟩
    next chunks hinsert =>
      cases h
      rw [hinsert] at hchunks
      exact ⟨hchunks, by simp [hnew], rfl⟩
  | removeChunk c =>
    refine iff_of_true (fun M hM => ?_) trivial
    obtain ⟨chunks, hs, h⟩ := bind_eq_ok h
    cases h
    refine ⟨removeChunk_frame hM hs, filter_removeIndices _ fun row hrow => ?_, rfl⟩
    obtain ⟨rfl, -⟩ : row.linkedChunkId = L ∧ row.position.chunkIdentifier = c := by
      simpa [ItemRow.isIn] using hrow
    simpa using hM.symm
  | pushItems «at» items =>
    cases h
    exact iff_of_true (fun M hM => pushItems_frame hM store «at» items) trivial
  | removeItem «at» =>
    refine iff_of_true (fun M hM => ?_) trivial
    obtain ⟨itemsChunks, hs, h⟩ := map_eq_ok h
    cases h
    exact ⟨rfl, removeItemRow_frame hM hs, rfl⟩
  | detachLastItems «at» =>
    cases h
    refine iff_of_true (fun M hM => ⟨rfl, filter_removeIndices _ fun row hrow => ?_, rfl⟩) trivial
    obtain ⟨⟨rfl, -⟩, -⟩ : (row.linkedChunkId = L ∧ row.position.chunkIdentifier = «at».chunkIdentifier) ∧
      «at».index ≤ row.position.index := by simpa [ItemRow.isFrom] using hrow
    simpa using hM.symm
  | startReattachItems | endReattachItems =>
    cases h
    exact iff_of_true (fun M _ => .refl M store) trivial
  | clear =>
    cases h
    refine iff_of_true (fun M hM => ⟨?_, ?_, rfl⟩) trivial <;>
    · simp only [chunkRows, filter_filter]
      refine filter_congr fun row _ => ?_
      by_cases hrow : row.linkedChunkId = M <;> simp [hrow, hM]

/-- Every update of a list spares the others, in the store that it is applied to. -/
def SparesAll (L : LinkedChunkId) : RelationalLinkedChunk ItemId Item Gap → List (Update Item Gap) → Prop
  | _, [] => True
  | store, u :: us =>
    Spares L store u ∧ ∀ store', store.applyUpdate L u = .ok (.ok (), store') → SparesAll L store' us

lemma applyUpdates_agree {us : List (Update Item Gap)} {r : Except RelationalLinkedChunkError Unit}
    (h : store.applyUpdates L us = .ok (r, store')) (hs : SparesAll L store us) (hM : M ≠ L) :
    Agree M store store' := by
  induction us generalizing store with
  | nil =>
    cases h
    exact .refl M _
  | cons u us ih =>
    obtain ⟨⟨r₁, store₁⟩, hu, h⟩ := bind_eq_ok h
    have hagree := (applyUpdate_frame hu).2 hs.1 M hM
    cases r₁ with
    | error e =>
      cases h
      exact hagree
    | ok _ => exact hagree.trans (ih h (hs.2 store₁ hu))

/-- **Linked chunks in one store do not interfere**, whether the updates succeed or fail, when each
`ReplaceItem` finds a row of its own linked chunk. For one update this is exactly what is needed for the
tables of the others to stay as they are. -/
theorem applyUpdates_frame {us : List (Update Item Gap)} {r : Except RelationalLinkedChunkError Unit}
    (h : store.applyUpdates L us = .ok (r, store')) :
    (SparesAll L store us → ∀ M ≠ L,
      store'.loadAllChunks M = store.loadAllChunks M ∧
      store'.loadAllChunksMetadata M = store.loadAllChunksMetadata M ∧
      store'.loadLastChunk M = store.loadLastChunk M ∧
      store'.unorderedLinkedChunkItems M = store.unorderedLinkedChunkItems M) ∧
    ∀ u, us = [u] → ((∀ M ≠ L, Agree M store store') ↔ Spares L store u) := by
  refine ⟨fun hs M hM => ?_, ?_⟩
  · have hagree := applyUpdates_agree h hs hM
    exact ⟨hagree.loadAllChunks, hagree.loadAllChunksMetadata, hagree.loadLastChunk,
      hagree.unorderedLinkedChunkItems⟩
  · rintro u rfl
    obtain ⟨⟨r₁, store₁⟩, hu, h⟩ := bind_eq_ok h
    obtain rfl : store₁ = store' := by cases r₁ <;> cases h <;> rfl
    exact applyUpdate_frame hu

end Apply

end Frame

/-! ## Rejected insertions -/

section Rejected

variable {ItemId Item Gap : Type} [LinearOrder ItemId] [IndexableItem Item ItemId] {L : LinkedChunkId}
  {chunks chunks' : List ChunkRow} {previous next : Option ChunkIdentifier} {new : ChunkIdentifier}

/-- The neighbour of a chunk has a row, if there is to be one. -/
def Known (chunks : List ChunkRow) (L : LinkedChunkId) (neighbour : Option ChunkIdentifier) : Prop :=
  ∀ c ∈ neighbour, chunks.any (·.isChunk L c)

/-- The row of the previous chunk is linked to the new one before the next chunk is found to be
missing. -/
def LinksTooEarly (chunks : List ChunkRow) (L : LinkedChunkId) (previous : Option ChunkIdentifier)
    (new : ChunkIdentifier) (next : Option ChunkIdentifier) : Prop :=
  ¬ chunks.any (·.isChunk L new) ∧ ¬ Known chunks L next ∧
    ∃ c ∈ previous, ∃ row, chunks.find? (·.isChunk L c) = some row ∧ row.nextChunk ≠ some new

lemma exists_relink_error {neighbour : Option ChunkIdentifier} {set : ChunkRow → ChunkRow} :
    (∃ c, relink chunks L neighbour set = .error c) ↔ ¬ Known chunks L neighbour := by
  unfold relink Known
  cases neighbour with
  | none => simp
  | some c =>
    simp only [Option.mem_def, Option.some.injEq, forall_eq']
    split
    · next h => exact iff_of_false (by simp) (not_not_intro h)
    · next h => exact iff_of_true ⟨c, rfl⟩ h

section

variable (h : linkPrevious chunks L previous (some new) = .ok chunks')
include h

lemma known_linkPrevious (c : Option ChunkIdentifier) : Known chunks' L c ↔ Known chunks L c := by
  unfold linkPrevious relink at h
  split at h
  · cases h
    rfl
  split at h
  · cases h
    refine forall₂_congr fun c _ => ?_
    rw [any_modifyFirst (f := fun row : ChunkRow => { row with nextChunk := some new }) fun _ => rfl]
  · cases h

lemma linkPrevious_eq_self_iff :
    chunks' = chunks ↔ ¬ ∃ c ∈ previous, ∃ row, chunks.find? (·.isChunk L c) = some row ∧
      row.nextChunk ≠ some new := by
  unfold linkPrevious relink at h
  split at h
  · cases h
    simp
  next c =>
  split at h
  · next hany =>
    cases h
    obtain ⟨row, hrow⟩ : ∃ row, chunks.find? (·.isChunk L c) = some row := by
      rw [← Option.isSome_iff_exists, List.find?_isSome]
      exact any_eq_true.1 hany
    have hset : ({ row with nextChunk := some new } : ChunkRow) = row ↔ row.nextChunk = some new := by
      cases row
      simp [eq_comm]
    rw [modifyFirst_eq_self_iff hrow, hset]
    simp [hrow]
  · cases h

end

/-- **When a rejected insertion leaves the table of chunks as it was.** -/
lemma insertChunk_rejected_iff :
    (∀ e chunks', insertChunk chunks L previous new next = (.error e, chunks') → chunks' = chunks) ↔
      ¬ LinksTooEarly chunks L previous new next := by
  unfold insertChunk LinksTooEarly
  split
  · next hnew => simp [hnew]
  next hnew =>
  split
  · next c hprevious =>
    -- There is no row for the previous chunk, so none that could be linked.
    refine iff_of_true (by simp) ?_
    rintro ⟨-, -, c', hc', row, hrow, -⟩
    refine exists_relink_error.1 ⟨c, hprevious⟩ fun c'' hc'' => ?_
    obtain rfl : c' = c'' := Option.some.inj (hc'.symm.trans hc'')
    exact any_eq_true.2 ⟨row, mem_of_find?_eq_some hrow, List.find?_some hrow⟩
  next chunks₁ hprevious =>
  have hsame := linkPrevious_eq_self_iff hprevious
  split
  · next c hnext =>
    have hmissing : ¬ Known chunks L next := by
      rw [← known_linkPrevious hprevious]
      exact exists_relink_error.1 ⟨c, hnext⟩
    constructor
    · rintro h ⟨-, -, hrow⟩
      exact hsame.1 (h _ _ rfl) hrow
    · rintro h e chunks' heq
      cases heq
      exact hsame.2 fun hrow => h ⟨hnew, hmissing, hrow⟩
  · next chunks₂ hnext =>
    refine iff_of_true (by simp) fun ⟨_, hmissing, _⟩ => ?_
    rw [← known_linkPrevious hprevious] at hmissing
    obtain ⟨c, hc⟩ := exists_relink_error.2 hmissing
    rw [linkNext, hc] at hnext
    cases hnext

/-- An update that inserts a chunk. -/
inductive Inserts (previous : Option ChunkIdentifier) (new : ChunkIdentifier)
    (next : Option ChunkIdentifier) :
    Update Item Gap → Prop
  | items : Inserts previous new next (.newItemsChunk previous new next)
  | gap (gap : Gap) : Inserts previous new next (.newGapChunk previous new next gap)

lemma applyUpdates_error_iff {store store' : RelationalLinkedChunk ItemId Item Gap} {u : Update Item Gap}
    (hu : Inserts previous new next u) {e : RelationalLinkedChunkError} :
    store.applyUpdates L [u] = .ok (.error e, store') ↔
      ∃ chunks', insertChunk store.chunks L previous new next = (.error e, chunks') ∧
        store' = { store with chunks := chunks' } := by
  cases hu with
  | items | gap =>
    simp only [applyUpdates, applyUpdate]
    obtain ⟨r | ⟨⟩, chunks⟩ := insertChunk store.chunks L previous new next
    · simp [ok_bind, eq_comm]
    · simp [ok_bind]

/-- **A rejected insertion leaves the store untouched** exactly when it does not link the previous
chunk too early. -/
theorem applyUpdates_rejected_iff (store : RelationalLinkedChunk ItemId Item Gap) {u : Update Item Gap}
    (hu : Inserts previous new next u) :
    (∀ e store', store.applyUpdates L [u] = .ok (.error e, store') → store' = store) ↔
      ¬ LinksTooEarly store.chunks L previous new next := by
  rw [← insertChunk_rejected_iff]
  constructor
  · intro h e chunks' he
    exact congrArg RelationalLinkedChunk.chunks (h e _ ((applyUpdates_error_iff hu).2 ⟨chunks', he, rfl⟩))
  · intro h e store' he
    obtain ⟨chunks', hinsert, rfl⟩ := (applyUpdates_error_iff hu).1 he
    rw [h e chunks' hinsert]

end Rejected

/-! ### Two rooms -/

section TwoRooms

instance : IndexableItem Char Char := ⟨fun c => c⟩

/-- Two rooms, each with one chunk and one item. -/
def twoRooms : RelationalLinkedChunk Char Char Unit :=
  let rooms : RelationalLinkedChunk Char Char Unit :=
    ⟨[⟨.room "a", none, ⟨0⟩, none⟩, ⟨.room "b", none, ⟨0⟩, none⟩], [], ∅⟩
  (rooms.pushItems (.room "a") ⟨⟨0⟩, 0⟩ ['x']).pushItems (.room "b") ⟨⟨0⟩, 0⟩ ['y']

theorem applyUpdates_frame_two_rooms :
    ∃ store', twoRooms.applyUpdates (.room "a") [.replaceItem ⟨⟨0⟩, 0⟩ 'z'] = .ok (.ok (), store') ∧
      store'.loadAllChunks (.room "b") = twoRooms.loadAllChunks (.room "b") := by
  have key : ∀ {store'}, twoRooms.applyUpdates (.room "a") [.replaceItem ⟨⟨0⟩, 0⟩ 'z'] =
    .ok (.ok (), store') →
      store'.loadAllChunks (.room "b") = twoRooms.loadAllChunks (.room "b") := fun h => by
    refine ((applyUpdates_frame h).1 ⟨?_, fun _ _ => trivial⟩ (.room "b") (by decide)).1
    rintro row hrow
    left
    cases hrow
    rfl
  exact ⟨_, rfl, key rfl⟩

/-- Replacing the item of one room takes the item of the other away. -/
theorem replaceItem_hits_other_room :
    ∃ store', twoRooms.applyUpdates (.room "b") [.replaceItem ⟨⟨0⟩, 0⟩ 'z'] = .ok (.ok (), store') ∧
      twoRooms.loadAllChunks (.room "a") = .ok [⟨.items ['x'], none, ⟨0⟩, none⟩] ∧
      store'.loadAllChunks (.room "a") = .ok [⟨.items [], none, ⟨0⟩, none⟩] :=
  ⟨_, rfl, rfl, rfl⟩

/-- A chunk that is there already is rejected, and nothing changes. -/
theorem applyUpdates_rejected_duplicate :
    ∃ store', twoRooms.applyUpdates (.room "a") [.newItemsChunk (some ⟨0⟩) ⟨0⟩ (some ⟨9⟩)] =
      .ok (.error (.duplicateChunkIdentifier ⟨0⟩), store') ∧ store' = twoRooms := by
  have huntouched := (applyUpdates_rejected_iff (L := .room "a") twoRooms
    (.items : Inserts (some ⟨0⟩) ⟨0⟩ (some ⟨9⟩) _)).2 fun h => h.1 rfl
  exact ⟨_, rfl, huntouched _ _ rfl⟩

/-- The next chunk is unknown, but the previous one is linked to a chunk that was never inserted. -/
theorem applyUpdates_rejected_relinks :
    ∃ store', twoRooms.applyUpdates (.room "a") [.newItemsChunk (some ⟨0⟩) ⟨1⟩ (some ⟨9⟩)] =
      .ok (.error (.invalidChunkIdentifier ⟨9⟩), store') ∧
      twoRooms.chunks = [⟨.room "a", none, ⟨0⟩, none⟩, ⟨.room "b", none, ⟨0⟩, none⟩] ∧
      store'.chunks = [⟨.room "a", none, ⟨0⟩, some ⟨1⟩⟩, ⟨.room "b", none, ⟨0⟩, none⟩] :=
  ⟨_, rfl, rfl, rfl⟩

end TwoRooms

end RelationalLinkedChunk

end HaranaMatrix.Linked
