import HaranaMatrix.Lib.DList
import HaranaMatrix.Linked.Updates

/-!
# The linked chunk and its operations

`LinkedChunk` as the source has it (`linked_chunk/mod.rs`, `linked_chunk/lazy_loader.rs`): chunks on a
heap, linked by pointers, with the two ends, the generator of identifiers and the history of updates.
An operation returns its `Result` and the new state, or the `Fault` that stops the program.
-/

namespace HaranaMatrix.Linked

open HaranaMatrix.DList

variable {Item Gap : Type}

/-! ## Chunks, ends and generator -/

/-- A `Chunk` without its two pointers. -/
structure ChunkData (Item Gap : Type) where
  lazyPrevious : Option ChunkIdentifier
  identifier : ChunkIdentifier
  content : ChunkContent Item Gap

abbrev Chunk (Item Gap : Type) : Type := Node (ChunkData Item Gap)

structure ChunkIdentifierGenerator where
  value : ℕ
deriving DecidableEq

namespace ChunkIdentifierGenerator

def firstIdentifier : ChunkIdentifier := ⟨0⟩

def newFromScratch : ChunkIdentifierGenerator := ⟨firstIdentifier.index⟩

def newFromPreviousChunkIdentifier (lastChunkIdentifier : ChunkIdentifier) :
    ChunkIdentifierGenerator := ⟨lastChunkIdentifier.index⟩

def next (g : ChunkIdentifierGenerator) : Except Fault (ChunkIdentifier × ChunkIdentifierGenerator) :=
  if g.value = u64Max then .error .noMoreIdentifiers
  else .ok (⟨g.value + 1⟩, ⟨g.value + 1⟩)

end ChunkIdentifierGenerator

/-- `Ends`. The pusher of updates is the `updates` of the linked chunk. -/
structure Ends where
  first : Option Ptr
  last : Option Ptr

structure LinkedChunk (Item Gap : Type) where
  links : Ends
  chunkIdentifierGenerator : ChunkIdentifierGenerator
  updates : Option (UpdatesInner (Update Item Gap))
  heap : Heap (ChunkData Item Gap)

/-- What a pointer leads to. -/
def deref {α : Type} : Option α → Except Fault α
  | some a => .ok a
  | none => .error .invalidPointer

namespace LinkedChunk

def new : LinkedChunk Item Gap := ⟨⟨none, none⟩, .newFromScratch, none, .empty⟩

def newWithUpdateHistory : LinkedChunk Item Gap :=
  ⟨⟨none, none⟩, .newFromScratch, some .new, .empty⟩

variable (s : LinkedChunk Item Gap)

/-- `if let Some(updates) = self.updates.as_mut() { updates.push(…) }`. -/
def push (u : Update Item Gap) : LinkedChunk Item Gap :=
  { s with updates := s.updates.map fun inner => inner.push u }

def newLeaked (identifier : ChunkIdentifier) (content : ChunkContent Item Gap) : Ptr × LinkedChunk Item Gap :=
  let (p, heap) := s.heap.alloc ⟨none, identifier, content⟩
  (p, { s with heap := heap })

/-- `Chunk::new_leaked(generator.next(), content)`. -/
def newChunkLeaked (content : ChunkContent Item Gap) : Except Fault (Ptr × LinkedChunk Item Gap) := do
  let (identifier, generator) ← s.chunkIdentifierGenerator.next
  .ok ({ s with chunkIdentifierGenerator := generator }.newLeaked identifier content)

/-- `Chunk::new_gap_leaked(generator.next(), gap)`. -/
def newGapLeaked (gap : Gap) : Except Fault (Ptr × LinkedChunk Item Gap) :=
  s.newChunkLeaked (.gap gap)

/-- `Ends::first_chunk_ptr`: the first chunk is created at its first use. -/
def firstChunkPtr : Ptr × LinkedChunk Item Gap :=
  match s.links.first with
  | some p => (p, s)
  | none =>
    let identifier := ChunkIdentifierGenerator.firstIdentifier
    let s := s.push (.newItemsChunk none identifier none)
    let (p, s) := s.newLeaked identifier (.items [])
    (p, { s with links := { s.links with first := some p } })

def latestChunk : Ptr × LinkedChunk Item Gap :=
  match s.links.last with
  | some p => (p, s)
  | none => s.firstChunkPtr

/-- `Ends::chunk`, which walks back from the latest chunk. -/
def chunk (identifier : ChunkIdentifier) : Except Fault (Option Ptr × LinkedChunk Item Gap) := do
  let (latest, s) := s.latestChunk
  let found ← deref (findPrevious s.heap (fun c => c.identifier == identifier) s.heap.fresh latest)
  .ok (found, s)

/-- `chunk.previous().map(Chunk::identifier)`, and the same for `next`. -/
def identifierAt : Option Ptr → Except Fault (Option ChunkIdentifier)
  | none => .ok none
  | some p => do
    let n ← deref (s.heap.cells p)
    .ok (some n.data.identifier)

/-- Writing to the data of the chunk at `p`. -/
def modifyData (p : Ptr) (f : ChunkData Item Gap → ChunkData Item Gap) :
    Except Fault (LinkedChunk Item Gap) := do
  let heap ← deref (s.heap.modify p fun c => { c with data := f c.data })
  .ok { s with heap := heap }

def setContent (p : Ptr) (content : ChunkContent Item Gap) : Except Fault (LinkedChunk Item Gap) :=
  s.modifyData p fun d => { d with content := content }

def setLazyPrevious (p : Ptr) (lazyPrevious : Option ChunkIdentifier) : Except Fault (LinkedChunk Item Gap) :=
  s.modifyData p fun d => { d with lazyPrevious := lazyPrevious }

/-- The update that announces a new chunk, gap or items. -/
def newChunkUpdate (previous : Option ChunkIdentifier) (new : ChunkIdentifier)
    (next : Option ChunkIdentifier) : ChunkContent Item Gap → Update Item Gap
  | .gap gap => .newGapChunk previous new next gap
  | .items _ => .newItemsChunk previous new next

/-! ## `Chunk::insert_next`, `insert_before`, `unlink` and `push_items` -/

def insertNext (self newChunk : Ptr) : Except Fault (LinkedChunk Item Gap) := do
  let heap ← deref (linkAfter s.heap self newChunk)
  let s := { s with heap := heap }
  let n ← deref (s.heap.cells newChunk)
  let previous ← s.identifierAt n.previous
  let next ← s.identifierAt n.next
  .ok (s.push (newChunkUpdate previous n.data.identifier next n.data.content))

variable (self : Ptr)

/-- `self.insert_next(Chunk::new_leaked(generator.next(), content))`, which returns the new
chunk. -/
def insertNextNew (content : ChunkContent Item Gap) : Except Fault (Ptr × LinkedChunk Item Gap) := do
  let (newChunk, s) ← s.newChunkLeaked content
  let s ← s.insertNext self newChunk
  .ok (newChunk, s)

/-- `self.insert_next(Chunk::new_items_leaked(generator.next()))`. -/
def insertNextItems : Except Fault (Ptr × LinkedChunk Item Gap) :=
  s.insertNextNew self (.items [])

/-- `self.insert_next(Chunk::new_gap_leaked(generator.next(), gap))`. -/
def insertNextGap (gap : Gap) : Except Fault (Ptr × LinkedChunk Item Gap) :=
  s.insertNextNew self (.gap gap)

/-- When `self`, which holds `c`, is the first chunk, its `lazy_previous` moves to the new chunk. -/
def moveLazyPrevious (self newChunk : Ptr) (c : Chunk Item Gap) : Except Fault (LinkedChunk Item Gap) :=
  match c.previous with
  | some _ => .ok s
  | none => do
    let s ← s.setLazyPrevious newChunk c.data.lazyPrevious
    s.setLazyPrevious self none

def insertBefore (self newChunk : Ptr) : Except Fault (LinkedChunk Item Gap) := do
  let c ← deref (s.heap.cells self)
  let s ← s.moveLazyPrevious self newChunk c
  let heap ← deref (linkBefore s.heap self newChunk)
  let s := { s with heap := heap }
  let n ← deref (s.heap.cells newChunk)
  let previous ← s.identifierAt n.previous
  let next ← s.identifierAt n.next
  .ok (s.push (newChunkUpdate (previous.or n.data.lazyPrevious) n.data.identifier next n.data.content))

def unlink : Except Fault (LinkedChunk Item Gap) := do
  let c ← deref (s.heap.cells self)
  let s ← s.setLazyPrevious self none
  let heap ← deref (DList.unlink s.heap self)
  let s := { s with heap := heap }
  let s ← match c.next with
    | some next => s.setLazyPrevious next c.data.lazyPrevious
    | none => .ok s
  .ok (s.push (.removeChunk c.data.identifier))

/-- The new items that fit into the free space of `self`, which holds `items`, go there. -/
def fillFreeSpace (identifier : ChunkIdentifier)
    (items : List Item) (freeSpace : ℕ) (newItems : List Item) : Except Fault (LinkedChunk Item Gap) :=
  if 0 < freeSpace then do
    let s ← s.setContent self (.items (items ++ newItems.take freeSpace))
    .ok (s.push (.pushItems ⟨identifier, items.length⟩ (newItems.take freeSpace)))
  else .ok s

/-- `Chunk::push_items`, with a bound on its recursion: with a capacity of `0` it never ends. It
returns the chunk that received the last items. -/
def pushItems (cap : ℕ) :
    ℕ → LinkedChunk Item Gap → Ptr → List Item → Except Fault (Ptr × LinkedChunk Item Gap)
  | 0, _, _, _ => .error .stackOverflow
  | fuel + 1, s, self, newItems =>
    if newItems.length = 0 then .ok (self, s)
    else do
      let c ← deref (s.heap.cells self)
      match c.data.content with
      | .gap _ => do
        let (newChunk, s) ← s.insertNextItems self
        pushItems cap fuel s newChunk newItems
      | .items items =>
        let freeSpace := cap - items.length
        if newItems.length ≤ freeSpace then do
          let s ← s.setContent self (.items (items ++ newItems))
          .ok (self, s.push (.pushItems ⟨c.data.identifier, items.length⟩ newItems))
        else do
          let s ← s.fillFreeSpace self c.data.identifier items freeSpace newItems
          let (newChunk, s) ← s.insertNextItems self
          pushItems cap fuel s newChunk (newItems.drop freeSpace)

variable (cap : ℕ)

/-- `Chunk::push_items` with enough room for its recursion. -/
def pushItemsOn (s : LinkedChunk Item Gap) (self : Ptr) (newItems : List Item) :
    Except Fault (Ptr × LinkedChunk Item Gap) :=
  pushItems cap (newItems.length + 1) s self newItems

/-! ## The operations of `LinkedChunk` -/

def setFirst (p : Option Ptr) : LinkedChunk Item Gap :=
  { s with links := { s.links with first := p } }

def setLast (p : Option Ptr) : LinkedChunk Item Gap :=
  { s with links := { s.links with last := p } }

/-- `if b { links.first = p }`. -/
def setFirstIf (b : Bool) (p : Option Ptr) : LinkedChunk Item Gap :=
  if b then s.setFirst p else s

/-- `if b { links.last = p }`. -/
def setLastIf (b : Bool) (p : Option Ptr) : LinkedChunk Item Gap :=
  if b then s.setLast p else s

/-- `Box::from_raw`, and the drop of the box. -/
def free (p : Ptr) : LinkedChunk Item Gap :=
  { s with heap := s.heap.free p }

/-- `Ends::clear`: the chunks are dropped from the last one to the first. -/
def clearLinks : Except Fault (LinkedChunk Item Gap) := do
  let chunks ← deref (walkPrevious s.heap s.heap.fresh (s.links.last.or s.links.first))
  let heap := chunks.foldl (fun heap c => heap.free c.1) s.heap
  .ok { s with heap := heap, links := ⟨none, none⟩ }

/-- `updates.clear_pending()`, then `updates.push(Update::Clear)`. -/
def pushClear : LinkedChunk Item Gap :=
  { s with updates := s.updates.map fun inner => inner.clearPending.push .clear }

def clear : Except Fault (LinkedChunk Item Gap) := do
  let s ← s.clearLinks
  .ok { s with chunkIdentifierGenerator := .newFromScratch }.pushClear

def pushItemsBack (s : LinkedChunk Item Gap) (items : List Item) : Except Fault (LinkedChunk Item Gap) := do
  let (lastChunk, s) := s.latestChunk
  let (lastChunk, s) ← s.pushItemsOn cap lastChunk items
  let c ← deref (s.heap.cells lastChunk)
  if c.next.isSome then .error .assertion
  else if c.previous.isSome then .ok (s.setLast (some lastChunk))
  else .ok s

def pushGapBack (content : Gap) : Except Fault (LinkedChunk Item Gap) := do
  let (lastChunk, s) := s.latestChunk
  let (_, s) ← s.insertNextGap lastChunk content
  let c ← deref (s.heap.cells lastChunk)
  .ok (s.setLast c.next)

/-- The last lines of `insert_items_at` and `insert_gap_at`: `links.last` follows `chunk`. -/
def updateLast (chunk : Ptr) : Except Fault (LinkedChunk Item Gap) := do
  let c ← deref (s.heap.cells chunk)
  if c.previous.isSome ∧ c.next.isNone then .ok (s.setLast (some chunk)) else .ok s

def insertItemsAt (s : LinkedChunk Item Gap) (position : Position) (items : List Item) :
    Except Fault (Except Error Unit × LinkedChunk Item Gap) := do
  let chunkIdentifier := position.chunkIdentifier
  let itemIndex := position.index
  let (found, s) ← s.chunk chunkIdentifier
  match found with
  | none => .ok (.error (.invalidChunkIdentifier chunkIdentifier), s)
  | some chunk => do
    let c ← deref (s.heap.cells chunk)
    match c.data.content with
    | .gap _ => .ok (.error (.chunkIsAGap chunkIdentifier), s)
    | .items currentItems =>
      if currentItems.length < itemIndex then .ok (.error (.invalidItemIndex itemIndex), s)
      else if itemIndex = currentItems.length then do
        let (chunk, s) ← s.pushItemsOn cap chunk items
        let s ← s.updateLast chunk
        .ok (.ok (), s)
      else do
        let s := s.push (.detachLastItems ⟨chunkIdentifier, itemIndex⟩)
        let s ← s.setContent chunk (.items (currentItems.take itemIndex))
        let (chunk, s) ← s.pushItemsOn cap chunk items
        let s := s.push .startReattachItems
        let (chunk, s) ← s.pushItemsOn cap chunk (currentItems.drop itemIndex)
        let s := s.push .endReattachItems
        let s ← s.updateLast chunk
        .ok (.ok (), s)

def removeItemAt (position : Position) : Except Fault (Except Error Item × LinkedChunk Item Gap) := do
  let chunkIdentifier := position.chunkIdentifier
  let itemIndex := position.index
  let (found, s) ← s.chunk chunkIdentifier
  match found with
  | none => .ok (.error (.invalidChunkIdentifier chunkIdentifier), s)
  | some chunk => do
    let c ← deref (s.heap.cells chunk)
    match c.data.content with
    | .gap _ => .ok (.error (.chunkIsAGap chunkIdentifier), s)
    | .items currentItems =>
      match currentItems[itemIndex]? with
      | none => .ok (.error (.invalidItemIndex itemIndex), s)
      | some removedItem => do
        let s ← s.setContent chunk (.items (currentItems.eraseIdx itemIndex))
        let s := s.push (.removeItem ⟨chunkIdentifier, itemIndex⟩)
        if (currentItems.eraseIdx itemIndex).isEmpty ∧ c.previous.isSome then do
          let s ← s.unlink chunk
          let c ← deref (s.heap.cells chunk)
          let s := s.setLastIf c.next.isNone c.previous
          .ok (.ok removedItem, s.free chunk)
        else .ok (.ok removedItem, s)

def replaceItemAt (position : Position) (item : Item) :
    Except Fault (Except Error Unit × LinkedChunk Item Gap) := do
  let chunkIdentifier := position.chunkIdentifier
  let itemIndex := position.index
  let (found, s) ← s.chunk chunkIdentifier
  match found with
  | none => .ok (.error (.invalidChunkIdentifier chunkIdentifier), s)
  | some chunk => do
    let c ← deref (s.heap.cells chunk)
    match c.data.content with
    | .gap _ => .ok (.error (.chunkIsAGap chunkIdentifier), s)
    | .items currentItems =>
      if currentItems.length ≤ itemIndex then .ok (.error (.invalidItemIndex itemIndex), s)
      else do
        let s := s.push (.replaceItem ⟨chunkIdentifier, itemIndex⟩ item)
        let s ← s.setContent chunk (.items (currentItems.set itemIndex item))
        .ok (.ok (), s)

/-- The branch of `insert_gap_at` that splits no chunk: the gap goes before `chunk`, which holds
`c`, even when that chunk is empty. -/
def insertGapBefore (chunk : Ptr) (c : Chunk Item Gap) (content : Gap) :
    Except Fault (LinkedChunk Item Gap) := do
  let (newChunk, s) ← s.newGapLeaked content
  let s ← s.insertBefore chunk newChunk
  let s := s.setFirstIf c.previous.isNone (some newChunk)
  .ok (s.setLastIf (c.previous.isNone && c.next.isNone) (some chunk))

def insertGapAt (s : LinkedChunk Item Gap) (content : Gap) (position : Position) :
    Except Fault (Except Error Unit × LinkedChunk Item Gap) := do
  let chunkIdentifier := position.chunkIdentifier
  let itemIndex := position.index
  let (found, s) ← s.chunk chunkIdentifier
  match found with
  | none => .ok (.error (.invalidChunkIdentifier chunkIdentifier), s)
  | some chunk => do
    let c ← deref (s.heap.cells chunk)
    match c.data.content with
    | .gap _ => .ok (.error (.chunkIsAGap chunkIdentifier), s)
    | .items currentItems =>
      if itemIndex = 0 then do
        let s ← s.insertGapBefore chunk c content
        .ok (.ok (), s)
      else if currentItems.length ≤ itemIndex then .ok (.error (.invalidItemIndex itemIndex), s)
      else do
        let s := s.push (.detachLastItems ⟨chunkIdentifier, itemIndex⟩)
        let s ← s.setContent chunk (.items (currentItems.take itemIndex))
        let (newGap, s) ← s.insertNextGap chunk content
        let s := s.push .startReattachItems
        let (newItems, s) ← s.insertNextItems newGap
        let (chunk, s) ← s.pushItemsOn cap newItems (currentItems.drop itemIndex)
        let s := s.push .endReattachItems
        let s ← s.updateLast chunk
        .ok (.ok (), s)

def removeEmptyChunkAt (chunkIdentifier : ChunkIdentifier) :
    Except Fault (Except Error (Option Position) × LinkedChunk Item Gap) := do
  let (first, s) := s.firstChunkPtr
  let f ← deref (s.heap.cells first)
  if f.next.isNone then .ok (.error .removingLastChunk, s)
  else do
    let (found, s) ← s.chunk chunkIdentifier
    match found with
    | none => .ok (.error (.invalidChunkIdentifier chunkIdentifier), s)
    | some chunk => do
      let c ← deref (s.heap.cells chunk)
      if 0 < c.data.content.numItems then
        .ok (.error (.removingNonEmptyItemsChunk chunkIdentifier), s)
      else do
        let positionOfNext ← s.identifierAt c.next
        let s ← s.unlink chunk
        let s := s.setFirstIf (c.previous.isNone && c.next.isSome) c.next
        let s := s.setLastIf c.next.isNone c.previous
        .ok (.ok (positionOfNext.map fun next => ⟨next, 0⟩), s.free chunk)

/-- `replace_gap_at`, with the chunk that the returned reference leads to. -/
def replaceGapAt (s : LinkedChunk Item Gap) (items : List Item) (chunkIdentifier : ChunkIdentifier) :
    Except Fault (Except Error (ChunkData Item Gap) × LinkedChunk Item Gap) := do
  let (found, s) ← s.chunk chunkIdentifier
  match found with
  | none => .ok (.error (.invalidChunkIdentifier chunkIdentifier), s)
  | some chunk => do
    let c ← deref (s.heap.cells chunk)
    match c.data.content with
    | .items _ => .ok (.error (.chunkIsItems chunkIdentifier), s)
    | .gap _ => do
      let (newItems, s) ← s.insertNextItems chunk
      let (lastInserted, s) ← s.pushItemsOn cap newItems items
      let l ← deref (s.heap.cells lastInserted)
      let g ← deref (s.heap.cells chunk)
      match g.next with
      | none => .error .assertion
      | some newChunk => do
        let s ← s.unlink chunk
        let s := s.setFirstIf c.previous.isNone (some newChunk)
        let s := s.setLastIf l.next.isNone (some lastInserted)
        let s := s.free chunk
        let n ← deref (s.heap.cells newChunk)
        .ok (.ok n.data, s)

/-! ## Reading a linked chunk -/

def chunks : Except Fault (List (Ptr × Chunk Item Gap) × LinkedChunk Item Gap) := do
  let (first, s) := s.firstChunkPtr
  let r ← deref (walkNext s.heap s.heap.fresh first)
  .ok (r, s)

def rchunks : Except Fault (List (Ptr × Chunk Item Gap) × LinkedChunk Item Gap) := do
  let (latest, s) := s.latestChunk
  let r ← deref (walkPrevious s.heap s.heap.fresh latest)
  .ok (r, s)

def positionedItems (c : ChunkData Item Gap) : List (Position × Item) :=
  c.content.toItems.zipIdx.map fun x => (⟨c.identifier, x.2⟩, x.1)

def items : Except Fault (List (Position × Item) × LinkedChunk Item Gap) := do
  let (cs, s) ← s.chunks
  .ok (cs.flatMap fun c => positionedItems c.2.data, s)

/-! ## The lazy loader -/

def fromLastChunk (chunk : Option (RawChunk Item Gap)) (generator : ChunkIdentifierGenerator) :
    Except LazyLoaderError (Option (LinkedChunk Item Gap)) :=
  match chunk with
  | none => .ok none
  | some chunk =>
    if cap < chunk.content.numItems then .error (.chunkTooLarge chunk.identifier)
    else if chunk.next.isSome then .error (.chunkIsNotLast chunk.identifier)
    else
      let (p, heap) := Heap.empty.alloc ⟨chunk.previous, chunk.identifier, chunk.content⟩
      .ok (some ⟨⟨some p, none⟩, generator, some .new, heap⟩)

def emitNewFirstChunkUpdates (chunk : Ptr) : Except Fault (LinkedChunk Item Gap) := do
  let c ← deref (s.heap.cells chunk)
  let previous ← s.identifierAt c.previous
  let next ← s.identifierAt c.next
  let s := s.push
    (newChunkUpdate (previous.or c.data.lazyPrevious) c.data.identifier next c.data.content)
  match c.data.content with
  | .gap _ => .ok s
  | .items items => .ok (s.push (.pushItems ⟨c.data.identifier, 0⟩ items))

/-- The chunk with the identifier `previousChunk`, looked for in the chunks. `chunks()` is only
called when there is such an identifier. -/
def findCycle :
    Option ChunkIdentifier → Except Fault (Option ChunkIdentifier × LinkedChunk Item Gap)
  | none => .ok (none, s)
  | some previousChunk => do
    let (cs, s) ← s.chunks
    .ok (if cs.any fun c => c.2.data.identifier == previousChunk then some previousChunk else none, s)

def insertNewFirstChunk (s : LinkedChunk Item Gap) (newFirstChunk : RawChunk Item Gap) :
    Except Fault (Except LazyLoaderError Unit × LinkedChunk Item Gap) :=
  if cap < newFirstChunk.content.numItems then
    .ok (.error (.chunkTooLarge newFirstChunk.identifier), s)
  else do
    let (cycle, s) ← s.findCycle newFirstChunk.previous
    match cycle with
    | some previousChunk => .ok (.error (.cycle newFirstChunk.identifier previousChunk), s)
    | none => do
      let (first, s) := s.firstChunkPtr
      let firstChunk ← deref (s.heap.cells first)
      match newFirstChunk.next with
      | none => .ok (.error (.missingNextChunk newFirstChunk.identifier), s)
      | some nextChunk =>
        if nextChunk ≠ firstChunk.data.identifier then
          .ok (.error (.cannotConnectTwoChunks newFirstChunk.identifier firstChunk.data.identifier), s)
        else if firstChunk.data.lazyPrevious ≠ some newFirstChunk.identifier then
          .ok (.error (.cannotConnectTwoChunks firstChunk.data.identifier newFirstChunk.identifier), s)
        else do
          let (new, s) := s.newLeaked newFirstChunk.identifier newFirstChunk.content
          if firstChunk.previous.isSome then .error .assertion
          else do
            let s ← s.setLazyPrevious first none
            let s ← s.setLazyPrevious new newFirstChunk.previous
            let heap ← deref (s.heap.modify first fun c => { c with previous := some new })
            let heap ← deref (heap.modify new fun c => { c with next := some first })
            let s := { s with heap := heap }.setFirst (some new)
            let s := s.setLastIf s.links.last.isNone (some first)
            let s ← s.emitNewFirstChunkUpdates new
            .ok (.ok (), s)

def replaceWith (s : LinkedChunk Item Gap) (chunk : Option (RawChunk Item Gap))
    (generator : ChunkIdentifierGenerator) :
      Except Fault (Except LazyLoaderError Unit × LinkedChunk Item Gap) :=
  match chunk with
  | none => do
    let s ← s.clear
    .ok (.ok (), s)
  | some chunk =>
    if cap < chunk.content.numItems then .ok (.error (.chunkTooLarge chunk.identifier), s)
    else if chunk.next.isSome then .ok (.error (.chunkIsNotLast chunk.identifier), s)
    else do
      let s := { s with chunkIdentifierGenerator := generator }
      let (new, s) := s.newLeaked chunk.identifier chunk.content
      let s ← s.setLazyPrevious new chunk.previous
      let s ← s.clearLinks
      let s := s.setFirst (some new)
      let s := s.pushClear
      let s ← s.emitNewFirstChunkUpdates new
      .ok (.ok (), s)

end LinkedChunk

/-! ## Runs of operations -/

/-- The operations of `LinkedChunk`. `observe` is any method that looks at the chunks, such as
`chunks()`, `items()` or `first_chunk()`: it may create the first chunk. -/
inductive Op (Item Gap : Type) where
  | pushItemsBack (items : List Item)
  | pushGapBack (content : Gap)
  | insertItemsAt (position : Position) (items : List Item)
  | removeItemAt (position : Position)
  | replaceItemAt (position : Position) (item : Item)
  | insertGapAt (content : Gap) (position : Position)
  | removeEmptyChunkAt (chunkIdentifier : ChunkIdentifier)
  | replaceGapAt (items : List Item) (chunkIdentifier : ChunkIdentifier)
  | clear
  | observe
  | insertNewFirstChunk (chunk : RawChunk Item Gap)
  | replaceWith (chunk : Option (RawChunk Item Gap)) (generator : ChunkIdentifierGenerator)

/-- What an operation returns when it succeeds. -/
inductive Outcome (Item Gap : Type) where
  | unit
  | item (item : Item)
  | nextPosition (position : Option Position)
  | chunk (chunk : ChunkData Item Gap)

inductive OpError where
  | linkedChunk (error : Error)
  | lazyLoader (error : LazyLoaderError)
deriving DecidableEq

namespace LinkedChunk

/-- The `Result` of an operation, as a result of any operation. -/
def outcome {ε α : Type} (f : ε → OpError) (g : α → Outcome Item Gap)
    (r : Except ε α × LinkedChunk Item Gap) :
    Except OpError (Outcome Item Gap) × LinkedChunk Item Gap :=
  ((r.1.mapError f).map g, r.2)

def step (cap : ℕ) (s : LinkedChunk Item Gap) :
    Op Item Gap → Except Fault (Except OpError (Outcome Item Gap) × LinkedChunk Item Gap)
  | .pushItemsBack items => (s.pushItemsBack cap items).map fun s => (.ok .unit, s)
  | .pushGapBack content => (s.pushGapBack content).map fun s => (.ok .unit, s)
  | .insertItemsAt position items =>
    (s.insertItemsAt cap position items).map (outcome .linkedChunk fun _ => .unit)
  | .removeItemAt position => (s.removeItemAt position).map (outcome .linkedChunk .item)
  | .replaceItemAt position item =>
    (s.replaceItemAt position item).map (outcome .linkedChunk fun _ => .unit)
  | .insertGapAt content position =>
    (s.insertGapAt cap content position).map (outcome .linkedChunk fun _ => .unit)
  | .removeEmptyChunkAt chunkIdentifier =>
    (s.removeEmptyChunkAt chunkIdentifier).map (outcome .linkedChunk .nextPosition)
  | .replaceGapAt items chunkIdentifier =>
    (s.replaceGapAt cap items chunkIdentifier).map (outcome .linkedChunk .chunk)
  | .clear => s.clear.map fun s => (.ok .unit, s)
  | .observe => .ok (.ok .unit, s.firstChunkPtr.2)
  | .insertNewFirstChunk chunk =>
    (s.insertNewFirstChunk cap chunk).map (outcome .lazyLoader fun _ => .unit)
  | .replaceWith chunk generator =>
    (s.replaceWith cap chunk generator).map (outcome .lazyLoader fun _ => .unit)

end LinkedChunk

end HaranaMatrix.Linked
