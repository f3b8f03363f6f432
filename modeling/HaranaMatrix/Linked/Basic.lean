import Mathlib

/-!
# The data of a linked chunk

Identifiers, positions, chunk contents, the updates a linked chunk emits, and its errors
(`linked_chunk/mod.rs`, `linked_chunk/updates.rs`, `linked_chunk/lazy_loader.rs`).
-/

namespace HaranaMatrix.Linked

@[ext]
structure ChunkIdentifier where
  index : ℕ
deriving DecidableEq, Repr

def u64Max : ℕ := 2 ^ 64 - 1

/-- The position of an item: its chunk, and its index inside that chunk. -/
structure Position where
  chunkIdentifier : ChunkIdentifier
  index : ℕ
deriving DecidableEq, Repr

inductive ChunkContent (Item Gap : Type) where
  | gap (gap : Gap)
  | items (items : List Item)
deriving DecidableEq, Repr

inductive Update (Item Gap : Type) where
  | newItemsChunk (previous : Option ChunkIdentifier) (new : ChunkIdentifier)
      (next : Option ChunkIdentifier)
  | newGapChunk (previous : Option ChunkIdentifier) (new : ChunkIdentifier)
      (next : Option ChunkIdentifier) (gap : Gap)
  | removeChunk (identifier : ChunkIdentifier)
  | pushItems («at» : Position) (items : List Item)
  | replaceItem («at» : Position) (item : Item)
  | removeItem («at» : Position)
  | detachLastItems («at» : Position)
  | startReattachItems
  | endReattachItems
  | clear
deriving DecidableEq, Repr

inductive Error where
  | invalidChunkIdentifier (identifier : ChunkIdentifier)
  | chunkIsAGap (identifier : ChunkIdentifier)
  | chunkIsItems (identifier : ChunkIdentifier)
  | removingNonEmptyItemsChunk (identifier : ChunkIdentifier)
  | removingLastChunk
  | invalidItemIndex (index : ℕ)
deriving DecidableEq, Repr

/-- `lazy_loader::LazyLoaderError`, the part that its three loading functions return. -/
inductive LazyLoaderError where
  | chunkTooLarge (id : ChunkIdentifier)
  | chunkIsNotLast (id : ChunkIdentifier)
  | cycle (newChunk withChunk : ChunkIdentifier)
  | missingNextChunk (id : ChunkIdentifier)
  | cannotConnectTwoChunks (newChunk withChunk : ChunkIdentifier)
deriving DecidableEq, Repr

/-- A chunk as it is persisted: its links are identifiers, not pointers. -/
structure RawChunk (Item Gap : Type) where
  content : ChunkContent Item Gap
  previous : Option ChunkIdentifier
  identifier : ChunkIdentifier
  next : Option ChunkIdentifier
deriving DecidableEq, Repr

/-- A `RawChunk` with the number of its items in place of its content. -/
structure ChunkMetadata where
  numItems : ℕ
  previous : Option ChunkIdentifier
  identifier : ChunkIdentifier
  next : Option ChunkIdentifier
deriving DecidableEq, Repr

/-- What stops the program: a panic, a pointer that leads nowhere, or a recursion without end. -/
inductive Fault where
  /-- the panic of `ChunkIdentifierGenerator::next` -/
  | noMoreIdentifiers
  /-- a dereference of a pointer to no chunk, or a chain of chunks without an end -/
  | invalidPointer
  | stackOverflow
  /-- a failed `expect`, `unwrap`, `debug_assert!` or `unreachable!` -/
  | assertion
deriving DecidableEq, Repr

variable {Item Gap : Type}

/-- The number of items; a gap has none. -/
def ChunkContent.numItems : ChunkContent Item Gap → ℕ
  | .gap _ => 0
  | .items xs => xs.length

/-- The items, in order; a gap has none. -/
def ChunkContent.toItems : ChunkContent Item Gap → List Item
  | .gap _ => []
  | .items xs => xs

@[simp] lemma ChunkContent.numItems_gap (gap : Gap) :
    (ChunkContent.gap gap : ChunkContent Item Gap).numItems = 0 := rfl

@[simp] lemma ChunkContent.numItems_items (xs : List Item) :
    (ChunkContent.items xs : ChunkContent Item Gap).numItems = xs.length := rfl

@[simp] lemma ChunkContent.toItems_gap (gap : Gap) :
    (ChunkContent.gap gap : ChunkContent Item Gap).toItems = [] := rfl

@[simp] lemma ChunkContent.toItems_items (xs : List Item) :
    (ChunkContent.items xs : ChunkContent Item Gap).toItems = xs := rfl

lemma ChunkContent.toItems_eq_nil {c : ChunkContent Item Gap} (h : c.numItems = 0) : c.toItems = [] := by
  cases c with
  | gap gap => rfl
  | items xs => exact List.length_eq_zero_iff.1 h

@[simp] lemma ChunkContent.length_toItems (c : ChunkContent Item Gap) : c.toItems.length = c.numItems := by
  cases c <;> rfl

end HaranaMatrix.Linked
