import HaranaMatrix.Linked.Ops

/-!
# The linked chunk as a list of chunks

`Chain` is a linked chunk without pointers: its chunks in order, and its generator. Each operation is
stated on the list, with the updates it emits. `Linked.Refine` shows that the pointer program does
exactly this; what follows about identifiers, items and updates is proved here, on lists.
-/

namespace HaranaMatrix.Linked

variable {Item Gap : Type}

/-- The chunks in order. An empty list stands for a first chunk that is not created yet. -/
structure Chain (Item Gap : Type) where
  chunks : List (ChunkData Item Gap)
  generator : ChunkIdentifierGenerator

/-- The identifier of the first chunk of a list. -/
def headId (cs : List (ChunkData Item Gap)) : Option ChunkIdentifier := cs.head?.map (·.identifier)

/-- The identifier of the last chunk of a list. -/
def lastId (cs : List (ChunkData Item Gap)) : Option ChunkIdentifier := cs.getLast?.map (·.identifier)

/-- The last chunk with a given identifier, with what stands before and after it. -/
def findSplit (identifier : ChunkIdentifier) : List (ChunkData Item Gap) →
    Option (List (ChunkData Item Gap) × ChunkData Item Gap × List (ChunkData Item Gap))
  | [] => none
  | c :: cs =>
    match findSplit identifier cs with
    | some (pre, d, post) => some (c :: pre, d, post)
    | none => if c.identifier = identifier then some ([], c, cs) else none

section FindSplit

variable {id : ChunkIdentifier} {cs pre post : List (ChunkData Item Gap)} {c : ChunkData Item Gap}

theorem findSplit_none : findSplit id cs = none ↔ ∀ x ∈ cs, x.identifier ≠ id := by
  induction cs with
  | nil => simp [findSplit]
  | cons d cs ih =>
    cases h : findSplit id cs with
    | none => simpa [findSplit, h] using fun _ => ih.1 h
    | some r =>
      have hex : ¬ ∀ x ∈ cs, x.identifier ≠ id := fun hall => by simp [ih.2 hall] at h
      simp only [findSplit, h, List.mem_cons, forall_eq_or_imp, hex, and_false, iff_false]
      simp

theorem findSplit_some (h : findSplit id cs = some (pre, c, post)) :
    cs = pre ++ c :: post ∧ c.identifier = id ∧ ∀ x ∈ post, x.identifier ≠ id := by
  induction cs generalizing pre with
  | nil => simp [findSplit] at h
  | cons d cs ih =>
    simp only [findSplit] at h
    split at h
    · next hr =>
      obtain ⟨rfl, rfl, rfl⟩ := h
      obtain ⟨rfl, hid, hpost⟩ := ih hr
      exact ⟨rfl, hid, hpost⟩
    · next hr =>
      split at h
      · next hid =>
        obtain ⟨rfl, rfl, rfl⟩ := h
        exact ⟨rfl, hid, findSplit_none.1 hr⟩
      · cases h

end FindSplit

/-- The chunk after a removed one inherits its `lazy_previous`. -/
def passLazy (lazyPrevious : Option ChunkIdentifier) :
    List (ChunkData Item Gap) → List (ChunkData Item Gap)
  | [] => []
  | c :: cs => { c with lazyPrevious := lazyPrevious } :: cs

/-- What `push_items` makes of one chunk: the chunks before the last one, the last one, the
generator and the updates. -/
structure Pushed (Item Gap : Type) where
  done : List (ChunkData Item Gap)
  last : ChunkData Item Gap
  generator : ChunkIdentifierGenerator
  updates : List (Update Item Gap)

def Pushed.chunks (r : Pushed Item Gap) : List (ChunkData Item Gap) := r.done ++ [r.last]

/-- `push_items` on a chunk `c` that is followed by the chunk `next`. -/
def pushChunks (cap : ℕ) (next : Option ChunkIdentifier) :
    ℕ → ChunkIdentifierGenerator → ChunkData Item Gap → List Item → Except Fault (Pushed Item Gap)
  | 0, _, _, _ => .error .stackOverflow
  | fuel + 1, g, c, newItems =>
    if newItems.length = 0 then .ok ⟨[], c, g, []⟩
    else
      match c.content with
      | .gap _ => do
        let (new, g) ← g.next
        let r ← pushChunks cap next fuel g ⟨none, new, .items []⟩ newItems
        .ok { r with
          done := c :: r.done
          updates := .newItemsChunk (some c.identifier) new next :: r.updates }
      | .items items =>
        let freeSpace := cap - items.length
        if newItems.length ≤ freeSpace then
          .ok ⟨[], { c with content := .items (items ++ newItems) }, g,
            [.pushItems ⟨c.identifier, items.length⟩ newItems]⟩
        else do
          let (new, g) ← g.next
          let r ← pushChunks cap next fuel g ⟨none, new, .items []⟩ (newItems.drop freeSpace)
          .ok { r with
            done := { c with content := .items (items ++ newItems.take freeSpace) } :: r.done
            updates :=
              (if 0 < freeSpace then
                [.pushItems ⟨c.identifier, items.length⟩ (newItems.take freeSpace)] else []) ++
              .newItemsChunk (some c.identifier) new next :: r.updates }

def pushChunksOn (cap : ℕ) (next : Option ChunkIdentifier) (g : ChunkIdentifierGenerator)
    (c : ChunkData Item Gap) (newItems : List Item) : Except Fault (Pushed Item Gap) :=
  pushChunks cap next (newItems.length + 1) g c newItems

/-- What an operation gives: its result, the new chain, and the updates it emits. -/
abbrev Emits (Item Gap α : Type) : Type := α × Chain Item Gap × List (Update Item Gap)

namespace Chain

def new : Chain Item Gap := ⟨[], .newFromScratch⟩

variable (a : Chain Item Gap)

/-- The first chunk is created at its first use. -/
def touch : Chain Item Gap × List (Update Item Gap) :=
  match a.chunks with
  | [] =>
    ({ a with chunks := [⟨none, ChunkIdentifierGenerator.firstIdentifier, .items []⟩] },
      [.newItemsChunk none ChunkIdentifierGenerator.firstIdentifier none])
  | _ :: _ => (a, [])

@[simp] lemma touch_cons (c : ChunkData Item Gap) (cs : List (ChunkData Item Gap))
    (g : ChunkIdentifierGenerator) : touch ⟨c :: cs, g⟩ = (⟨c :: cs, g⟩, []) := rfl

@[simp] lemma touch_touch : a.touch.1.touch = (a.touch.1, []) := by
  obtain ⟨_ | ⟨c, cs⟩, g⟩ := a <;> rfl

@[simp] lemma touch_generator : a.touch.1.generator = a.generator := by
  obtain ⟨_ | ⟨c, cs⟩, g⟩ := a <;> rfl

/-- The chunks before the last chunk, and the last chunk. -/
def splitLast : Option (List (ChunkData Item Gap) × ChunkData Item Gap) :=
  a.chunks.getLast?.map fun c => (a.chunks.dropLast, c)

variable (cap : ℕ)

def pushItemsBack (a : Chain Item Gap) (items : List Item) : Except Fault (Emits Item Gap Unit) :=
  let (a, us) := a.touch
  match a.splitLast with
  | none => .ok ((), a, us)
  | some (pre, c) => do
    let r ← pushChunksOn cap none a.generator c items
    .ok ((), ⟨pre ++ r.chunks, r.generator⟩, us ++ r.updates)

def pushGapBack (content : Gap) : Except Fault (Emits Item Gap Unit) := do
  let (a, us) := a.touch
  let (new, g) ← a.generator.next
  .ok ((), ⟨a.chunks ++ [⟨none, new, .gap content⟩], g⟩,
    us ++ [.newGapChunk (lastId a.chunks) new none content])

def insertItemsAt (a : Chain Item Gap) (position : Position) (items : List Item) :
    Except Fault (Emits Item Gap (Except Error Unit)) :=
  let (a, us) := a.touch
  match findSplit position.chunkIdentifier a.chunks with
  | none => .ok (.error (.invalidChunkIdentifier position.chunkIdentifier), a, us)
  | some (pre, c, post) =>
    match c.content with
    | .gap _ => .ok (.error (.chunkIsAGap position.chunkIdentifier), a, us)
    | .items current =>
      if current.length < position.index then .ok (.error (.invalidItemIndex position.index), a, us)
      else if position.index = current.length then do
        let r ← pushChunksOn cap (headId post) a.generator c items
        .ok (.ok (), ⟨pre ++ r.chunks ++ post, r.generator⟩, us ++ r.updates)
      else do
        let kept := { c with content := .items (current.take position.index) }
        let r ← pushChunksOn cap (headId post) a.generator kept items
        let r' ← pushChunksOn cap (headId post) r.generator r.last (current.drop position.index)
        .ok (.ok (), ⟨pre ++ r.done ++ r'.chunks ++ post, r'.generator⟩,
          us ++ .detachLastItems position :: r.updates ++ .startReattachItems :: r'.updates ++ [.endReattachItems])

def removeItemAt (position : Position) : Emits Item Gap (Except Error Item) :=
  let (a, us) := a.touch
  match findSplit position.chunkIdentifier a.chunks with
  | none => (.error (.invalidChunkIdentifier position.chunkIdentifier), a, us)
  | some (pre, c, post) =>
    match c.content with
    | .gap _ => (.error (.chunkIsAGap position.chunkIdentifier), a, us)
    | .items current =>
      match current[position.index]? with
      | none => (.error (.invalidItemIndex position.index), a, us)
      | some removedItem =>
        if (current.eraseIdx position.index).isEmpty ∧ pre ≠ [] then
          (.ok removedItem, { a with chunks := pre ++ passLazy c.lazyPrevious post },
            us ++ [.removeItem position, .removeChunk c.identifier])
        else
          (.ok removedItem,
            { a with
              chunks := pre ++ { c with content := .items (current.eraseIdx position.index) } :: post },
            us ++ [.removeItem position])

def replaceItemAt (position : Position) (item : Item) : Emits Item Gap (Except Error Unit) :=
  let (a, us) := a.touch
  match findSplit position.chunkIdentifier a.chunks with
  | none => (.error (.invalidChunkIdentifier position.chunkIdentifier), a, us)
  | some (pre, c, post) =>
    match c.content with
    | .gap _ => (.error (.chunkIsAGap position.chunkIdentifier), a, us)
    | .items current =>
      if current.length ≤ position.index then (.error (.invalidItemIndex position.index), a, us)
      else
        (.ok (),
          { a with
            chunks := pre ++ { c with content := .items (current.set position.index item) } :: post },
          us ++ [.replaceItem position item])

def insertGapAt (a : Chain Item Gap) (content : Gap) (position : Position) :
    Except Fault (Emits Item Gap (Except Error Unit)) :=
  let (a, us) := a.touch
  match findSplit position.chunkIdentifier a.chunks with
  | none => .ok (.error (.invalidChunkIdentifier position.chunkIdentifier), a, us)
  | some (pre, c, post) =>
    match c.content with
    | .gap _ => .ok (.error (.chunkIsAGap position.chunkIdentifier), a, us)
    | .items current =>
      if position.index = 0 then do
        let (new, g) ← a.generator.next
        -- in front of the first chunk, the gap takes over its `lazy_previous`
        let lazyPrevious := if pre = [] then c.lazyPrevious else none
        let c := if pre = [] then { c with lazyPrevious := none } else c
        .ok (.ok (), ⟨pre ++ ⟨lazyPrevious, new, .gap content⟩ :: c :: post, g⟩,
          us ++ [.newGapChunk ((lastId pre).or lazyPrevious) new (some c.identifier) content])
      else if current.length ≤ position.index then
        .ok (.error (.invalidItemIndex position.index), a, us)
      else do
        let kept := { c with content := .items (current.take position.index) }
        let (newGap, g) ← a.generator.next
        let (newItems, g) ← g.next
        let r ← pushChunksOn cap (headId post) g ⟨none, newItems, .items []⟩
          (current.drop position.index)
        .ok (.ok (), ⟨pre ++ kept :: ⟨none, newGap, .gap content⟩ :: r.chunks ++ post, r.generator⟩,
          us ++ .detachLastItems position :: .newGapChunk (some c.identifier) newGap (headId post) content ::
            .startReattachItems :: .newItemsChunk (some newGap) newItems (headId post) :: r.updates ++
            [.endReattachItems])

def removeEmptyChunkAt (chunkIdentifier : ChunkIdentifier) :
    Emits Item Gap (Except Error (Option Position)) :=
  let (a, us) := a.touch
  if a.chunks.length ≤ 1 then (.error .removingLastChunk, a, us)
  else
    match findSplit chunkIdentifier a.chunks with
    | none => (.error (.invalidChunkIdentifier chunkIdentifier), a, us)
    | some (pre, c, post) =>
      if 0 < c.content.numItems then (.error (.removingNonEmptyItemsChunk chunkIdentifier), a, us)
      else
        (.ok ((headId post).map fun next => ⟨next, 0⟩),
          { a with chunks := pre ++ passLazy c.lazyPrevious post },
          us ++ [.removeChunk c.identifier])

def replaceGapAt (a : Chain Item Gap) (items : List Item) (chunkIdentifier : ChunkIdentifier) :
    Except Fault (Emits Item Gap (Except Error (ChunkData Item Gap))) :=
  let (a, us) := a.touch
  match findSplit chunkIdentifier a.chunks with
  | none => .ok (.error (.invalidChunkIdentifier chunkIdentifier), a, us)
  | some (pre, c, post) =>
    match c.content with
    | .items _ => .ok (.error (.chunkIsItems chunkIdentifier), a, us)
    | .gap _ => do
      let (new, g) ← a.generator.next
      let r ← pushChunksOn cap (headId post) g ⟨none, new, .items []⟩ items
      let first := r.chunks.headD r.last
      .ok (.ok { first with lazyPrevious := c.lazyPrevious },
        ⟨pre ++ passLazy c.lazyPrevious (r.chunks ++ post), r.generator⟩,
        us ++ .newItemsChunk (some c.identifier) new (headId post) :: r.updates ++ [.removeChunk c.identifier])

def clear (_ : Chain Item Gap) : Chain Item Gap × List (Update Item Gap) := (new, [.clear])

def newFirstChunkUpdates (c : ChunkData Item Gap) (next : Option ChunkIdentifier) : List (Update Item Gap) :=
  match c.content with
  | .gap gap => [.newGapChunk c.lazyPrevious c.identifier next gap]
  | .items items =>
    [.newItemsChunk c.lazyPrevious c.identifier next, .pushItems ⟨c.identifier, 0⟩ items]

def insertNewFirstChunk (a : Chain Item Gap) (chunk : RawChunk Item Gap) :
    Emits Item Gap (Except LazyLoaderError Unit) :=
  if cap < chunk.content.numItems then (.error (.chunkTooLarge chunk.identifier), a, [])
  else
    let (a, us) := a.touch
    match chunk.previous.filter fun p => a.chunks.any fun c => c.identifier == p with
    | some previousChunk => (.error (.cycle chunk.identifier previousChunk), a, us)
    | none =>
      match a.chunks with
      | [] => (.ok (), a, us)
      | first :: rest =>
        match chunk.next with
        | none => (.error (.missingNextChunk chunk.identifier), a, us)
        | some nextChunk =>
          if nextChunk ≠ first.identifier then
            (.error (.cannotConnectTwoChunks chunk.identifier first.identifier), a, us)
          else if first.lazyPrevious ≠ some chunk.identifier then
            (.error (.cannotConnectTwoChunks first.identifier chunk.identifier), a, us)
          else
            let c := ⟨chunk.previous, chunk.identifier, chunk.content⟩
            (.ok (), { a with chunks := c :: { first with lazyPrevious := none } :: rest },
              us ++ newFirstChunkUpdates c (some first.identifier))

def replaceWith (a : Chain Item Gap) (chunk : Option (RawChunk Item Gap))
    (generator : ChunkIdentifierGenerator) : Emits Item Gap (Except LazyLoaderError Unit) :=
  match chunk with
  | none => (.ok (), a.clear)
  | some chunk =>
    if cap < chunk.content.numItems then (.error (.chunkTooLarge chunk.identifier), a, [])
    else if chunk.next.isSome then (.error (.chunkIsNotLast chunk.identifier), a, [])
    else
      let c := ⟨chunk.previous, chunk.identifier, chunk.content⟩
      (.ok (), ⟨[c], generator⟩, .clear :: newFirstChunkUpdates c none)

/-! ## Any operation -/

/-- The `Result` of an operation, as a result of any operation. -/
def outcome {ε α : Type} (f : ε → OpError) (g : α → Outcome Item Gap)
    (r : Emits Item Gap (Except ε α)) : Emits Item Gap (Except OpError (Outcome Item Gap)) :=
  ((r.1.mapError f).map g, r.2)

def step (a : Chain Item Gap) :
    Op Item Gap → Except Fault (Emits Item Gap (Except OpError (Outcome Item Gap)))
  | .pushItemsBack items => (a.pushItemsBack cap items).map fun r => (.ok .unit, r.2)
  | .pushGapBack content => (a.pushGapBack content).map fun r => (.ok .unit, r.2)
  | .insertItemsAt position items =>
    (a.insertItemsAt cap position items).map (outcome .linkedChunk fun _ => .unit)
  | .removeItemAt position => .ok (outcome .linkedChunk .item (a.removeItemAt position))
  | .replaceItemAt position item =>
    .ok (outcome .linkedChunk (fun _ => .unit) (a.replaceItemAt position item))
  | .insertGapAt content position =>
    (a.insertGapAt cap content position).map (outcome .linkedChunk fun _ => .unit)
  | .removeEmptyChunkAt chunkIdentifier =>
    .ok (outcome .linkedChunk .nextPosition (a.removeEmptyChunkAt chunkIdentifier))
  | .replaceGapAt items chunkIdentifier =>
    (a.replaceGapAt cap items chunkIdentifier).map (outcome .linkedChunk .chunk)
  | .clear => .ok (.ok .unit, a.clear)
  | .observe => .ok (.ok .unit, a.touch)
  | .insertNewFirstChunk chunk =>
    .ok (outcome .lazyLoader (fun _ => .unit) (a.insertNewFirstChunk cap chunk))
  | .replaceWith chunk generator =>
    .ok (outcome .lazyLoader (fun _ => .unit) (a.replaceWith cap chunk generator))

end Chain

end HaranaMatrix.Linked
