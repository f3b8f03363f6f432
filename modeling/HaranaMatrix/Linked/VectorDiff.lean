import HaranaMatrix.Linked.Edit
import HaranaMatrix.Lib.Sim
import HaranaMatrix.Lib.Splice

/-!
# From updates to vector diffs

`UpdateToVectorDiff` (`linked_chunk/as_vector.rs`) knows the identifier and the length of every chunk,
and turns updates into diffs of the flat list of items. It is verified against `Step`: when the updates
are a run of steps, the diffs turn the items before the run into the items after it.
-/

namespace HaranaMatrix.Linked

open List

variable {Item Gap : Type}

/-! ## Diffs -/

/-- The diffs of `eyeball_im::VectorDiff` that are emitted. -/
inductive VectorDiff (Item : Type) where
  | append (values : List Item)
  | insert (index : ℕ) (value : Item)
  | set (index : ℕ) (value : Item)
  | remove (index : ℕ)
  | clear
deriving DecidableEq, Repr

namespace VectorDiff

/-- The list after a diff, or `none` when the index is out of range. -/
def apply (v : List Item) : VectorDiff Item → Option (List Item)
  | append values => some (v ++ values)
  | insert index value => if index ≤ v.length then some (v.insertIdx index value) else none
  | set index value => if index < v.length then some (v.set index value) else none
  | remove index => if index < v.length then some (v.eraseIdx index) else none
  | clear => some []

def applyAll (v : List Item) (diffs : List (VectorDiff Item)) : Option (List Item) := diffs.foldlM apply v

lemma applyAll_append (v : List Item) (ds es : List (VectorDiff Item)) :
    applyAll v (ds ++ es) = (applyAll v ds).bind fun w => applyAll w es := foldlM_append

lemma applyAll_concat {v w : List Item} {ds : List (VectorDiff Item)} (h : applyAll v ds = some w)
    (d : VectorDiff Item) : applyAll v (ds ++ [d]) = apply w d := by
  rw [applyAll_append, h, Option.bind_some, applyAll, foldlM_cons]
  cases apply w d <;> rfl

lemma applyAll_insert (A items B : List Item) :
    applyAll (A ++ B) (items.mapIdx fun nth item => insert (A.length + nth) item) =
      some (A ++ items ++ B) := by
  induction items generalizing A with
  | nil => simp [applyAll]
  | cons x items ih =>
    have hlen : (fun nth item => insert (A.length + (nth + 1)) item) =
        fun nth (item : Item) => insert ((A ++ [x]).length + nth) item := by
      funext nth item
      congr 1
      simp only [length_append, length_singleton]
      omega
    have hrest := ih (A ++ [x])
    rw [mapIdx_cons, hlen]
    simp only [applyAll, foldlM_cons, apply, Nat.add_zero, length_append,
      Nat.le_add_right, if_true, insertIdx_append_length] at hrest ⊢
    simpa using hrest

end VectorDiff

/-! ## The mapper -/

/-- The messages of `error!`. Each one goes with an update that is skipped. -/
inductive Skipped where
  | nextChunkNotFound (next : ChunkIdentifier)
  | chunkNotFound (expected : ChunkIdentifier)
  | removedOutOfBounds (chunkIndex : ℕ)
  | detachedChunkNotFound (expected : ChunkIdentifier)
deriving DecidableEq, Repr

/-- All known chunks, each with its length. -/
structure UpdateToVectorDiff where
  chunks : List (ChunkIdentifier × ℕ)
deriving DecidableEq, Repr

/-- The variables of the loop of `map`, with the messages it logs. -/
structure Mapping (Item : Type) where
  chunks : List (ChunkIdentifier × ℕ)
  reattaching : Bool
  detaching : Bool
  acc : List (VectorDiff Item)
  skipped : List Skipped

namespace UpdateToVectorDiff

def new (chunks : List (ChunkData Item Gap)) : UpdateToVectorDiff :=
  ⟨chunks.map fun c => (c.identifier, c.content.numItems)⟩

def fromMetadata (metas : List ChunkMetadata) : UpdateToVectorDiff :=
  ⟨metas.map fun m => (m.identifier, m.numItems)⟩

def mapToOffsetFrom (expected : ChunkIdentifier) :
    ℕ → ℕ → List (ChunkIdentifier × ℕ) → Option (ℕ × ℕ × ℕ)
  | _, _, [] => none
  | offset, chunkIndex, (identifier, length) :: chunks =>
    if identifier = expected then some (offset, chunkIndex, length)
    else mapToOffsetFrom expected (offset + length) (chunkIndex + 1) chunks

/-- `map_to_offset`: the offset of a position in the flat list, and the index and the length of its
chunk. -/
def mapToOffset (chunks : List (ChunkIdentifier × ℕ)) (position : Position) : Option (ℕ × ℕ × ℕ) :=
  mapToOffsetFrom position.chunkIdentifier position.index 0 chunks

def skip (m : Mapping Item) (message : Skipped) : Mapping Item :=
  { m with skipped := m.skipped ++ [message] }

/-- `NewItemsChunk` and `NewGapChunk`. -/
def mapNewChunk (m : Mapping Item) (previous : Option ChunkIdentifier) (new : ChunkIdentifier)
    (next : Option ChunkIdentifier) : Except Fault (Mapping Item) :=
  match previous, next with
  | some _, none => .ok { m with chunks := m.chunks ++ [(new, 0)] }
  | none, some next =>
    -- a `debug_assert!`
    if m.chunks.head?.map Prod.fst = some next then .ok { m with chunks := (new, 0) :: m.chunks }
    else .error .assertion
  | some _, some next =>
    match m.chunks.findIdx? fun c => c.1 == next with
    | none => .ok (skip m (.nextChunkNotFound next))
    | some nextChunkIndex => .ok { m with chunks := m.chunks.insertIdx nextChunkIndex (new, 0) }
  | none, none =>
    if m.chunks.isEmpty then .ok { m with chunks := [(new, 0)] } else .error .assertion

/-- One turn of the loop of `map`. -/
def mapUpdate (m : Mapping Item) : Update Item Gap → Except Fault (Mapping Item)
  | .newItemsChunk previous new next => mapNewChunk m previous new next
  | .newGapChunk previous new next _ => mapNewChunk m previous new next
  | .removeChunk identifier =>
    match mapToOffset m.chunks ⟨identifier, 0⟩ with
    | none => .ok (skip m (.chunkNotFound identifier))
    | some (offset, chunkIndex, _) =>
      match m.chunks[chunkIndex]? with
      | none => .ok (skip m (.removedOutOfBounds chunkIndex))
      | some (_, numberOfItems) =>
        .ok { m with
          chunks := m.chunks.eraseIdx chunkIndex
          acc := m.acc ++ List.replicate numberOfItems (.remove offset) }
  | .pushItems position items =>
    match mapToOffset m.chunks position with
    | none => .ok (skip m (.chunkNotFound position.chunkIdentifier))
    | some (offset, chunkIndex, chunkLength) =>
      let isPushingBack := chunkIndex + 1 = m.chunks.length ∧ chunkLength ≤ position.index
      let m := { m with
        chunks := m.chunks.set chunkIndex (position.chunkIdentifier, chunkLength + items.length) }
      if m.reattaching then .ok m
      else if isPushingBack ∧ ¬ m.detaching then .ok { m with acc := m.acc ++ [.append items] }
      else .ok { m with acc := m.acc ++ items.mapIdx fun nth item => .insert (offset + nth) item }
  | .replaceItem position item =>
    match mapToOffset m.chunks position with
    | none => .ok (skip m (.chunkNotFound position.chunkIdentifier))
    | some (offset, _, _) => .ok { m with acc := m.acc ++ [.set offset item] }
  | .removeItem position =>
    match mapToOffset m.chunks position with
    | none => .ok (skip m (.chunkNotFound position.chunkIdentifier))
    | some (offset, chunkIndex, chunkLength) =>
      -- the subtraction of the length underflows
      if chunkLength = 0 then .error .assertion
      else
        let m := { m with chunks := m.chunks.set chunkIndex (position.chunkIdentifier, chunkLength - 1) }
        if m.reattaching then .ok m else .ok { m with acc := m.acc ++ [.remove offset] }
  | .detachLastItems position =>
    match m.chunks.findIdx? fun c => c.1 == position.chunkIdentifier with
    | none => .ok (skip m (.detachedChunkNotFound position.chunkIdentifier))
    | some chunkIndex =>
      .ok { m with
        chunks := m.chunks.set chunkIndex (position.chunkIdentifier, position.index)
        detaching := true }
  | .startReattachItems => .ok { m with reattaching := true }
  | .endReattachItems => .ok { m with reattaching := false, detaching := false }
  | .clear => .ok { m with chunks := [], acc := m.acc ++ [.clear] }

/-- The variables before the first turn. -/
def start (m : UpdateToVectorDiff) : Mapping Item := ⟨m.chunks, false, false, [], []⟩

/-- `UpdateToVectorDiff::map`: the diffs, the messages, and the new state. -/
def map (m : UpdateToVectorDiff) (updates : List (Update Item Gap)) :
    Except Fault (List (VectorDiff Item) × List Skipped × UpdateToVectorDiff) := do
  let r ← updates.foldlM mapUpdate m.start
  .ok (r.acc, r.skipped, ⟨r.chunks⟩)

end UpdateToVectorDiff

/-! ## The pairs of a list of chunks -/

/-- The identifier and the length of every chunk. -/
def lengths (cs : List (PlainChunk Item Gap)) : List (ChunkIdentifier × ℕ) :=
  cs.map fun c => (c.identifier, c.content.numItems)

section Lengths

variable (c : PlainChunk Item Gap) (cs ds pre post : List (PlainChunk Item Gap))

@[simp] lemma lengths_nil : lengths ([] : List (PlainChunk Item Gap)) = [] := rfl
@[simp] lemma lengths_cons : lengths (c :: cs) = (c.identifier, c.content.numItems) :: lengths cs := rfl
@[simp] lemma lengths_append : lengths (cs ++ ds) = lengths cs ++ lengths ds := map_append
@[simp] lemma length_lengths : (lengths cs).length = cs.length := length_map _

variable {c pre}

section

variable (h : c.identifier ∉ ids pre)
include h

lemma mapToOffsetFrom_lengths (offset chunkIndex : ℕ) :
    UpdateToVectorDiff.mapToOffsetFrom c.identifier offset chunkIndex (lengths (pre ++ c :: post)) =
      some (offset + (flatten pre).length, chunkIndex + pre.length, c.content.numItems) := by
  induction pre generalizing offset chunkIndex with
  | nil => simp [UpdateToVectorDiff.mapToOffsetFrom]
  | cons d pre ih =>
    simp only [ids_cons, mem_cons, not_or] at h
    have hne : d.identifier ≠ c.identifier := fun heq => h.1 heq.symm
    simp only [cons_append, lengths_cons, UpdateToVectorDiff.mapToOffsetFrom, hne, if_false, ih h.2]
    simp only [flatten_cons, length_append, ChunkContent.length_toItems, length_cons,
      Option.some.injEq, Prod.mk.injEq, and_true]
    omega

lemma mapToOffset_lengths (index : ℕ) :
    UpdateToVectorDiff.mapToOffset (lengths (pre ++ c :: post)) ⟨c.identifier, index⟩ =
      some (index + (flatten pre).length, pre.length, c.content.numItems) := by
  rw [UpdateToVectorDiff.mapToOffset, mapToOffsetFrom_lengths post h, Nat.zero_add]

lemma findIdx_lengths : (lengths (pre ++ c :: post)).findIdx? (fun d => d.1 == c.identifier) =
    some pre.length := by
  induction pre with
  | nil => simp [List.findIdx?_cons]
  | cons d pre ih =>
    simp only [ids_cons, mem_cons, not_or] at h
    have hne : (d.identifier == c.identifier) = false := by simpa using fun heq => h.1 heq.symm
    rw [cons_append, lengths_cons, List.findIdx?_cons, hne, ih h.2]
    simp

end

variable (c pre) in
lemma set_lengths (x : ChunkIdentifier × ℕ) :
    (lengths (pre ++ c :: post)).set pre.length x = lengths pre ++ x :: lengths post := by
  simp [set_append_right]

end Lengths

/-! ## The mapper follows every step -/

/-- Whether the last items of a chunk are detached. -/
def Edit.isDetached : Edit Item Gap → Bool
  | settled _ => false
  | detached _ _ _ _ _ => true

def Edit.isReattaching : Edit Item Gap → Bool
  | settled _ => false
  | detached _ _ _ _ reattaching => reattaching

/-- **The mapper knows the chunks**, and its diffs turn `copy` into their items. -/
structure Tracks (copy : List Item) (m : Mapping Item) (e : Edit Item Gap) : Prop where
  chunks : m.chunks = lengths e.chunks
  nodup : (ids e.chunks).Nodup
  detaching : m.detaching = e.isDetached
  reattaching : m.reattaching = e.isReattaching
  skipped : m.skipped = []
  diffs : VectorDiff.applyAll copy m.acc = some e.items

section Follow

open UpdateToVectorDiff VectorDiff

variable {base : Option ChunkIdentifier} {cap limit : ℕ} {e e' : Edit Item Gap} {u : Update Item Gap}
  {copy : List Item} {m : Mapping Item} {c : PlainChunk Item Gap} {pre post : List (PlainChunk Item Gap)}

lemma not_mem_of_nodup {α : Type} {x : α} {l l' : List α} (h : (l ++ x :: l').Nodup) : x ∉ l ∧ x ∉ l' := by
  have := (nodup_cons.1 (nodup_middle.1 h)).1
  simpa using this

/-- A new chunk between `pre` and `post`. What stands before it matters only when it is the
first. -/
lemma mapNewChunk_lengths (hm : m.chunks = lengths (pre ++ post)) (hn : (ids (pre ++ post)).Nodup)
    (previous : Option ChunkIdentifier) (hprevious : previous = none → pre = []) (new : ChunkIdentifier) :
    mapNewChunk m previous new (ids post).head? = .ok { m with chunks := lengths pre ++ (new, 0) :: lengths post } := by
  cases post with
  | nil =>
    cases previous with
    | some p => simp [mapNewChunk, hm]
    | none => simp [mapNewChunk, hm, hprevious rfl]
  | cons d post =>
    cases previous with
    | some p =>
      rw [ids_append, ids_cons] at hn
      simp only [mapNewChunk, ids_cons, List.head?_cons, hm, findIdx_lengths post (not_mem_of_nodup hn).1]
      rw [lengths_append, ← length_lengths, insertIdx_append_length]
    | none => simp [mapNewChunk, hm, hprevious rfl]

lemma mapUpdate_newChunkUpdate (m : Mapping Item) (previous next : Option ChunkIdentifier)
    (new : ChunkIdentifier) (content : ChunkContent Item Gap) :
    mapUpdate m (LinkedChunk.newChunkUpdate previous new next content) = mapNewChunk m previous new next := by
  cases content <;> rfl

lemma applyAll_push {v A B new : List Item} {ds : List (VectorDiff Item)} (h : applyAll v ds = some (A ++ B))
    {offset : ℕ} (ho : offset = A.length) :
    applyAll v (ds ++ new.mapIdx fun nth item => .insert (offset + nth) item) = some (A ++ new ++ B) := by
  rw [applyAll_append, h, Option.bind_some, ho, applyAll_insert]

lemma mapUpdate_pushItems {id : ChunkIdentifier} {xs : List Item} (new : List Item)
    (hm : m.chunks = lengths (pre ++ ⟨id, .items xs⟩ :: post))
    (hn : (ids (pre ++ ⟨id, .items xs⟩ :: post)).Nodup) :
    mapUpdate m (.pushItems ⟨id, xs.length⟩ new : Update Item Gap) = .ok { m with
      chunks := lengths (pre ++ ⟨id, .items (xs ++ new)⟩ :: post)
      acc := m.acc ++
        if m.reattaching then []
        else if post = [] ∧ ¬ m.detaching then [.append new]
        else new.mapIdx fun nth item => .insert (xs.length + (flatten pre).length + nth) item } := by
  rw [ids_append, ids_cons] at hn
  have hoffset := mapToOffset_lengths post (c := ⟨id, .items xs⟩) (not_mem_of_nodup hn).1 xs.length
  have hlast : pre.length + 1 = (lengths (pre ++ ⟨id, .items xs⟩ :: post)).length ↔ post = [] := by
    rw [length_lengths, length_append, length_cons, ← length_eq_zero_iff]
    omega
  have hset := set_lengths ⟨id, .items xs⟩ pre post (id, xs.length + new.length)
  simp only [mapUpdate, hm, hoffset, hlast, hset, ChunkContent.numItems_items, le_refl, and_true]
  have hlengths : lengths (pre ++ ⟨id, .items (xs ++ new)⟩ :: post) =
      lengths pre ++ (id, xs.length + new.length) :: lengths post := by simp
  rw [hlengths]
  split
  · simp
  · split <;> rfl

lemma index_lt {pre post : List (PlainChunk Item Gap)} {id : ChunkIdentifier} {xs : List Item}
    {i : ℕ} (hi : i < xs.length) :
    i + (flatten pre).length < (Edit.settled (pre ++ ⟨id, .items xs⟩ :: post)).items.length := by
  simp [Edit.items]
  omega

/-- **The mapper follows every step.** -/
theorem mapUpdate_follows (h : Step base cap limit e u e') (ht : Tracks copy m e) :
    ∃ m', mapUpdate m u = .ok m' ∧ Tracks copy m' e' := by
  have hnodup := h.nodup ht.nodup
  have hchunks := ht.chunks
  have hdiffs := ht.diffs
  have hn := ht.nodup
  cases h with
  | newChunk pre post id content hempty hfresh _ =>
    have hmap := mapNewChunk_lengths hchunks hn ((ids pre).getLast?.or base)
      (fun hnone => by simpa [ids] using (Option.or_eq_none_iff.1 hnone).1) id
    refine ⟨_, (mapUpdate_newChunkUpdate _ _ _ _ _).trans hmap, ?_, hnodup, ht.detaching,
      ht.reattaching, ht.skipped, ?_⟩
    · simp [Edit.chunks, hempty]
    · simpa [Edit.items, ChunkContent.toItems_eq_nil hempty] using hdiffs
  | newChunkDetached pre post cur rest r id content hempty hfresh _ =>
    have hmap := @mapNewChunk_lengths _ _ m (pre ++ [cur]) post (by simpa [Edit.chunks] using hchunks)
      (by simpa [Edit.chunks] using hn) (some cur.identifier) (by simp) id
    refine ⟨_, (mapUpdate_newChunkUpdate _ _ _ _ _).trans hmap, ?_, hnodup, ht.detaching,
      ht.reattaching, ht.skipped, ?_⟩
    · simp [Edit.chunks, hempty]
    · simpa [Edit.items, ChunkContent.toItems_eq_nil hempty] using hdiffs
  | removeChunk pre post c hempty =>
    have hc := (not_mem_of_nodup (by simpa [Edit.chunks] using hn)).1
    refine ⟨{ m with chunks := lengths (pre ++ post) }, ?_, rfl, hnodup, ht.detaching, ht.reattaching, ht.skipped, ?_⟩
    · have hget : (lengths (pre ++ c :: post))[pre.length]? = some (c.identifier, 0) := by
        simp [lengths, hempty]
      have herase : (lengths (pre ++ c :: post)).eraseIdx pre.length = lengths (pre ++ post) := by
        simp [eraseIdx_append_of_length_le]
      simp only [mapUpdate, hchunks, Edit.chunks, mapToOffset_lengths post hc, hget, herase,
        replicate_zero, append_nil]
    · simpa [Edit.items, ChunkContent.toItems_eq_nil hempty] using hdiffs
  | pushItems pre post id xs new hcap =>
    refine ⟨_, mapUpdate_pushItems new hchunks hn, rfl, hnodup, ht.detaching, ht.reattaching, ht.skipped, ?_⟩
    have hd : m.detaching = false := ht.detaching
    have hr : m.reattaching = false := ht.reattaching
    have hitems : applyAll copy m.acc = some ((flatten pre ++ xs) ++ flatten post) := by
      simpa [Edit.items] using hdiffs
    simp only [hd, hr, Bool.false_eq_true, if_false, not_false_eq_true, and_true]
    split
    · next hpost =>
      subst hpost
      rw [applyAll_concat hitems]
      simp [VectorDiff.apply, Edit.items]
    · simpa [Edit.items] using applyAll_push hitems (by simp [Nat.add_comm])
  | replaceItem pre post id xs i x hi =>
    have hc := (not_mem_of_nodup (by simpa [Edit.chunks] using hn)).1
    refine ⟨{ m with acc := m.acc ++ [.set (i + (flatten pre).length) x] }, ?_, ?_, hnodup, ht.detaching,
      ht.reattaching, ht.skipped, ?_⟩
    · have := mapToOffset_lengths post (c := ⟨id, .items xs⟩) hc i
      simp only [mapUpdate, hchunks, Edit.chunks, this]
    · simpa [Edit.chunks] using hchunks
    · rw [applyAll_concat hdiffs, VectorDiff.apply, if_pos (index_lt hi)]
      simp only [Edit.items, flatten_append, flatten_cons, ChunkContent.toItems_items]
      rw [set_append_right _ _ (by omega), Nat.add_sub_cancel, set_append_left _ _ hi]
  | removeItem pre post id xs i hi =>
    have hc := (not_mem_of_nodup (by simpa [Edit.chunks] using hn)).1
    refine ⟨{ m with
      chunks := lengths (pre ++ ⟨id, .items (xs.eraseIdx i)⟩ :: post)
      acc := m.acc ++ [.remove (i + (flatten pre).length)] }, ?_, rfl, hnodup, ht.detaching,
      ht.reattaching, ht.skipped, ?_⟩
    · have hoffset := mapToOffset_lengths post (c := ⟨id, .items xs⟩) hc i
      have hr : m.reattaching = false := ht.reattaching
      have hpos : xs.length ≠ 0 := by omega
      have hlen : (xs.eraseIdx i).length = xs.length - 1 := length_eraseIdx_of_lt hi
      simp only [mapUpdate, hchunks, Edit.chunks, hoffset, set_lengths, ChunkContent.numItems_items, hpos,
        if_false, hr, Bool.false_eq_true]
      simp [hlen]
    · rw [applyAll_concat hdiffs, VectorDiff.apply, if_pos (index_lt hi)]
      simp only [Edit.items, flatten_append, flatten_cons, ChunkContent.toItems_items]
      rw [eraseIdx_append_of_length_le (by omega), Nat.add_sub_cancel, eraseIdx_append_of_lt_length hi]
  | detachLastItems pre post id xs i hi =>
    have hc := (not_mem_of_nodup (by simpa [Edit.chunks] using hn)).1
    refine ⟨{ m with
      chunks := lengths (pre ++ ⟨id, .items (xs.take i)⟩ :: post)
      detaching := true }, ?_, rfl, hnodup, rfl, ht.reattaching, ht.skipped, ?_⟩
    · have hfind := findIdx_lengths post (c := ⟨id, .items xs⟩) hc
      have hlen : (xs.take i).length = i := length_take_of_le hi.le
      simp only [mapUpdate, hchunks, Edit.chunks, hfind, set_lengths]
      simp [hlen]
    · simpa [Edit.items] using hdiffs
  | pushItemsDetached pre post id xs new rest hcap =>
    refine ⟨_, mapUpdate_pushItems new hchunks hn, rfl, hnodup, ht.detaching, ht.reattaching, ht.skipped, ?_⟩
    have hd : m.detaching = true := ht.detaching
    have hr : m.reattaching = false := ht.reattaching
    have hitems : applyAll copy m.acc = some ((flatten pre ++ xs) ++ (rest ++ flatten post)) := by
      simpa [Edit.items] using hdiffs
    simp only [hd, hr, Bool.false_eq_true, if_false, not_true_eq_false, and_false]
    simpa [Edit.items] using applyAll_push hitems (by simp [Nat.add_comm])
  | startReattachItems pre post cur rest =>
    exact ⟨_, rfl, hchunks, hnodup, ht.detaching, rfl, ht.skipped, hdiffs⟩
  | pushItemsReattached pre post id xs new rest hcap =>
    refine ⟨_, mapUpdate_pushItems new hchunks hn, rfl, hnodup, ht.detaching, ht.reattaching, ht.skipped, ?_⟩
    have hr : m.reattaching = true := ht.reattaching
    simpa [hr, Edit.items] using hdiffs
  | endReattachItems pre post cur =>
    refine ⟨_, rfl, hchunks, hnodup, rfl, rfl, ht.skipped, ?_⟩
    simpa [Edit.items] using hdiffs

end Follow

/-! ## Updates that wait for the mapper -/

/-- Once the mapper `m` has read `queue`, it knows the chunks `cs`, and its diffs turn `copy` into
their items. -/
def Pending (copy : List Item) (m : UpdateToVectorDiff) (queue : List (Update Item Gap))
    (cs : List (PlainChunk Item Gap)) : Prop :=
  ∃ r, queue.foldlM UpdateToVectorDiff.mapUpdate m.start = .ok r ∧ Tracks copy r (.settled cs)

section Pending

variable {copy : List Item} {m : UpdateToVectorDiff} {queue us : List (Update Item Gap)}
  {cs ds : List (PlainChunk Item Gap)}

lemma pending_nil (hn : (ids cs).Nodup) : Pending (flatten cs) ⟨lengths cs⟩ [] cs :=
  ⟨_, rfl, rfl, hn, rfl, rfl, rfl, rfl⟩

lemma Pending.append {base : Option ChunkIdentifier} {cap limit : ℕ} (h : Pending copy m queue cs)
    (hs : Steps base cap limit (.settled cs) us (.settled ds)) : Pending copy m (queue ++ us) ds := by
  obtain ⟨r, hr, ht⟩ := h
  obtain ⟨r', hr', ht'⟩ := hs.follows (R := Tracks copy) (fun _ _ _ _ hstep ht => mapUpdate_follows hstep ht) ht
  refine ⟨r', ?_, ht'⟩
  rw [foldlM_append, hr]
  exact hr'

lemma pending_clear (copy : List Item) (m : UpdateToVectorDiff) :
    Pending copy m [(.clear : Update Item Gap)] [] :=
  ⟨_, rfl, rfl, by simp [Edit.chunks], rfl, rfl, rfl, rfl⟩

/-- **The mapper never skips an update**, and its diffs are never out of range. -/
lemma Pending.map (h : Pending copy m queue cs) :
    ∃ diffs, m.map queue = .ok (diffs, [], ⟨lengths cs⟩) ∧
      VectorDiff.applyAll copy diffs = some (flatten cs) := by
  obtain ⟨r, hr, ht⟩ := h
  refine ⟨r.acc, ?_, ht.diffs⟩
  rw [UpdateToVectorDiff.map, hr, ok_bind, ht.skipped, ht.chunks]
  rfl

lemma Pending.nodup (h : Pending copy m queue cs) : (ids cs).Nodup := by
  obtain ⟨r, -, ht⟩ := h
  exact ht.nodup

end Pending

end HaranaMatrix.Linked
