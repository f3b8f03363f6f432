import HaranaMatrix.Lib.Trace
import HaranaMatrix.Linked.Chain

/-!
# What one update says about the chunks

An operation emits a list of updates, and a reader of updates sees the chunks between two of them.
`Edit` is what such a reader may see: chunks at rest, or chunks from which the last items of one chunk
are detached and wait to be reattached. `Step` says, update by update, what can follow what. Every
reader of updates in this development is verified against `Step`, and every operation is shown to
emit a run of steps.
-/

namespace HaranaMatrix.Linked

open List

variable {Item Gap : Type}

/-- A chunk without its links. -/
structure PlainChunk (Item Gap : Type) where
  identifier : ChunkIdentifier
  content : ChunkContent Item Gap
deriving DecidableEq, Repr

variable (cs : List (PlainChunk Item Gap))

/-- The identifiers of chunks, in order. -/
def ids : List ChunkIdentifier := cs.map (·.identifier)

/-- The items of chunks, in order. -/
def flatten : List Item := cs.flatMap fun c => c.content.toItems

/-- All items with their positions, in order. -/
def positioned : List (Position × Item) :=
  cs.flatMap fun c => c.content.toItems.zipIdx.map fun x => (⟨c.identifier, x.2⟩, x.1)

section Lists

variable (c : PlainChunk Item Gap) (cs ds : List (PlainChunk Item Gap))

@[simp] lemma ids_nil : ids ([] : List (PlainChunk Item Gap)) = [] := rfl
@[simp] lemma ids_cons : ids (c :: cs) = c.identifier :: ids cs := rfl
@[simp] lemma ids_append : ids (cs ++ ds) = ids cs ++ ids ds := map_append

@[simp] lemma flatten_nil : flatten ([] : List (PlainChunk Item Gap)) = [] := rfl
@[simp] lemma flatten_cons : flatten (c :: cs) = c.content.toItems ++ flatten cs := rfl
@[simp] lemma flatten_append : flatten (cs ++ ds) = flatten cs ++ flatten ds := flatMap_append

@[simp] lemma positioned_append : positioned (cs ++ ds) = positioned cs ++ positioned ds := flatMap_append

lemma positioned_cons : positioned (c :: cs) =
    (c.content.toItems.zipIdx.map fun x => ((⟨c.identifier, x.2⟩ : Position), x.1)) ++ positioned cs := rfl

lemma mem_positioned {cs : List (PlainChunk Item Gap)} {x : Position × Item} (h : x ∈ positioned cs) :
    x.1.chunkIdentifier ∈ ids cs := by
  obtain ⟨c, hc, hx⟩ := mem_flatMap.1 h
  obtain ⟨y, -, rfl⟩ := mem_map.1 hx
  exact mem_map_of_mem hc

lemma nodup_positioned {cs : List (PlainChunk Item Gap)} (hn : (ids cs).Nodup) :
    ((positioned cs).map Prod.fst).Nodup := by
  induction cs with
  | nil => simp [positioned]
  | cons c cs ih =>
    rw [ids_cons, nodup_cons] at hn
    have hfst : (c.content.toItems.zipIdx.map fun x => ((⟨c.identifier, x.2⟩ : Position), x.1)).map Prod.fst =
        (List.range' 0 c.content.numItems).map (Position.mk c.identifier) := by
      rw [← ChunkContent.length_toItems, ← zipIdx_map_snd 0 c.content.toItems, map_map, map_map]
      rfl
    rw [positioned_cons, map_append, nodup_append, hfst]
    refine ⟨(nodup_range' _).map fun i j hij => (Position.mk.inj hij).2, ih hn.2, ?_⟩
    rintro p hp q hq rfl
    obtain ⟨i, -, rfl⟩ := mem_map.1 hp
    obtain ⟨x, hx, heq⟩ := mem_map.1 hq
    have := mem_positioned hx
    rw [heq] at this
    exact hn.1 this

lemma map_snd_positioned : (positioned cs).map Prod.snd = flatten cs := by
  induction cs with
  | nil => rfl
  | cons c cs ih =>
    rw [positioned_cons, map_append, ih, flatten_cons, map_map]
    exact congrArg (· ++ flatten cs) (zipIdx_map_fst 0 _)

end Lists

/-- Chunks at rest, or chunks whose chunk `cur` has lost the items `rest`. -/
inductive Edit (Item Gap : Type) where
  | settled (chunks : List (PlainChunk Item Gap))
  | detached (pre : List (PlainChunk Item Gap)) (cur : PlainChunk Item Gap)
      (post : List (PlainChunk Item Gap)) (rest : List Item) (reattaching : Bool)

namespace Edit

def chunks : Edit Item Gap → List (PlainChunk Item Gap)
  | settled cs => cs
  | detached pre cur post _ _ => pre ++ cur :: post

/-- The items, the detached ones at the place they will come back to. -/
def items : Edit Item Gap → List Item
  | settled cs => flatten cs
  | detached pre cur post rest _ => flatten pre ++ cur.content.toItems ++ rest ++ flatten post

end Edit

/-- **What an update says.** `base` is the identifier before the first chunk when that chunk was
loaded lazily, `cap` the capacity of a chunk, and no new identifier is above `limit`. -/
inductive Step (base : Option ChunkIdentifier) (cap limit : ℕ) :
    Edit Item Gap → Update Item Gap → Edit Item Gap → Prop
  | newChunk (pre post : List (PlainChunk Item Gap)) (id : ChunkIdentifier)
      (content : ChunkContent Item Gap) (hempty : content.numItems = 0)
      (hfresh : id ∉ ids (pre ++ post)) (hlimit : id.index ≤ limit) :
      Step base cap limit (.settled (pre ++ post))
        (LinkedChunk.newChunkUpdate ((ids pre).getLast?.or base) id (ids post).head? content)
        (.settled (pre ++ ⟨id, content⟩ :: post))
  | removeChunk (pre post : List (PlainChunk Item Gap)) (c : PlainChunk Item Gap)
      (hempty : c.content.numItems = 0) :
      Step base cap limit (.settled (pre ++ c :: post)) (.removeChunk c.identifier) (.settled (pre ++ post))
  | pushItems (pre post : List (PlainChunk Item Gap)) (id : ChunkIdentifier) (xs new : List Item)
      (hcap : xs.length + new.length ≤ cap) :
      Step base cap limit (.settled (pre ++ ⟨id, .items xs⟩ :: post)) (.pushItems ⟨id, xs.length⟩ new)
        (.settled (pre ++ ⟨id, .items (xs ++ new)⟩ :: post))
  | replaceItem (pre post : List (PlainChunk Item Gap)) (id : ChunkIdentifier) (xs : List Item) (i : ℕ)
      (x : Item) (hi : i < xs.length) :
      Step base cap limit (.settled (pre ++ ⟨id, .items xs⟩ :: post)) (.replaceItem ⟨id, i⟩ x)
        (.settled (pre ++ ⟨id, .items (xs.set i x)⟩ :: post))
  | removeItem (pre post : List (PlainChunk Item Gap)) (id : ChunkIdentifier) (xs : List Item) (i : ℕ)
      (hi : i < xs.length) :
      Step base cap limit (.settled (pre ++ ⟨id, .items xs⟩ :: post)) (.removeItem ⟨id, i⟩)
        (.settled (pre ++ ⟨id, .items (xs.eraseIdx i)⟩ :: post))
  | detachLastItems (pre post : List (PlainChunk Item Gap)) (id : ChunkIdentifier) (xs : List Item)
      (i : ℕ) (hi : i < xs.length) :
      Step base cap limit (.settled (pre ++ ⟨id, .items xs⟩ :: post)) (.detachLastItems ⟨id, i⟩)
        (.detached pre ⟨id, .items (xs.take i)⟩ post (xs.drop i) false)
  | newChunkDetached (pre post : List (PlainChunk Item Gap)) (cur : PlainChunk Item Gap)
      (rest : List Item) (r : Bool) (id : ChunkIdentifier) (content : ChunkContent Item Gap)
      (hempty : content.numItems = 0) (hfresh : id ∉ ids (pre ++ cur :: post))
      (hlimit : id.index ≤ limit) :
      Step base cap limit (.detached pre cur post rest r)
        (LinkedChunk.newChunkUpdate (some cur.identifier) id (ids post).head? content)
        (.detached (pre ++ [cur]) ⟨id, content⟩ post rest r)
  | pushItemsDetached (pre post : List (PlainChunk Item Gap)) (id : ChunkIdentifier)
      (xs new rest : List Item) (hcap : xs.length + new.length ≤ cap) :
      Step base cap limit (.detached pre ⟨id, .items xs⟩ post rest false)
        (.pushItems ⟨id, xs.length⟩ new)
        (.detached pre ⟨id, .items (xs ++ new)⟩ post rest false)
  | startReattachItems (pre post : List (PlainChunk Item Gap)) (cur : PlainChunk Item Gap)
      (rest : List Item) :
      Step base cap limit (.detached pre cur post rest false) .startReattachItems (.detached pre cur post rest true)
  | pushItemsReattached (pre post : List (PlainChunk Item Gap)) (id : ChunkIdentifier)
      (xs new rest : List Item) (hcap : xs.length + new.length ≤ cap) :
      Step base cap limit (.detached pre ⟨id, .items xs⟩ post (new ++ rest) true)
        (.pushItems ⟨id, xs.length⟩ new)
        (.detached pre ⟨id, .items (xs ++ new)⟩ post rest true)
  | endReattachItems (pre post : List (PlainChunk Item Gap)) (cur : PlainChunk Item Gap) :
      Step base cap limit (.detached pre cur post [] true) .endReattachItems (.settled (pre ++ cur :: post))

/-- A run of updates. -/
abbrev Steps (base : Option ChunkIdentifier) (cap limit : ℕ) :
    Edit Item Gap → List (Update Item Gap) → Edit Item Gap → Prop :=
  Trace (Step base cap limit)

lemma Step.mono_limit {base : Option ChunkIdentifier} {cap limit limit' : ℕ} {e e' : Edit Item Gap}
    {u : Update Item Gap} (h : Step base cap limit e u e') (hl : limit ≤ limit') :
      Step base cap limit' e u e' := by
  cases h <;> constructor <;> first | assumption | omega

lemma Steps.mono_limit {base : Option ChunkIdentifier} {cap limit limit' : ℕ} {e e' : Edit Item Gap}
    {us : List (Update Item Gap)} (h : Steps base cap limit e us e') (hl : limit ≤ limit') :
    Steps base cap limit' e us e' :=
  h.mono fun _ _ _ _ hs => hs.mono_limit hl

/-! ## What every step preserves -/

section Invariants

variable {base : Option ChunkIdentifier} {cap limit : ℕ} {e e' : Edit Item Gap} {u : Update Item Gap}

lemma nodup_insert {α : Type} {x : α} {l l' : List α} (h : (l ++ l').Nodup) (hx : x ∉ l ++ l') :
    (l ++ x :: l').Nodup :=
  nodup_middle.2 (nodup_cons.2 ⟨hx, h⟩)

section

variable (h : Step base cap limit e u e')
include h

lemma Step.nodup (hn : (ids e.chunks).Nodup) : (ids e'.chunks).Nodup := by
  cases h with
  | newChunk pre post id content hempty hfresh _ =>
    simp only [Edit.chunks, ids_append, ids_cons] at hn hfresh ⊢
    exact nodup_insert hn hfresh
  | removeChunk pre post c _ =>
    simp only [Edit.chunks, ids_append, ids_cons] at hn ⊢
    exact (nodup_cons.1 (nodup_middle.1 hn)).2
  | newChunkDetached pre post cur rest r id content hempty hfresh _ =>
    simp only [Edit.chunks, ids_append, ids_cons, append_assoc, cons_append, nil_append] at hn hfresh ⊢
    have h₁ : ((ids pre ++ [cur.identifier]) ++ ids post).Nodup := by simpa using hn
    simpa using nodup_insert h₁ (by simpa using hfresh)
  | pushItems | replaceItem | removeItem | detachLastItems | pushItemsDetached | startReattachItems
  | pushItemsReattached | endReattachItems =>
    simpa [Edit.chunks] using hn

lemma Step.le_limit (hle : ∀ i ∈ ids e.chunks, i.index ≤ limit) : ∀ i ∈ ids e'.chunks, i.index ≤ limit := by
  cases h with
  | newChunk pre post id content _ _ hlimit | newChunkDetached pre post cur rest r id content _ _ hlimit =>
    intro i hi
    simp only [Edit.chunks, ids_append, ids_cons, mem_append, mem_cons] at hle hi
    by_cases hid : i = id
    · rwa [hid]
    · exact hle i (by tauto)
  | removeChunk pre post c _ =>
    intro i hi
    refine hle i ?_
    simp only [Edit.chunks, ids_append, ids_cons, mem_append, mem_cons] at hi ⊢
    tauto
  | pushItems | replaceItem | removeItem | detachLastItems | pushItemsDetached | startReattachItems
  | pushItemsReattached | endReattachItems =>
    simpa [Edit.chunks] using hle

lemma Step.le_cap (hle : ∀ c ∈ e.chunks, c.content.numItems ≤ cap) :
    ∀ c ∈ e'.chunks, c.content.numItems ≤ cap := by
  cases h <;> simp only [Edit.chunks, forall_mem_append, forall_mem_cons,
    ChunkContent.numItems_items, length_append, length_set, length_eraseIdx,
    length_take] at hle ⊢
  case newChunk hempty _ _ => exact ⟨hle.1, by omega, hle.2⟩
  case removeChunk => exact ⟨hle.1, hle.2.2⟩
  case pushItems hcap | pushItemsDetached hcap | pushItemsReattached hcap => exact ⟨hle.1, hcap, hle.2.2⟩
  case removeItem => exact ⟨hle.1, by split <;> omega, hle.2.2⟩
  case detachLastItems => exact ⟨hle.1, by omega, hle.2.2⟩
  case newChunkDetached hempty _ _ => exact ⟨⟨hle.1, hle.2.1, by simp⟩, by omega, hle.2.2⟩
  case replaceItem | startReattachItems | endReattachItems => exact hle

end

end Invariants

end HaranaMatrix.Linked
