import HaranaMatrix.Linked.Invariant

/-!
# A linked chunk is an editable sequence

Seen as one flat sequence of items and gaps, a linked chunk is edited as `sequence` says: a function
of the old sequence alone, that knows nothing of capacities, splits and pointers. An operation fails
exactly when `sequence` does, and then changes nothing. -/

namespace HaranaMatrix.Linked

open HaranaMatrix.DList List

variable {Item Gap : Type}

/-! ## The abstract operations -/

/-- An element of the flat sequence. -/
inductive Element (Item Gap : Type) where
  | item (item : Item)
  | gap (gap : Gap)
deriving DecidableEq, Repr

def ChunkContent.elements : ChunkContent Item Gap → List (Element Item Gap)
  | .gap g => [.gap g]
  | .items xs => xs.map .item

/-- The items and the gaps, in chunk order. -/
def elements (cs : List (PlainChunk Item Gap)) : List (Element Item Gap) :=
  cs.flatMap fun c => c.content.elements

/-- Where the chunk `id` starts in the flat sequence, and what it holds. -/
def locate (id : ChunkIdentifier) : List (PlainChunk Item Gap) → Option (ℕ × ChunkContent Item Gap)
  | [] => none
  | c :: cs =>
    if c.identifier = id then some (0, c.content)
    else (locate id cs).map fun x => (c.content.elements.length + x.1, x.2)

/-- `ys` put in at the index `k`. -/
def spliceIn {α : Type} (l : List α) (k : ℕ) (ys : List α) : List α := l.take k ++ ys ++ l.drop k

/-- **What an operation is for.** From the chunks, the item it returns, if any, and the flat
sequence after it, or its error. -/
def sequence (cs : List (PlainChunk Item Gap)) :
    Op Item Gap → Except Error (Option Item × List (Element Item Gap))
  | .pushItemsBack items => .ok (none, elements cs ++ items.map .item)
  | .pushGapBack content => .ok (none, elements cs ++ [.gap content])
  | .insertItemsAt position items =>
    match locate position.chunkIdentifier cs with
    | none => .error (.invalidChunkIdentifier position.chunkIdentifier)
    | some (_, .gap _) => .error (.chunkIsAGap position.chunkIdentifier)
    | some (k, .items xs) =>
      if position.index ≤ xs.length then
        .ok (none, spliceIn (elements cs) (k + position.index) (items.map .item))
      else .error (.invalidItemIndex position.index)
  | .removeItemAt position =>
    match locate position.chunkIdentifier cs with
    | none => .error (.invalidChunkIdentifier position.chunkIdentifier)
    | some (_, .gap _) => .error (.chunkIsAGap position.chunkIdentifier)
    | some (k, .items xs) =>
      match xs[position.index]? with
      | some x => .ok (some x, (elements cs).eraseIdx (k + position.index))
      | none => .error (.invalidItemIndex position.index)
  | .replaceItemAt position item =>
    match locate position.chunkIdentifier cs with
    | none => .error (.invalidChunkIdentifier position.chunkIdentifier)
    | some (_, .gap _) => .error (.chunkIsAGap position.chunkIdentifier)
    | some (k, .items xs) =>
      if position.index < xs.length then
        .ok (none, (elements cs).set (k + position.index) (.item item))
      else .error (.invalidItemIndex position.index)
  | .insertGapAt content position =>
    match locate position.chunkIdentifier cs with
    | none => .error (.invalidChunkIdentifier position.chunkIdentifier)
    | some (_, .gap _) => .error (.chunkIsAGap position.chunkIdentifier)
    | some (k, .items xs) =>
      -- index `0` of an empty chunk is accepted too
      if position.index < xs.length ∨ position.index = 0 then
        .ok (none, spliceIn (elements cs) (k + position.index) [.gap content])
      else .error (.invalidItemIndex position.index)
  | .removeEmptyChunkAt chunkIdentifier =>
    if cs.length ≤ 1 then .error .removingLastChunk
    else
      match locate chunkIdentifier cs with
      | none => .error (.invalidChunkIdentifier chunkIdentifier)
      | some (k, .gap _) => .ok (none, (elements cs).eraseIdx k)
      | some (_, .items []) => .ok (none, elements cs)
      | some (_, .items (_ :: _)) => .error (.removingNonEmptyItemsChunk chunkIdentifier)
  | .replaceGapAt items chunkIdentifier =>
    match locate chunkIdentifier cs with
    | none => .error (.invalidChunkIdentifier chunkIdentifier)
    | some (_, .items _) => .error (.chunkIsItems chunkIdentifier)
    | some (k, .gap _) => .ok (none, spliceIn ((elements cs).eraseIdx k) k (items.map .item))
  | .clear => .ok (none, [])
  | .observe => .ok (none, elements cs)
  -- the lazy loader edits nothing: it brings stored chunks to memory
  | .insertNewFirstChunk _ | .replaceWith _ _ => .ok (none, elements cs)

section Elements

variable (c : PlainChunk Item Gap) (cs ds : List (PlainChunk Item Gap))

@[simp] lemma elements_nil : elements ([] : List (PlainChunk Item Gap)) = [] := rfl
@[simp] lemma elements_cons : elements (c :: cs) = c.content.elements ++ elements cs := rfl
@[simp] lemma elements_append : elements (cs ++ ds) = elements cs ++ elements ds := flatMap_append
@[simp] lemma elements_gap (g : Gap) : (ChunkContent.gap g : ChunkContent Item Gap).elements = [.gap g] := rfl
@[simp] lemma elements_items (xs : List Item) :
    (ChunkContent.items xs : ChunkContent Item Gap).elements = xs.map .item := rfl

end Elements

lemma spliceIn_append {α : Type} (A X B ys : List α) {i : ℕ} (hi : i ≤ X.length) :
    spliceIn (A ++ (X ++ B)) (A.length + i) ys = A ++ (X.take i ++ ys ++ X.drop i ++ B) := by
  rw [spliceIn, take_length_add_append, drop_length_add_append, take_append_of_le_length hi,
    drop_append_of_le_length hi]
  simp

/-! ## Looking a chunk up -/

variable {id : ChunkIdentifier} {cs pre post : List (ChunkData Item Gap)} {c : ChunkData Item Gap}

lemma locate_none (h : findSplit id cs = none) : locate id (plain cs) = none := by
  have hall := findSplit_none.1 h
  clear h
  induction cs with
  | nil => rfl
  | cons d cs ih =>
    rw [forall_mem_cons] at hall
    simp [locate, hall.1, ih hall.2]

lemma locate_some (hn : (ids (plain cs)).Nodup) (h : findSplit id cs = some (pre, c, post)) :
    locate id (plain cs) = some ((elements (plain pre)).length, c.content) := by
  obtain ⟨rfl, rfl, -⟩ := findSplit_some h
  clear h
  induction pre with
  | nil => simp [locate]
  | cons d pre ih =>
    simp only [cons_append, plain_cons, ids_cons, nodup_cons, plain_append, ids_append,
      mem_append, mem_cons, not_or, plain_identifier] at hn
    have hne : d.identifier ≠ c.identifier := hn.1.2.1
    have := ih (by simpa using hn.2)
    simp only [plain_append, plain_cons] at this
    simp [locate, hne, this]

/-! ## Every operation ends -/

/-- `x` gives a result with `P`, or panics because an identifier up to `bound` is too large. -/
def Returns {α : Type} (bound : ℕ) (P : α → Prop) (x : Except Fault α) : Prop :=
  (∃ r, x = .ok r ∧ P r) ∨ (x = .error .noMoreIdentifiers ∧ u64Max < bound)

section Returns

variable {α β : Type} {b b' : ℕ} {P : α → Prop} {Q : β → Prop} {x : Except Fault α} {f : α → Except Fault β}

lemma Returns.ok {r : α} (h : P r) : Returns b P (.ok r) := .inl ⟨r, rfl, h⟩

lemma Returns.bind (hx : Returns b P x) (hf : ∀ r, P r → Returns b Q (f r)) : Returns b Q (x >>= f) := by
  rcases hx with ⟨r, rfl, hr⟩ | ⟨rfl, hb⟩
  · exact hf r hr
  · exact .inr ⟨rfl, hb⟩

lemma Returns.map {f : α → β} (hx : Returns b (fun r => Q (f r)) x) : Returns b Q (x.map f) := by
  rcases hx with ⟨r, rfl, hr⟩ | ⟨rfl, hb⟩
  · exact .inl ⟨_, rfl, hr⟩
  · exact .inr ⟨rfl, hb⟩

lemma Returns.mono (hx : Returns b P x) (hb : b ≤ b') : Returns b' P x :=
  hx.imp_right fun h => ⟨h.1, h.2.trans_le hb⟩

end Returns

variable {cap : ℕ} {g : ChunkIdentifierGenerator} {items : List Item} {r : Pushed Item Gap}

lemma next_returns {bound : ℕ} (hb : g.value + 1 ≤ bound) :
    Returns bound (fun x => x = (⟨g.value + 1⟩, ⟨g.value + 1⟩)) g.next := by
  unfold ChunkIdentifierGenerator.next
  split
  · next h => exact .inr ⟨rfl, by omega⟩
  · exact .ok rfl

lemma pushChunks_empty_returns (hcap : 0 < cap) {fuel : ℕ} (hpos : 0 < fuel) (next : Option ChunkIdentifier)
    (g : ChunkIdentifierGenerator) (c : ChunkData Item Gap) (hc : c.content = .items [])
    (items : List Item) (hfuel : items.length ≤ fuel) :
    Returns (g.value + (items.length - 1)) (fun r => r.generator.value ≤ g.value + (items.length - 1))
      (pushChunks cap next fuel g c items) := by
  induction fuel generalizing g c items with
  | zero => omega
  | succ fuel ih =>
    unfold pushChunks
    split
    · exact .ok (by simp)
    next hlen =>
    simp only [hc, length_nil, Nat.sub_zero]
    split
    · exact .ok (by simp)
    next hfit =>
    refine (next_returns (by omega)).bind ?_
    rintro _ rfl
    have hdrop : (items.drop cap).length = items.length - cap := length_drop
    have hrest := ih (by omega) ⟨g.value + 1⟩ ⟨none, ⟨g.value + 1⟩, .items []⟩ rfl (items.drop cap) (by omega)
    refine (hrest.mono (by simp only; omega)).bind fun r hr => .ok ?_
    simp only at hr ⊢
    omega

/-- **`push_items` ends**, and takes at most one identifier for each item. -/
lemma pushChunksOn_returns (hcap : 0 < cap) (next : Option ChunkIdentifier) (g : ChunkIdentifierGenerator)
    (c : ChunkData Item Gap) (items : List Item) :
    Returns (g.value + items.length)
      (fun r => PushRun cap next g c items r ∧ r.generator.value ≤ g.value + items.length)
      (pushChunksOn cap next g c items) := by
  have hreturns : Returns (g.value + items.length) (fun r => r.generator.value ≤ g.value + items.length)
      (pushChunksOn cap next g c items) := by
    unfold pushChunksOn pushChunks
    split
    · exact .ok (by simp)
    next hlen =>
    have hnew := pushChunks_empty_returns hcap (Nat.pos_of_ne_zero hlen) next ⟨g.value + 1⟩
      (⟨none, ⟨g.value + 1⟩, .items []⟩ : ChunkData Item Gap) rfl
    split
    · refine (next_returns (by omega)).bind ?_
      rintro _ rfl
      refine ((hnew items le_rfl).mono (by simp only; omega)).bind fun r hr => .ok ?_
      simp only at hr ⊢
      omega
    · next xs hc =>
      simp only
      split
      · exact .ok (by simp)
      refine (next_returns (by omega)).bind ?_
      rintro _ rfl
      have hdrop : (items.drop (cap - xs.length)).length = items.length - (cap - xs.length) := length_drop
      refine ((hnew (items.drop (cap - xs.length)) (by omega)).mono (by simp only; omega)).bind fun r hr => .ok ?_
      simp only at hr ⊢
      omega
  rcases hreturns with ⟨r, hr, hle⟩ | herr
  · exact .inl ⟨r, hr, pushRun_of_pushChunks hr, hle⟩
  · exact .inr herr

lemma PushRun.elements_done {next : Option ChunkIdentifier} (h : PushRun cap next g c items r) :
    elements (plain r.done) ++ r.last.content.elements = c.content.elements ++ items.map .item := by
  induction h with
  | done g c => simp
  | fits g c xs items hc hcap => simp [hc]
  | fills g c xs first rest r hc hcap hr ih => simpa [hc] using ih
  | opens g c items r hr ih => simpa using ih

lemma PushRun.elements_chunks {next : Option ChunkIdentifier} (h : PushRun cap next g c items r) :
    elements (plain r.chunks) = c.content.elements ++ items.map .item := by
  simpa [Pushed.chunks] using h.elements_done

/-! ## The operations on lists -/

/-- The item that an operation returns. -/
def Outcome.item? : Outcome Item Gap → Option Item
  | .item x => some x
  | _ => none

/-- The operations of the lazy loader. -/
def Op.Loads : Op Item Gap → Prop
  | .insertNewFirstChunk _ | .replaceWith _ _ => True
  | _ => False

/-- How many identifiers an operation takes at most. -/
def Op.demand (cap : ℕ) : Op Item Gap → ℕ
  | .pushItemsBack items | .replaceGapAt items _ => items.length + 1
  | .insertItemsAt _ items => items.length + cap
  | .pushGapBack _ | .insertGapAt _ _ => cap + 2
  | _ => 0

namespace Chain

/-- The operation did to `a` what `sequence` says. -/
def Agrees (a : Chain Item Gap) (op : Op Item Gap)
    (y : Emits Item Gap (Except OpError (Outcome Item Gap))) : Prop :=
  match sequence (plain a.touch.1.chunks) op with
  | .error e => y = (.error (.linkedChunk e), a.touch)
  | .ok (removed, flat) => (∃ o, y.1 = .ok o ∧ o.item? = removed) ∧ elements (plain y.2.1.chunks) = flat

variable {a : Chain Item Gap}

lemma agrees_error {op : Op Item Gap} {e : Error} (h : sequence (plain a.touch.1.chunks) op = .error e) :
    a.Agrees op (.error (.linkedChunk e), a.touch) := by
  unfold Agrees
  rw [h]

lemma agrees_ok {op : Op Item Gap} {o : Outcome Item Gap} {a' : Chain Item Gap} {us : List (Update Item Gap)}
    (h : sequence (plain a.touch.1.chunks) op = .ok (o.item?, elements (plain a'.chunks))) :
    a.Agrees op (.ok o, a', us) := by
  unfold Agrees
  rw [h]
  exact ⟨⟨o, rfl, rfl⟩, rfl⟩

lemma pushItemsBack_returns (hcap : 0 < cap) (a : Chain Item Gap) (items : List Item) :
    Returns (a.generator.value + (items.length + 1)) (a.Agrees (.pushItemsBack items))
      (a.step cap (.pushItemsBack items)) := by
  refine Returns.map ?_
  simp only [Chain.pushItemsBack]
  split
  · next hnone =>
    have : a.touch.1.chunks = [] := by simpa [splitLast] using hnone
    exact absurd this (touch_chunks_ne a)
  next pre c hsplit =>
  have heq : a.touch.1.chunks = pre ++ [c] := by
    obtain ⟨d, hd, hpair⟩ := Option.map_eq_some_iff.1 hsplit
    cases hpair
    exact (dropLast_append_getLast? c hd).symm
  refine ((pushChunksOn_returns hcap none a.touch.1.generator c items).mono ?_).bind fun r hr => .ok ?_
  · rw [touch_generator]
    omega
  · refine agrees_ok ?_
    simp [sequence, heq, hr.1.elements_chunks, Outcome.item?]

lemma pushGapBack_returns (cap : ℕ) (a : Chain Item Gap) (content : Gap) :
    Returns (a.generator.value + (cap + 2)) (a.Agrees (.pushGapBack content))
    (a.step cap (.pushGapBack content)) := by
  refine Returns.map ?_
  simp only [Chain.pushGapBack]
  refine (next_returns ?_).bind fun x hx => .ok (agrees_ok ?_)
  · rw [touch_generator]
    omega
  · simp [sequence, Outcome.item?]

section Positions

variable {position : Position} {current : List Item}

lemma Wf.split (h : a.Wf cap) (hf : findSplit id a.touch.1.chunks = some (pre, c, post)) :
    locate id (plain a.touch.1.chunks) = some ((elements (plain pre)).length, c.content) ∧
      elements (plain a.touch.1.chunks) =
        elements (plain pre) ++ (c.content.elements ++ elements (plain post)) := by
  refine ⟨locate_some (nodup_append.1 (touch_wf h).1.nodup).2.1 hf, ?_⟩
  simp [(findSplit_some hf).1]

lemma Wf.length_le (h : a.Wf cap) (hf : findSplit id a.touch.1.chunks = some (pre, c, post))
    (hc : c.content = .items current) : current.length ≤ cap := by
  obtain ⟨heq, -, -⟩ := findSplit_some hf
  have := (touch_wf h).1.capacity c.plain (by simp [heq])
  simpa [hc] using this

lemma insertItemsAt_returns (hcap : 0 < cap) (h : a.Wf cap) (position : Position) (items : List Item) :
    Returns (a.generator.value + (items.length + cap)) (a.Agrees (.insertItemsAt position items))
      (a.step cap (.insertItemsAt position items)) := by
  refine Returns.map ?_
  simp only [Chain.insertItemsAt]
  split
  · next hf => exact .ok (agrees_error (by simp only [sequence, locate_none hf]))
  next pre c post hf =>
  obtain ⟨hl, hsplit⟩ := h.split hf
  split
  · next hc => exact .ok (agrees_error (by simp only [sequence, hl, hc]))
  next current hc =>
  have hlen := h.length_le hf hc
  rw [hc] at hl hsplit
  split
  · next hindex => exact .ok (agrees_error (by simp only [sequence, hl, Nat.not_le.2 hindex, if_false]))
  next hindex =>
  have hseq : sequence (plain a.touch.1.chunks) (.insertItemsAt position items) = .ok (none,
      elements (plain pre) ++ ((current.take position.index ++ items ++ current.drop position.index).map .item ++
        elements (plain post))) := by
    simp only [sequence, hl, hsplit, elements_items, Nat.not_lt.1 hindex, if_true]
    rw [spliceIn_append _ _ _ _ (by simpa using hindex)]
    simp
  split
  · next hend =>
    refine ((pushChunksOn_returns hcap (headId post) a.touch.1.generator c items).mono ?_).bind
      fun r hr => .ok (agrees_ok ?_)
    · rw [touch_generator]
      omega
    · rw [hseq]
      simp [hend, hr.1.elements_chunks, hc, Outcome.item?]
  · refine ((pushChunksOn_returns hcap (headId post) a.touch.1.generator
      { c with content := .items (current.take position.index) } items).mono ?_).bind fun r hr => ?_
    · rw [touch_generator]
      omega
    obtain ⟨hrun, hgen⟩ := hr
    rw [touch_generator] at hgen
    have hdrop : (current.drop position.index).length ≤ current.length := by simp
    refine ((pushChunksOn_returns hcap (headId post) r.generator r.last
      (current.drop position.index)).mono (by omega)).bind fun r' hr' => .ok (agrees_ok ?_)
    have hblock : elements (plain r.done) ++ elements (plain r'.chunks) =
        (current.take position.index ++ items ++ current.drop position.index).map .item := by
      rw [hr'.1.elements_chunks, ← append_assoc, hrun.elements_done]
      simp
    rw [hseq, ← hblock]
    simp [Outcome.item?]

lemma removeItemAt_returns (h : a.Wf cap) (position : Position) :
    a.Agrees (.removeItemAt position) (outcome .linkedChunk .item (a.removeItemAt position)) := by
  simp only [Chain.removeItemAt]
  split
  · next hf => exact agrees_error (by simp only [sequence, locate_none hf])
  next pre c post hf =>
  obtain ⟨hl, hsplit⟩ := h.split hf
  split
  · next hc => exact agrees_error (by simp only [sequence, hl, hc])
  next current hc =>
  rw [hc] at hl hsplit
  split
  · next hitem => exact agrees_error (by simp only [sequence, hl, hitem])
  next removedItem hitem =>
  obtain ⟨hi, -⟩ := List.getElem?_eq_some_iff.1 hitem
  have hseq : sequence (plain a.touch.1.chunks) (.removeItemAt position) = .ok (some removedItem,
      elements (plain pre) ++ ((current.eraseIdx position.index).map .item ++ elements (plain post))) := by
    simp only [sequence, hl, hsplit, hitem, elements_items]
    rw [eraseIdx_append_of_length_le (by omega), Nat.add_sub_cancel_left,
      eraseIdx_append_of_lt_length (by simpa using hi), eraseIdx_map]
  split
  · next hempty =>
    refine agrees_ok ?_
    rw [hseq, isEmpty_iff.1 hempty.1]
    simp [Outcome.item?]
  · refine agrees_ok ?_
    rw [hseq]
    simp [Outcome.item?]

lemma replaceItemAt_returns (h : a.Wf cap) (position : Position) (item : Item) :
    a.Agrees (.replaceItemAt position item)
    (outcome .linkedChunk (fun _ => .unit) (a.replaceItemAt position item)) := by
  simp only [Chain.replaceItemAt]
  split
  · next hf => exact agrees_error (by simp only [sequence, locate_none hf])
  next pre c post hf =>
  obtain ⟨hl, hsplit⟩ := h.split hf
  split
  · next hc => exact agrees_error (by simp only [sequence, hl, hc])
  next current hc =>
  rw [hc] at hl hsplit
  split
  · next hindex => exact agrees_error (by simp only [sequence, hl, Nat.not_lt.2 hindex, if_false])
  next hindex =>
  refine agrees_ok ?_
  simp only [sequence, hl, hsplit, elements_items, Nat.not_le.1 hindex, if_true]
  rw [set_append_right _ _ (by omega), Nat.add_sub_cancel_left, set_append_left _ _ (by simpa using hindex), ← map_set]
  simp [Outcome.item?]

lemma insertGapAt_returns (hcap : 0 < cap) (h : a.Wf cap) (content : Gap) (position : Position) :
    Returns (a.generator.value + (cap + 2)) (a.Agrees (.insertGapAt content position))
      (a.step cap (.insertGapAt content position)) := by
  refine Returns.map ?_
  simp only [Chain.insertGapAt]
  split
  · next hf => exact .ok (agrees_error (by simp only [sequence, locate_none hf]))
  next pre c post hf =>
  obtain ⟨hl, hsplit⟩ := h.split hf
  split
  · next hc => exact .ok (agrees_error (by simp only [sequence, hl, hc]))
  next current hc =>
  have hlen := h.length_le hf hc
  rw [hc] at hl hsplit
  have hseq : position.index ≤ current.length → (position.index < current.length ∨ position.index = 0) →
      sequence (plain a.touch.1.chunks) (.insertGapAt content position) = .ok (none,
        elements (plain pre) ++ ((current.take position.index).map .item ++ .gap content ::
          (current.drop position.index).map .item ++ elements (plain post))) := by
    intro hle hor
    simp only [sequence, hl, hsplit, elements_items, hor, if_true]
    rw [spliceIn_append _ _ _ _ (by simpa using hle)]
    simp
  split
  · next hzero =>
    refine (next_returns ?_).bind fun x hx => .ok (agrees_ok ?_)
    · rw [touch_generator]
      omega
    · rw [hseq (by omega) (.inr hzero), hzero]
      have hcontent : (if pre = [] then { c with lazyPrevious := none } else c).content = .items current := by
        split <;> exact hc
      simp [Outcome.item?, hcontent]
  next hzero =>
  split
  · next hindex =>
    have hnot : ¬ (position.index < current.length ∨ position.index = 0) := by omega
    exact .ok (agrees_error (by simp only [sequence, hl, hnot, if_false]))
  next hindex =>
  refine (next_returns ?_).bind ?_
  · rw [touch_generator]
    omega
  rintro _ rfl
  refine (next_returns ?_).bind ?_
  · simp only [touch_generator]
    omega
  rintro _ rfl
  refine ((pushChunksOn_returns hcap _ _ _ _).mono ?_).bind fun r hr => .ok (agrees_ok ?_)
  · simp only [touch_generator, length_drop]
    omega
  · rw [hseq (by omega) (.inl (by omega))]
    simp [Outcome.item?, hr.1.elements_chunks]

lemma removeEmptyChunkAt_returns (h : a.Wf cap) (id : ChunkIdentifier) :
    a.Agrees (.removeEmptyChunkAt id) (outcome .linkedChunk .nextPosition (a.removeEmptyChunkAt id)) := by
  simp only [Chain.removeEmptyChunkAt]
  have hlength : (plain a.touch.1.chunks).length = a.touch.1.chunks.length := length_map _
  split
  · next hone => exact agrees_error (by simp only [sequence, hlength, hone, if_true])
  next hmany =>
  split
  · next hf => exact agrees_error (by simp only [sequence, hlength, hmany, if_false, locate_none hf])
  next pre c post hf =>
  obtain ⟨hl, hsplit⟩ := h.split hf
  cases hc : c.content with
  | gap gap =>
    rw [hc] at hl hsplit
    refine agrees_ok ?_
    simp only [sequence, hlength, hmany, if_false, hl, hsplit, elements_gap]
    rw [eraseIdx_append_of_length_le le_rfl, Nat.sub_self]
    simp [Outcome.item?]
  | items current =>
    rw [hc] at hl hsplit
    cases current with
    | nil =>
      refine agrees_ok ?_
      simp only [sequence, hlength, hmany, if_false, hl, hsplit, elements_items]
      simp [Outcome.item?]
    | cons x xs =>
      exact agrees_error (by simp only [sequence, hlength, hmany, if_false, hl])

lemma replaceGapAt_returns (hcap : 0 < cap) (h : a.Wf cap) (items : List Item) (id : ChunkIdentifier) :
    Returns (a.generator.value + (items.length + 1)) (a.Agrees (.replaceGapAt items id))
      (a.step cap (.replaceGapAt items id)) := by
  refine Returns.map ?_
  simp only [Chain.replaceGapAt]
  split
  · next hf => exact .ok (agrees_error (by simp only [sequence, locate_none hf]))
  next pre c post hf =>
  obtain ⟨hl, hsplit⟩ := h.split hf
  split
  · next hc => exact .ok (agrees_error (by simp only [sequence, hl, hc]))
  next gap hc =>
  rw [hc] at hl hsplit
  refine (next_returns ?_).bind ?_
  · rw [touch_generator]
    omega
  rintro _ rfl
  refine ((pushChunksOn_returns hcap _ _ _ _).mono ?_).bind fun r hr => .ok (agrees_ok ?_)
  · simp only [touch_generator]
    omega
  · have hsplice := spliceIn_append (elements (plain pre)) [] (elements (plain post))
      (items.map .item) (i := 0) le_rfl
    simp only [sequence, hl, hsplit, elements_gap]
    rw [eraseIdx_append_of_length_le le_rfl, Nat.sub_self]
    simp only [cons_append, nil_append, eraseIdx_cons_zero]
    rw [Nat.add_zero, nil_append] at hsplice
    rw [hsplice]
    simp [Outcome.item?, hr.1.elements_chunks]

end Positions

/-- **Every operation of a well-formed chain does what `sequence` says.** -/
theorem step_returns (hcap : 0 < cap) (h : a.Wf cap) {op : Op Item Gap} (hop : ¬ op.Loads) :
    Returns (a.generator.value + op.demand cap) (a.Agrees op) (a.step cap op) := by
  cases op with
  | pushItemsBack items => exact pushItemsBack_returns hcap a items
  | pushGapBack content => exact pushGapBack_returns cap a content
  | insertItemsAt position items => exact insertItemsAt_returns hcap h position items
  | removeItemAt position => exact .ok (removeItemAt_returns h position)
  | replaceItemAt position item => exact .ok (replaceItemAt_returns h position item)
  | insertGapAt content position => exact insertGapAt_returns hcap h content position
  | removeEmptyChunkAt id => exact .ok (removeEmptyChunkAt_returns h id)
  | replaceGapAt items id => exact replaceGapAt_returns hcap h items id
  | clear => exact .ok (agrees_ok rfl)
  | observe => exact .ok (agrees_ok rfl)
  | insertNewFirstChunk | replaceWith => exact absurd trivial hop

lemma elements_touch (a : Chain Item Gap) :
    elements (plain a.touch.1.chunks) = elements (plain a.chunks) := by
  obtain ⟨_ | ⟨c, cs⟩, g⟩ := a <;> rfl

end Chain

/-! ## The operations on pointers -/

namespace LinkedChunk

/-- What `chunks()` yields, without the pointers. -/
def contents (s : LinkedChunk Item Gap) : Except Fault (List (ChunkData Item Gap)) :=
  s.chunks.map fun r => r.1.map fun c => c.2.data

variable {s : LinkedChunk Item Gap} {a : Chain Item Gap}

lemma contents_eq (h : Repr s a) : s.contents = .ok a.touch.1.chunks := by
  obtain ⟨cs, -, hd, hchunks, -⟩ := chunks_spec h
  rw [contents, hchunks, ← hd]
  exact congrArg Except.ok (map_data_nodes _ _ _)

/-- The chunks in memory, none when the first chunk is not created yet. -/
def loaded (s : LinkedChunk Item Gap) : Except Fault (List (PlainChunk Item Gap)) :=
  match s.links.first with
  | none => .ok []
  | some _ => s.contents.map plain

lemma loaded_eq (h : Repr s a) : s.loaded = .ok (plain a.chunks) := by
  obtain ⟨hg, cs, hc, hd⟩ := h
  unfold loaded
  cases cs with
  | nil =>
    have hfirst : s.links.first = none := hc.first
    rw [hfirst, ← hd]
    rfl
  | cons x cs =>
    have hfirst : s.links.first = some x.1 := hc.first
    rw [hfirst, contents_eq ⟨hg, _, hc, hd⟩]
    obtain ⟨chunks, g⟩ := a
    subst hd
    rfl

/-- **A linked chunk is an editable sequence.** Every operation on the chunks of a reachable linked
chunk ends, unless there are no identifiers left. It then returns the error that `sequence` gives,
and leaves the chunks, the generator and the updates as they are, once the first chunk is created;
or it succeeds, and the items and gaps are those that `sequence` gives. -/
theorem step_sequence (hcap : 0 < cap) (h : Reachable cap s) (op : Op Item Gap) (hop : ¬ op.Loads) :
    ∃ cs, s.contents = .ok cs ∧
      ((s.step cap op = .error .noMoreIdentifiers ∧
          u64Max < s.chunkIdentifierGenerator.value + op.demand cap) ∨
        ∃ r s' cs', s.step cap op = .ok (r, s') ∧ s'.contents = .ok cs' ∧
          match sequence (plain cs) op with
          | .error e =>
            r = .error (.linkedChunk e) ∧ cs' = cs ∧
              s'.chunkIdentifierGenerator = s.chunkIdentifierGenerator ∧
              s'.updates = s.firstChunkPtr.2.updates
          | .ok (removed, flat) =>
            (∃ o, r = .ok o ∧ o.item? = removed) ∧ elements (plain cs') = flat) := by
  obtain ⟨a, hrepr, hwf⟩ := h.repr
  have hsim : Sim (OpRel s.updates) (s.step cap op) (a.step cap op) := step_sim hrepr op
  refine ⟨_, contents_eq hrepr, ?_⟩
  rcases Chain.step_returns hcap hwf hop with ⟨y, hy, hagrees⟩ | ⟨herr, hlt⟩
  · rw [hy] at hsim
    obtain ⟨⟨r, s'⟩, hs, hres, hrepr', hupdates⟩ := hsim.of_ok_right
    refine .inr ⟨r, s', _, hs, contents_eq hrepr', ?_⟩
    unfold Chain.Agrees at hagrees
    cases hseq : sequence (plain a.touch.1.chunks) op with
    | error e =>
      simp only [hseq] at hagrees
      subst hagrees
      obtain ⟨-, -, -, -, -, -, -, hu⟩ := firstChunkPtr_spec hrepr
      refine ⟨hres, by rw [Chain.touch_touch], ?_, by rw [hupdates, hu]⟩
      rw [hrepr'.1, Chain.touch_generator, hrepr.1]
    | ok x =>
      simp only [hseq] at hagrees
      simp only [show r = y.1 from hres]
      exact ⟨hagrees.1, by rw [Chain.elements_touch, hagrees.2]⟩
  · rw [herr] at hsim
    exact .inl ⟨hsim.of_error_right, by rwa [hrepr.1]⟩

theorem step_sequence_insert_inside :
    ∃ r s, (new : LinkedChunk ℕ Char).step 2 (.pushItemsBack [1, 2, 3]) = .ok (r, s) ∧
      ∃ r' s' cs', s.step 2 (.insertItemsAt ⟨⟨0⟩, 1⟩ [7, 8]) = .ok (r', s') ∧ s'.contents = .ok cs' ∧
        elements (plain cs') = [.item 1, .item 7, .item 8, .item 2, .item 3] := by
  have hinsert : ∀ s : LinkedChunk ℕ Char, Reachable 2 s → s.chunkIdentifierGenerator.value = 1 →
      s.contents = .ok [⟨none, ⟨0⟩, .items [1, 2]⟩, ⟨none, ⟨1⟩, .items [3]⟩] →
      ∃ r' s' cs', s.step 2 (.insertItemsAt ⟨⟨0⟩, 1⟩ [7, 8]) = .ok (r', s') ∧ s'.contents = .ok cs' ∧
        elements (plain cs') = [.item 1, .item 7, .item 8, .item 2, .item 3] := by
    intro s hs hg hcontents
    obtain ⟨cs, hcs, ⟨-, hlt⟩ | ⟨r, s', cs', hstep, hcs', hmatch⟩⟩ :=
      step_sequence (by decide) hs (.insertItemsAt ⟨⟨0⟩, 1⟩ [7, 8]) id
    · rw [hg] at hlt
      exact absurd hlt (by decide)
    · cases hcontents.symm.trans hcs
      exact ⟨r, s', cs', hstep, hcs', hmatch.2⟩
  exact ⟨_, _, rfl, hinsert _
    (.step .new (show LinkedChunk.Loadable _ (.pushItemsBack [1, 2, 3]) from trivial) rfl) rfl rfl⟩

/-- A gap is accepted at index `0` of a chunk that has no item. -/
theorem insertGapAt_empty_chunk :
    ∃ s, (new : LinkedChunk ℕ Char).insertGapAt 3 'g' ⟨⟨0⟩, 0⟩ = .ok (.ok (), s) ∧
      (new : LinkedChunk ℕ Char).items.map Prod.fst = .ok [] := by
  refine ⟨_, rfl, rfl⟩

end LinkedChunk

end HaranaMatrix.Linked
