import HaranaMatrix.Linked.Invariant

/-!
# A stored linked chunk, as the list of its chunks

What a store is to do with updates, on the list of its chunks: a new chunk goes after the one it
names, items go into or out of the chunk of their position. A run of steps leads from the old list
to the new one. -/

namespace HaranaMatrix.Linked

open List

variable {Item Gap : Type}

/-! ## Applying updates -/

namespace Stored

/-- `c` put right after the chunk `id`. -/
def insertAfter (id : ChunkIdentifier) (c : PlainChunk Item Gap) :
    List (PlainChunk Item Gap) → Option (List (PlainChunk Item Gap))
  | [] => none
  | d :: ds => if d.identifier = id then some (d :: c :: ds) else (insertAfter id c ds).map (d :: ·)

/-- `c` put after the chunk it names as its previous one, or in front. -/
def insert (previous : Option ChunkIdentifier) (c : PlainChunk Item Gap) (cs : List (PlainChunk Item Gap)) :
    Option (List (PlainChunk Item Gap)) :=
  match previous with
  | none => some (c :: cs)
  | some id => insertAfter id c cs

/-- The items of the chunk `id` changed by `f`. -/
def modifyItems (id : ChunkIdentifier) (f : List Item → Option (List Item)) :
    List (PlainChunk Item Gap) → Option (List (PlainChunk Item Gap))
  | [] => none
  | d :: ds =>
    if d.identifier = id then
      match d.content with
      | .gap _ => none
      | .items xs => (f xs).map fun ys => ⟨d.identifier, .items ys⟩ :: ds
    else (modifyItems id f ds).map (d :: ·)

variable (cs : List (PlainChunk Item Gap))

def applyUpdate : Update Item Gap → Option (List (PlainChunk Item Gap))
  | .newItemsChunk previous new _ => insert previous ⟨new, .items []⟩ cs
  | .newGapChunk previous new _ gap => insert previous ⟨new, .gap gap⟩ cs
  | .removeChunk id => some (cs.filter fun c => c.identifier ≠ id)
  | .pushItems «at» items =>
    modifyItems «at».chunkIdentifier (fun xs => if «at».index = xs.length then some (xs ++ items) else none) cs
  | .replaceItem «at» item =>
    modifyItems «at».chunkIdentifier (fun xs => if «at».index < xs.length then some (xs.set «at».index item) else none) cs
  | .removeItem «at» =>
    modifyItems «at».chunkIdentifier (fun xs => if «at».index < xs.length then some (xs.eraseIdx «at».index) else none) cs
  | .detachLastItems «at» =>
    modifyItems «at».chunkIdentifier (fun xs => if «at».index < xs.length then some (xs.take «at».index) else none) cs
  | .startReattachItems | .endReattachItems => some cs
  | .clear => some []

def applyUpdates (us : List (Update Item Gap)) : Option (List (PlainChunk Item Gap)) :=
  us.foldlM applyUpdate cs

/-- The last chunk, and a generator that continues the identifiers. -/
def loadLastChunk : Option (RawChunk Item Gap) × ChunkIdentifierGenerator :=
  ((rawChunks none cs).getLast?,
    match ((ids cs).map (·.index)).max? with
    | some last => .newFromPreviousChunkIdentifier ⟨last⟩
    | none => .newFromScratch)

/-- The chunk before the chunk `id`. -/
def loadPreviousChunk (id : ChunkIdentifier) : Option (RawChunk Item Gap) :=
  (rawChunks none cs).find? fun raw => raw.next == some id

section Lists

variable {pre post : List (PlainChunk Item Gap)} {id : ChunkIdentifier} {c : PlainChunk Item Gap}

lemma insertAfter_eq {d : PlainChunk Item Gap} (h : d.identifier ∉ ids pre) :
    insertAfter d.identifier c (pre ++ d :: post) = some (pre ++ d :: c :: post) := by
  induction pre with
  | nil => simp [insertAfter]
  | cons x pre ih =>
    rw [ids_cons, mem_cons, not_or] at h
    rw [cons_append, insertAfter, if_neg (Ne.symm h.1), ih h.2]
    rfl

lemma insert_eq (hn : (ids (pre ++ post)).Nodup) :
    insert (ids pre).getLast? c (pre ++ post) = some (pre ++ c :: post) := by
  rcases eq_nil_or_concat pre with rfl | ⟨front, d, rfl⟩
  · rfl
  · have hd : d.identifier ∉ ids front := by
      simp only [concat_eq_append, ids_append, ids_cons, ids_nil, append_assoc] at hn
      have := (nodup_append.1 hn).2.2
      intro hmem
      exact this _ hmem _ (by simp) rfl
    rw [concat_eq_append]
    simp only [ids_append, ids_cons, ids_nil, List.getLast?_append, List.getLast?_singleton, Option.some_or,
      append_assoc, cons_append, nil_append]
    exact insertAfter_eq hd

lemma modifyItems_eq {f : List Item → Option (List Item)} {xs ys : List Item} (h : id ∉ ids pre)
    (hf : f xs = some ys) :
    modifyItems id f (pre ++ ⟨id, .items xs⟩ :: post) = some (pre ++ ⟨id, .items ys⟩ :: post) := by
  induction pre with
  | nil => simp [modifyItems, hf]
  | cons x pre ih =>
    rw [ids_cons, mem_cons, not_or] at h
    rw [cons_append, modifyItems, if_neg (Ne.symm h.1), ih h.2]
    rfl

lemma not_mem_of_nodup (hn : (ids (pre ++ c :: post)).Nodup) :
    c.identifier ∉ ids pre ∧ c.identifier ∉ ids post := by
  rw [ids_append, ids_cons, nodup_middle, nodup_cons, mem_append, not_or] at hn
  exact hn.1

end Lists

lemma applyUpdate_newChunk {content : ChunkContent Item Gap} (hempty : content.numItems = 0)
    (cs previous new next) :
    applyUpdate cs (LinkedChunk.newChunkUpdate previous new next content) =
      insert previous ⟨new, content⟩ cs := by
  cases content with
  | gap g => rfl
  | items xs => cases length_eq_zero_iff.1 hempty; rfl

/-- **A step of updates is applied.** -/
theorem applyUpdate_step {cap limit : ℕ} {e e' : Edit Item Gap} {u : Update Item Gap}
    (h : Step none cap limit e u e') (hn : (ids e.chunks).Nodup) :
      applyUpdate e.chunks u = some e'.chunks := by
  cases h with
  | newChunk pre post id content hempty hfresh =>
    rw [applyUpdate_newChunk hempty, Option.or_none]
    exact insert_eq hn
  | removeChunk pre post c =>
    obtain ⟨hpre, hpost⟩ := not_mem_of_nodup hn
    have hkeep : ∀ cs : List (PlainChunk Item Gap), c.identifier ∉ ids cs →
        cs.filter (fun d => decide (d.identifier ≠ c.identifier)) = cs := by
      intro cs hcs
      refine filter_eq_self.2 fun d hd => decide_eq_true fun heq => hcs ?_
      rw [← heq]
      exact mem_map_of_mem hd
    simp only [applyUpdate, Edit.chunks, filter_append, filter_cons, hkeep pre hpre, hkeep post hpost]
    simp
  | pushItems pre post id xs new | pushItemsDetached pre post id xs new | pushItemsReattached pre post id xs new =>
    exact modifyItems_eq (not_mem_of_nodup hn).1 (by simp)
  | replaceItem pre post id xs i x hi | removeItem pre post id xs i hi | detachLastItems pre post id xs i hi =>
    exact modifyItems_eq (not_mem_of_nodup hn).1 (by simp [hi])
  | newChunkDetached pre post cur rest r id content hempty =>
    have hn' : (ids ((pre ++ [cur]) ++ post)).Nodup := by simpa [Edit.chunks] using hn
    rw [applyUpdate_newChunk hempty]
    simpa [Edit.chunks] using insert_eq (c := ⟨id, content⟩) hn'
  | startReattachItems | endReattachItems => rfl

/-- **A run of updates is applied.** -/
theorem applyUpdates_steps {cap limit : ℕ} {e e' : Edit Item Gap} {us : List (Update Item Gap)}
    (h : Steps none cap limit e us e') (hn : (ids e.chunks).Nodup) :
      applyUpdates e.chunks us = some e'.chunks := by
  induction h with
  | nil => rfl
  | cons hs _ ih =>
    rw [applyUpdates, foldlM_cons, applyUpdate_step hs hn]
    exact ih (hs.nodup hn)

lemma applyUpdates_append (us vs : List (Update Item Gap)) :
    applyUpdates cs (us ++ vs) = (applyUpdates cs us).bind fun ds => applyUpdates ds vs :=
  foldlM_append

/-! ## Other items -/

section Map

variable {Item' : Type} (f : Item → Item')

/-- The chunk with other items. -/
def mapItems (c : PlainChunk Item Gap) : PlainChunk Item' Gap where
  identifier := c.identifier
  content :=
    match c.content with
    | .gap gap => .gap gap
    | .items xs => .items (xs.map f)

/-- The update with other items. -/
def mapUpdate : Update Item Gap → Update Item' Gap
  | .newItemsChunk previous new next => .newItemsChunk previous new next
  | .newGapChunk previous new next gap => .newGapChunk previous new next gap
  | .removeChunk id => .removeChunk id
  | .pushItems «at» items => .pushItems «at» (items.map f)
  | .replaceItem «at» item => .replaceItem «at» (f item)
  | .removeItem «at» => .removeItem «at»
  | .detachLastItems «at» => .detachLastItems «at»
  | .startReattachItems => .startReattachItems
  | .endReattachItems => .endReattachItems
  | .clear => .clear

variable {f} {cs : List (PlainChunk Item Gap)} {us : List (Update Item Gap)}

lemma toItems_mapItems (c : PlainChunk Item Gap) :
    (mapItems f c).content.toItems = c.content.toItems.map f := by
  cases h : c.content <;> simp [mapItems, h]

lemma ids_mapItems : ids (cs.map (mapItems f)) = ids cs := map_map

lemma insertAfter_map (id : ChunkIdentifier) (c : PlainChunk Item Gap) :
    insertAfter id (mapItems f c) (cs.map (mapItems f)) = (insertAfter id c cs).map (map (mapItems f)) := by
  induction cs with
  | nil => rfl
  | cons d cs ih =>
    rw [map_cons, insertAfter, insertAfter, apply_ite (Option.map _), ih, Option.map_map, Option.map_map]
    rfl

lemma modifyItems_map {g : List Item → Option (List Item)} {g' : List Item' → Option (List Item')}
    (hg : ∀ xs, g' (xs.map f) = (g xs).map (map f)) (id : ChunkIdentifier) :
    modifyItems id g' (cs.map (mapItems f)) = (modifyItems id g cs).map (map (mapItems f)) := by
  induction cs with
  | nil => rfl
  | cons d cs ih =>
    rw [map_cons, modifyItems, modifyItems, apply_ite (Option.map _), ih, Option.map_map, Option.map_map]
    refine if_congr Iff.rfl ?_ rfl
    cases h : d.content with
    | gap gap => simp [mapItems, h]
    | items xs => simp [mapItems, h, hg, Function.comp_def]

lemma applyUpdate_map (u : Update Item Gap) :
    applyUpdate (cs.map (mapItems f)) (mapUpdate f u) = (applyUpdate cs u).map (map (mapItems f)) := by
  cases u with
  | newItemsChunk previous new =>
    cases previous with
    | none => rfl
    | some id => exact insertAfter_map id ⟨new, .items []⟩
  | newGapChunk previous new next gap =>
    cases previous with
    | none => rfl
    | some id => exact insertAfter_map id ⟨new, .gap gap⟩
  | removeChunk id => exact congrArg some filter_map
  | pushItems | replaceItem | removeItem | detachLastItems =>
    refine modifyItems_map (fun xs => ?_) _
    rw [length_map, apply_ite (Option.map _)]
    simp [eraseIdx_map]
  | startReattachItems | endReattachItems | clear => rfl

/-- **The store does not look at the items.** -/
theorem applyUpdates_map :
    applyUpdates (cs.map (mapItems f)) (us.map (mapUpdate f)) =
      (applyUpdates cs us).map (map (mapItems f)) := by
  induction us generalizing cs with
  | nil => rfl
  | cons u us ih =>
    rw [map_cons, applyUpdates, foldlM_cons, applyUpdate_map, applyUpdates, foldlM_cons]
    cases applyUpdate cs u with
    | none => rfl
    | some cs' => exact ih

end Map

/-! ## Loading chunks -/

section Loading

variable {pre post cs : List (PlainChunk Item Gap)} {c d : PlainChunk Item Gap} {p : Option ChunkIdentifier}

lemma getLast?_rawChunks : (rawChunks p (pre ++ [d])).getLast? =
    some ⟨d.content, (ids pre).getLast?.or p, d.identifier, none⟩ := by
  induction pre generalizing p with
  | nil => simp [rawChunks]
  | cons c pre ih =>
    rw [cons_append, rawChunks, List.getLast?_cons, ih, ids_cons, List.getLast?_cons]
    cases (ids pre).getLast? <;> rfl

lemma next_mem_of_mem_rawChunks {raw : RawChunk Item Gap} (h : raw ∈ rawChunks p cs) :
    ∀ i ∈ raw.next, i ∈ ids cs.tail := by
  induction cs generalizing p with
  | nil => cases h
  | cons c cs ih =>
    intro i hi
    rcases mem_cons.1 h with rfl | h
    · exact mem_of_mem_head? hi
    · have := ih h i hi
      cases cs with
      | nil => cases this
      | cons d cs => exact mem_cons_of_mem _ this

lemma loadPreviousChunk_first (hn : (ids (c :: post)).Nodup) :
    loadPreviousChunk (c :: post) c.identifier = none := by
  refine List.find?_eq_none.2 fun raw hraw heq => ?_
  have hnext : raw.next = some c.identifier := by simpa using heq
  exact (nodup_cons.1 hn).1 (next_mem_of_mem_rawChunks hraw _ hnext)

lemma loadPreviousChunk_eq (hn : (ids (pre ++ d :: c :: post)).Nodup) :
    loadPreviousChunk (pre ++ d :: c :: post) c.identifier =
      some ⟨d.content, (ids pre).getLast?, d.identifier, some c.identifier⟩ := by
  have hfind : ∀ p, (rawChunks p (pre ++ d :: c :: post)).find? (fun raw => raw.next == some c.identifier) =
      some ⟨d.content, (ids pre).getLast?.or p, d.identifier, some c.identifier⟩ := by
    induction pre with
    | nil => intro p; simp [rawChunks]
    | cons x pre ih =>
      intro p
      rw [cons_append, ids_cons, nodup_cons] at hn
      have hne : (ids (pre ++ d :: c :: post)).head? ≠ some c.identifier := by
        intro heq
        have hnot : c.identifier ∉ ids (pre ++ [d]) := by
          have hsplit : (ids ((pre ++ [d]) ++ c :: post)).Nodup := by simpa using hn.2
          exact (not_mem_of_nodup hsplit).1
        have hmem : c.identifier ∈ ids (pre ++ [d]) := by
          cases pre <;> simp_all
        exact hnot hmem
      rw [cons_append, rawChunks, List.find?_cons_of_neg (by simpa using hne), ih hn.2, ids_cons, List.getLast?_cons]
      cases (ids pre).getLast? <;> rfl
  rw [loadPreviousChunk, hfind none]
  simp

/-- The chunk before `c` is the last one of those before it. -/
lemma loadPreviousChunk_append (hn : (ids (pre ++ c :: post)).Nodup) :
    loadPreviousChunk (pre ++ c :: post) c.identifier = pre.getLast?.map fun d =>
      ⟨d.content, (ids pre.dropLast).getLast?, d.identifier, some c.identifier⟩ := by
  rcases eq_nil_or_concat pre with rfl | ⟨pre, d, rfl⟩
  · exact loadPreviousChunk_first hn
  · simp only [concat_eq_append, append_assoc, singleton_append] at hn ⊢
    simp [loadPreviousChunk_eq hn]

lemma le_loadLastChunk_generator {i : ChunkIdentifier} (hi : i ∈ ids cs) :
    i.index ≤ (loadLastChunk cs).2.value := by
  have hmem : i.index ∈ (ids cs).map (·.index) := mem_map_of_mem hi
  simp only [loadLastChunk]
  cases hmax : ((ids cs).map (·.index)).max? with
  | none =>
    rw [List.max?_eq_none_iff] at hmax
    rw [hmax] at hmem
    cases hmem
  | some last => exact (List.max?_eq_some_iff.1 hmax).2 _ hmem

end Loading

end Stored

end HaranaMatrix.Linked
