import HaranaMatrix.Linked.Tables
import HaranaMatrix.Linked.Sequence

/-!
# Loading a stored linked chunk

What a store of the chunks `cs` loads: each chunk with its content and its links, the last chunk
with a generator above all identifiers, the chunk before a given one. The lazy loader, fed with the
last chunk and then with one previous chunk after the other, rebuilds `cs`. -/

namespace HaranaMatrix.Linked

open Rows List RelationalLinkedChunk LinkedChunk

namespace RelationalLinkedChunk

variable {ItemId Item Gap : Type} [LinearOrder ItemId] [IndexableItem Item ItemId]
  {L : LinkedChunkId} {store : RelationalLinkedChunk ItemId Item Gap}
  {pre post cs : List (PlainChunk Item Gap)} {c d : PlainChunk Item Gap}

/-! ## One chunk -/

section RawChunk

omit [LinearOrder ItemId] in
lemma sort_eq {xs : List Item} {rows : List (ItemId × ℕ)}
    (h : rows.Perm (xs.zipIdx.map fun x => (IndexableItem.id x.1, x.2))) :
    (rows.insertionSort fun x y => x.2 ≤ y.2) = xs.zipIdx.map fun x => (IndexableItem.id x.1, x.2) := by
  have hperm := (perm_insertionSort (fun x y : ItemId × ℕ => x.2 ≤ y.2) rows).trans h
  have hsorted := pairwise_insertionSort (fun x y : ItemId × ℕ => x.2 ≤ y.2) rows
  have hindices : (xs.zipIdx.map Prod.snd).Pairwise (· ≤ ·) := by
    rw [zipIdx_map_snd]
    exact pairwise_le_range'
  have hspec : (xs.zipIdx.map fun x => ((IndexableItem.id x.1 : ItemId), x.2)).Pairwise
      fun x y => x.2 ≤ y.2 := by
    rw [pairwise_map] at hindices ⊢
    exact hindices
  refine List.Perm.eq_of_pairwise (fun x y hx hy hxy hyx => ?_) hsorted hspec hperm
  -- two rows with one index are the same row
  obtain ⟨⟨u, i⟩, hu, rfl⟩ := mem_map.1 (hperm.mem_iff.1 hx)
  obtain ⟨⟨v, j⟩, hv, rfl⟩ := mem_map.1 hy
  obtain rfl : i = j := le_antisymm hxy hyx
  rw [(mem_zipIdx hu).2.2, (mem_zipIdx hv).2.2]

lemma Stores.rows_of_chunk (h : Stores store L (pre ++ d :: post)) (hn : (ids (pre ++ d :: post)).Nodup) :
    (store.itemsChunks.filter (·.isIn L d.identifier)).Perm (chunkItemRows L d) := by
  have hd := not_mem_of_nodup_ids hn
  rw [ids_append, mem_append, not_or] at hd
  have hother : ∀ ds : List (PlainChunk Item Gap), d.identifier ∉ ids ds →
      (itemRows L ds : List (ItemRow ItemId Gap)).filter (·.position.chunkIdentifier == d.identifier) = [] :=
    fun ds hds => filter_eq_nil_iff.2 fun row hrow heq => hds (beq_iff_eq.1 heq ▸ (mem_itemRows hrow).2)
  have hspec : (itemRows L (pre ++ d :: post) : List (ItemRow ItemId Gap)).filter
      (·.position.chunkIdentifier == d.identifier) = chunkItemRows L d := by
    rw [itemRows_middle, filter_append, filter_append, hother pre hd.1, hother post hd.2,
      filter_eq_self.2 fun row hrow => by simpa using (mem_chunkItemRows hrow).2]
    simp
  rw [filter_isIn, ← hspec]
  exact h.itemsChunks.filter _

omit [LinearOrder ItemId] in
lemma collectItems_perm {xs : List Item} {chunk : ChunkIdentifier} {rows : List (ItemRow ItemId Gap)}
    (h : rows.Perm (rowsFrom L chunk 0 xs)) :
    ∃ collected, collectItems chunk rows = .ok collected ∧
      collected.Perm (xs.zipIdx.map fun x => (IndexableItem.id x.1, x.2)) :=
  mapM_perm h (mapM_map_eq_ok fun _ _ => rfl)

/-- **A chunk is loaded as it is stored.** -/
theorem Stores.loadRawChunk (h : Stores store L (pre ++ d :: post)) (hn : (ids (pre ++ d :: post)).Nodup)
    (previous next : Option ChunkIdentifier) :
    store.loadRawChunk ⟨L, previous, d.identifier, next⟩ L =
      .ok ⟨d.content, previous, d.identifier, next⟩ := by
  have hrows := h.rows_of_chunk hn
  have hitems : ∀ x ∈ d.content.toItems, store.itemContent L (IndexableItem.id x) = some x := by
    intro x hx
    exact h.items x (by simp [hx])
  obtain ⟨id, content⟩ := d
  unfold loadRawChunk
  simp only [chunkItemRows] at hrows ⊢
  cases content with
  | gap gap =>
    rw [perm_singleton.1 hrows]
    rfl
  | items xs =>
    generalize store.itemsChunks.filter (·.isIn L id) = rows at hrows
    obtain ⟨collected, hcollect, hperm⟩ := collectItems_perm hrows
    have hcontent : (collected.insertionSort fun x y => x.2 ≤ y.2).filterMap
        (fun x => store.itemContent L x.1) = xs := by
      rw [sort_eq hperm, filterMap_map]
      conv_rhs => rw [← zipIdx_map_fst 0 xs, ← filterMap_eq_map]
      refine filterMap_congr fun x hx => hitems x.1 ?_
      exact fst_mem_of_mem_zipIdx hx
    cases rows with
    | nil =>
      obtain rfl : xs = [] := by
        have := hrows.length_eq
        simpa [rowsFrom] using this.symm
      rfl
    | cons first rest =>
      obtain ⟨x, -, hx⟩ := mem_map.1 (hrows.mem_iff.1 mem_cons_self)
      have hfirst : first.item = .item (IndexableItem.id x.1) := by rw [← hx]
      simp only [hfirst, hcollect, ok_bind, hcontent]

end RawChunk

/-- **All chunks are loaded, in some order.** -/
theorem Stores.loadAllChunks (h : Stores store L cs) (hn : (ids cs).Nodup) :
    ∃ raws, store.loadAllChunks L = .ok raws ∧ raws.Perm (rawChunks none cs) := by
  refine mapM_perm h.chunks ?_
  have hload : ∀ d ∈ cs, ∀ previous next, store.loadRawChunk ⟨L, previous, d.identifier, next⟩ L =
      .ok ⟨d.content, previous, d.identifier, next⟩ := by
    intro d hd
    obtain ⟨pre, post, rfl⟩ := append_of_mem hd
    exact h.loadRawChunk hn
  clear h hn
  -- the chunks one after the other, each with the identifier before it
  suffices ∀ previous, (linkRows L previous (ids cs) none).mapM (store.loadRawChunk · L) =
      .ok (rawChunks previous cs) from this none
  induction cs with
  | nil => exact fun _ => rfl
  | cons c cs ih =>
    obtain ⟨hc, hcs⟩ := forall_mem_cons.1 hload
    intro previous
    rw [ids_cons, linkRows, Option.or_none, rawChunks]
    exact mapM_cons_eq_ok.2 ⟨_, _, hc previous _, ih hcs _, rfl⟩

/-! ## The last chunk, and the chunk before another one -/

section Links

variable {xs ys : List ChunkIdentifier} {rows : List ChunkRow} {row : ChunkRow} {i : ChunkIdentifier}

lemma map_nextChunk_linkRows (p : Option ChunkIdentifier) :
    (linkRows L p xs none).map (·.nextChunk) = (xs.tail.map some ++ [none]).take xs.length := by
  induction xs generalizing p with
  | nil => rfl
  | cons x xs ih =>
    rw [linkRows, map_cons, ih]
    cases xs with
    | nil => rfl
    | cons y ys => simp

lemma nodup_nextChunk (hn : xs.Nodup) : ((linkRows L none xs none).map (·.nextChunk)).Nodup := by
  rw [map_nextChunk_linkRows]
  have htail : (xs.tail.map some).Nodup := (hn.sublist (tail_sublist xs)).map fun _ _ => Option.some.inj
  refine List.Nodup.sublist (take_sublist _ _) (nodup_append.2 ⟨htail, by simp, ?_⟩)
  rintro a ha b hb rfl
  obtain ⟨i, -, rfl⟩ := mem_map.1 ha
  simp at hb

lemma find?_nextChunk (hperm : rows.Perm (linkRows L none xs none)) (hn : xs.Nodup)
    (hrow : row ∈ linkRows L none xs none) : rows.find? (·.nextChunk == row.nextChunk) = some row := by
  have hkey : row.nextChunk ∈ (linkRows L none xs none).map (·.nextChunk) := mem_map_of_mem hrow
  obtain ⟨row', -, hfilter⟩ := exists_filter_eq_singleton (nodup_nextChunk hn) hkey
  have hmem : row ∈ (linkRows L none xs none).filter fun r => r.nextChunk == row.nextChunk :=
    mem_filter.2 ⟨hrow, by simp⟩
  rw [hfilter] at hmem
  obtain rfl := mem_singleton.1 hmem
  exact find?_of_filter (perm_singleton.1 (hfilter ▸ hperm.filter _))

lemma mem_linkRows_middle : (⟨L, xs.getLast?, i, ys.head?⟩ : ChunkRow) ∈ linkRows L none (xs ++ i :: ys) none := by
  rw [linkRows_append, linkRows]
  simp

end Links

/-- **The generator is above all identifiers.** -/
lemma Stores.le_generator (h : Stores store L cs) :
    ∀ i ∈ ids cs, i.index ≤ (store.chunkIdentifierGenerator L).value := by
  intro i hi
  have hmem : i.index ∈ (store.chunkRows L).map (·.chunk.index) := by
    have hids : (linkRows L none (ids cs) none).map (·.chunk) = ids cs := map_chunk_linkRows
    rw [← hids] at hi
    obtain ⟨row, hrow, rfl⟩ := mem_map.1 hi
    exact mem_map_of_mem (h.chunks.mem_iff.2 hrow)
  unfold chunkIdentifierGenerator
  split
  next last hmax => exact (List.max?_eq_some_iff.1 hmax).2 _ hmem
  next hnone =>
    rw [List.max?_eq_none_iff.1 hnone] at hmem
    cases hmem

lemma Stores.loadLastChunk (h : Stores store L (pre ++ [d])) (hn : (ids (pre ++ [d])).Nodup) :
    store.loadLastChunk L =
      .ok (some ⟨d.content, (ids pre).getLast?, d.identifier, none⟩, store.chunkIdentifierGenerator L) := by
  have hfind : (store.chunkRows L).find? (·.nextChunk.isNone) =
      some ⟨L, (ids pre).getLast?, d.identifier, none⟩ := by
    have hmem : (⟨L, (ids pre).getLast?, d.identifier, none⟩ : ChunkRow) ∈
        linkRows L none (ids (pre ++ [d])) none := by
      rw [ids_append, ids_cons]
      exact @mem_linkRows_middle L (ids pre) [] d.identifier
    rw [← find?_nextChunk h.chunks hn hmem]
    congr 1
    funext row
    cases row.nextChunk <;> rfl
  simp only [RelationalLinkedChunk.loadLastChunk, hfind, h.loadRawChunk hn, Except.map]

lemma Stores.loadPreviousChunk (h : Stores store L (pre ++ d :: c :: post))
    (hn : (ids (pre ++ d :: c :: post)).Nodup) :
    store.loadPreviousChunk L c.identifier =
      .ok (some ⟨d.content, (ids pre).getLast?, d.identifier, some c.identifier⟩) := by
  have hmem : (⟨L, (ids pre).getLast?, d.identifier, some c.identifier⟩ : ChunkRow) ∈
      linkRows L none (ids (pre ++ d :: c :: post)) none := by
    rw [ids_append, ids_cons]
    exact @mem_linkRows_middle L (ids pre) (ids (c :: post)) d.identifier
  have hfind := find?_nextChunk h.chunks hn hmem
  simp only [RelationalLinkedChunk.loadPreviousChunk, hfind, h.loadRawChunk hn, Except.map]

lemma Stores.loadPreviousChunk_first (h : Stores store L (c :: post)) (hn : (ids (c :: post)).Nodup) :
    store.loadPreviousChunk L c.identifier = .ok none := by
  have hnone : (store.chunkRows L).find? (·.nextChunk == some c.identifier) = none := by
    refine List.find?_eq_none.2 fun row hrow heq => ?_
    have hmem : row.nextChunk ∈ (linkRows L none (ids (c :: post)) none).map (·.nextChunk) :=
      mem_map_of_mem (h.chunks.mem_iff.1 hrow)
    rw [map_nextChunk_linkRows, beq_iff_eq.1 heq] at hmem
    have hnext := mem_of_mem_take hmem
    rw [ids_cons] at hn
    exact (nodup_cons.1 hn).1 (by simpa using hnext)
  simp only [RelationalLinkedChunk.loadPreviousChunk, hnone]

/-! ## The lazy loader -/

/-- Load the chunk before `before`, then the one before that, until there is none. `none` when
something fails, or when the fuel runs out. -/
def loadPreviousChunks (cap : ℕ) (store : RelationalLinkedChunk ItemId Item Gap) (L : LinkedChunkId) :
    ℕ → ChunkIdentifier → LinkedChunk Item Gap → Option (LinkedChunk Item Gap)
  | 0, _, _ => none
  | fuel + 1, before, s =>
    match store.loadPreviousChunk L before with
    | .error _ => none
    | .ok none => some s
    | .ok (some raw) =>
      match s.insertNewFirstChunk cap raw with
      | .ok (.ok (), s) => loadPreviousChunks cap store L fuel raw.identifier s
      | _ => none

/-- A linked chunk is loaded from its last chunk to its first one; there is none to load when there
is no stored chunk. The outer `none` is a failure. -/
def reload (cap : ℕ) (store : RelationalLinkedChunk ItemId Item Gap) (L : LinkedChunkId) (fuel : ℕ) :
    Option (Option (LinkedChunk Item Gap)) :=
  match store.loadLastChunk L with
  | .error _ => none
  | .ok (chunk, generator) =>
    match LinkedChunk.fromLastChunk cap chunk generator, chunk with
    | .ok (some s), some raw => (store.loadPreviousChunks cap L fuel raw.identifier s).map some
    | .ok none, _ => some none
    | _, _ => none

section Reload

variable {cap : ℕ} {s : LinkedChunk Item Gap} {a : Chain Item Gap}

omit [LinearOrder ItemId] [IndexableItem Item ItemId] in
lemma insertNewFirstChunk_ok {first : ChunkData Item Gap} {rest : List (ChunkData Item Gap)}
    {generator : ChunkIdentifierGenerator} {raw : RawChunk Item Gap}
    (h : LinkedChunk.Repr s ⟨first :: rest, generator⟩) (hcap : raw.content.numItems ≤ cap)
    (hprevious : ∀ i ∈ raw.previous, i ∉ ids (plain (first :: rest)))
    (hnext : raw.next = some first.identifier) (hlazy : first.lazyPrevious = some raw.identifier) :
    ∃ s', s.insertNewFirstChunk cap raw = .ok (.ok (), s') ∧ LinkedChunk.Repr s'
      ⟨⟨raw.previous, raw.identifier, raw.content⟩ :: { first with lazyPrevious := none } :: rest, generator⟩ := by
  obtain ⟨us, hchain⟩ :=
    Chain.insertNewFirstChunk_first generator hcap hprevious hnext hlazy
  obtain ⟨⟨r, s'⟩, hs, hr, hrepr, -⟩ := (hchain ▸ insertNewFirstChunk_sim h raw).of_ok_right
  cases hr
  exact ⟨s', hs, hrepr⟩

/-- **The loop rebuilds the chunks before those in memory.** -/
lemma Stores.loadPreviousChunks (h : Stores store L cs) (hn : (ids cs).Nodup)
    (hcap : ∀ d ∈ cs, d.content.numItems ≤ cap) {first : ChunkData Item Gap}
    {rest : List (ChunkData Item Gap)} {generator : ChunkIdentifierGenerator} {fuel : ℕ}
    (hcs : cs = pre ++ plain (first :: rest)) (hrepr : LinkedChunk.Repr s ⟨first :: rest, generator⟩)
    (hlazy : first.lazyPrevious = (ids pre).getLast?) (hfuel : pre.length < fuel) :
    ∃ s' a', store.loadPreviousChunks cap L fuel first.identifier s = some s' ∧ LinkedChunk.Repr s' a' ∧
      plain a'.chunks = cs ∧ a'.generator = generator := by
  induction pre using List.reverseRecOn generalizing s first rest fuel with
  | nil =>
    obtain ⟨fuel, rfl⟩ : ∃ k, fuel = k + 1 := ⟨fuel - 1, by omega⟩
    refine ⟨s, ⟨first :: rest, generator⟩, ?_, hrepr, hcs.symm, rfl⟩
    subst hcs
    have hnone : store.loadPreviousChunk L first.identifier = .ok none := h.loadPreviousChunk_first hn
    simp only [loadPreviousChunks, hnone]
  | append_singleton pre d ih =>
    obtain ⟨fuel, rfl⟩ : ∃ k, fuel = k + 1 := ⟨fuel - 1, by omega⟩
    have hsplit : cs = pre ++ d :: first.plain :: plain rest := by simpa [plain] using hcs
    have hload : store.loadPreviousChunk L first.identifier =
        .ok (some ⟨d.content, (ids pre).getLast?, d.identifier, some first.identifier⟩) := by
      rw [hsplit] at h hn
      exact h.loadPreviousChunk hn
    have hnodup := hn
    rw [hsplit, ids_append, ids_cons, nodup_append] at hnodup
    have hprevious : ∀ i ∈ (ids pre).getLast?, i ∉ ids (plain (first :: rest)) := fun i hi hmem => by
      refine hnodup.2.2 i (mem_of_getLast? hi) i (mem_cons_of_mem _ ?_) rfl
      simpa [plain, ids, ChunkData.plain] using hmem
    obtain ⟨s₁, hs₁, hrepr₁⟩ := @insertNewFirstChunk_ok Item Gap cap s first rest generator
      ⟨d.content, (ids pre).getLast?, d.identifier, some first.identifier⟩ hrepr
      (hcap d (by simp [hsplit])) hprevious rfl (by simpa using hlazy)
    obtain ⟨s', a', hs', hrest⟩ := @ih s₁ ⟨(ids pre).getLast?, d.identifier, d.content⟩
      ({ first with lazyPrevious := none } :: rest) fuel (by simpa [plain, ChunkData.plain] using hsplit)
      hrepr₁ rfl (by simpa using hfuel)
    refine ⟨s', a', ?_, hrest⟩
    simp only [loadPreviousChunks, hload, hs₁]
    exact hs'

/-- **A stored linked chunk is reloaded as it was**, with a generator above all its identifiers. -/
theorem Stores.reload (h : Stores store L cs) (hn : (ids cs).Nodup)
    (hcap : ∀ d ∈ cs, d.content.numItems ≤ cap) {fuel : ℕ} (hfuel : cs.length ≤ fuel) :
    (cs = [] ∧ store.reload cap L fuel = some none) ∨
    ∃ s, store.reload cap L fuel = some (some s) ∧ s.loaded = .ok cs ∧
      ∀ i ∈ ids cs, i.index ≤ s.chunkIdentifierGenerator.value := by
  rcases eq_nil_or_concat cs with rfl | ⟨pre, d, rfl⟩
  · left
    have hrows : store.chunkRows L = [] := perm_nil.1 h.chunks
    simp [RelationalLinkedChunk.reload, RelationalLinkedChunk.loadLastChunk, hrows, fromLastChunk]
  · right
    rw [concat_eq_append] at h hn hcap hfuel ⊢
    have hd : d.content.numItems ≤ cap := hcap d (by simp)
    set raw : RawChunk Item Gap := ⟨d.content, (ids pre).getLast?, d.identifier, none⟩ with hraw
    obtain ⟨s, hs⟩ : ∃ s, fromLastChunk cap (some raw) (store.chunkIdentifierGenerator L) =
        .ok (some s) := by
      simp only [fromLastChunk, hraw, Nat.not_lt.2 hd]
      exact ⟨_, rfl⟩
    obtain ⟨s', a', hs', hrepr, hchunks, hgenerator⟩ := h.loadPreviousChunks hn hcap rfl
      (fromLastChunk_repr hs).1 rfl (by simpa using hfuel)
    refine ⟨s', ?_, ?_, ?_⟩
    · simp only [RelationalLinkedChunk.reload, h.loadLastChunk hn, ← hraw, hs]
      exact congrArg (Option.map some) hs'
    · rw [loaded_eq hrepr, hchunks]
    · rw [hrepr.1, hgenerator]
      exact h.le_generator

end Reload

end RelationalLinkedChunk

end HaranaMatrix.Linked
