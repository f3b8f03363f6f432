import HaranaMatrix.Linked.Relational
import HaranaMatrix.Linked.Invariant

/-!
# The tables of a linked chunk

`Stores store L cs` — the rows of the linked chunk `L` are those of the chunks `cs`, in any order, and
the index knows the items of `cs`. An update that takes the chunks from `cs` to `cs'` takes a store of
`cs` to a store of `cs'`, and a store of `cs` loads `cs`.
-/

namespace HaranaMatrix.Linked

open Rows List ChunkRow ItemRow

/-! ## The rows of chunks -/

/-- The rows of adjacent chunks; `previous` and `next` are the identifiers around them. -/
def linkRows (L : LinkedChunkId) :
    Option ChunkIdentifier → List ChunkIdentifier → Option ChunkIdentifier → List ChunkRow
  | _, [], _ => []
  | previous, id :: is, next => ⟨L, previous, id, is.head?.or next⟩ :: linkRows L (some id) is next

/-- The row of `neighbour` is rewritten by `set`. -/
def onNeighbour (neighbour : Option ChunkIdentifier) (set : ChunkRow → ChunkRow) (row : ChunkRow) :
    ChunkRow :=
  if some row.chunk = neighbour then set row else row

section LinkRows

variable {L : LinkedChunkId} {p p' n n' : Option ChunkIdentifier} {xs ys : List ChunkIdentifier}
  {c : ChunkIdentifier}

lemma linkRows_append : linkRows L p (xs ++ ys) n =
    linkRows L p xs (ys.head?.or n) ++ linkRows L (xs.getLast?.or p) ys n := by
  induction xs generalizing p with
  | nil => rfl
  | cons x xs ih =>
    rw [cons_append, linkRows, linkRows, ih, cons_append]
    have hnext : (xs ++ ys).head?.or n = xs.head?.or (ys.head?.or n) := by
      cases xs <;> simp
    have hlast : (x :: xs).getLast?.or p = xs.getLast?.or (some x) := by
      cases h : xs.getLast? <;> simp [List.getLast?_cons, h]
    rw [hnext, hlast]

@[simp] lemma map_chunk_linkRows : (linkRows L p xs n).map (·.chunk) = xs := by
  induction xs generalizing p with
  | nil => rfl
  | cons x xs ih => simp [linkRows, ih]

lemma mem_of_mem_linkRows {row : ChunkRow} (h : row ∈ linkRows L p xs n) : row.chunk ∈ xs := by
  have hmem : row.chunk ∈ (linkRows L p xs n).map (·.chunk) := mem_map_of_mem h
  rwa [map_chunk_linkRows] at hmem

lemma map_onNeighbour_of_not_mem {set : ChunkRow → ChunkRow} {neighbour : Option ChunkIdentifier}
    (h : ∀ i ∈ neighbour, i ∉ xs) : (linkRows L p xs n).map (onNeighbour neighbour set) =
      linkRows L p xs n := by
  conv_rhs => rw [← map_id (linkRows L p xs n)]
  refine map_congr_left fun row hrow => if_neg fun heq => h row.chunk heq.symm ?_
  exact mem_of_mem_linkRows hrow

lemma map_setNext (hn : xs.Nodup) :
    (linkRows L p xs n).map (onNeighbour xs.getLast? fun row => { row with nextChunk := n' }) = linkRows L p xs n' := by
  induction xs generalizing p with
  | nil => rfl
  | cons x xs ih =>
    obtain ⟨hx, hxs⟩ := nodup_cons.1 hn
    cases xs with
    | nil => simp [linkRows, onNeighbour]
    | cons y ys =>
      have hlast : (x :: y :: ys).getLast? = (y :: ys).getLast? := by simp [List.getLast?_cons]
      have hne : some x ≠ (y :: ys).getLast? := fun heq => hx (mem_of_getLast? heq.symm)
      rw [hlast, linkRows, map_cons, ih hxs]
      simp [onNeighbour, hne, linkRows]

lemma map_setPrevious (hn : xs.Nodup) :
    (linkRows L p xs n).map (onNeighbour xs.head? fun row => { row with previousChunk := p' }) = linkRows L p' xs n := by
  cases xs with
  | nil => rfl
  | cons x xs =>
    obtain ⟨hx, -⟩ := nodup_cons.1 hn
    rw [linkRows, linkRows, map_cons, List.head?_cons, map_onNeighbour_of_not_mem (by simpa using hx)]
    simp [onNeighbour]

/-- **Both sides of a border are relinked.** -/
lemma map_relink (hn : (xs ++ ys).Nodup) :
    ((linkRows L none xs n ++ linkRows L p ys none).map
      (onNeighbour xs.getLast? fun row => { row with nextChunk := n' })).map
      (onNeighbour ys.head? fun row => { row with previousChunk := p' }) =
      linkRows L none xs n' ++ linkRows L p' ys none := by
  obtain ⟨hxs, hys, hne⟩ := nodup_append.1 hn
  have hlast : ∀ i ∈ xs.getLast?, i ∉ ys := fun i hi hmem => hne i (mem_of_getLast? hi) i hmem rfl
  have hhead : ∀ i ∈ ys.head?, i ∉ xs := fun i hi hmem => hne i hmem i (mem_of_head? hi) rfl
  rw [map_append, map_setNext hxs, map_onNeighbour_of_not_mem hlast, map_append,
    map_onNeighbour_of_not_mem hhead, map_setPrevious hys]

end LinkRows

section ChunkTable

variable {L : LinkedChunkId} {chunks spec : List ChunkRow} {xs ys : List ChunkIdentifier}
  {c : ChunkIdentifier}

lemma ChunkRow.linkedChunkId_of_isChunk (row : ChunkRow) (h : row.isChunk L c) :
    (row.linkedChunkId == L) = true := by
  have : row.linkedChunkId = L ∧ row.chunk = c := by simpa [isChunk] using h
  simpa using this.1

lemma filter_isChunk (hspec : ∀ row ∈ spec, row.linkedChunkId = L) (hn : (spec.map (·.chunk)).Nodup)
    (hc : c ∈ spec.map (·.chunk)) : ∃ row, row.chunk = c ∧ spec.filter (·.isChunk L c) = [row] := by
  obtain ⟨row, hrow, hfilter⟩ := exists_filter_eq_singleton hn hc
  refine ⟨row, hrow, ?_⟩
  rw [← hfilter]
  refine filter_congr fun row hrow => ?_
  simp [isChunk, hspec row hrow]

lemma relink_spec (neighbour : Option ChunkIdentifier) (set : ChunkRow → ChunkRow)
    (hperm : (chunks.filter (·.linkedChunkId == L)).Perm spec) (hn : (spec.map (·.chunk)).Nodup)
    (hmem : ∀ i ∈ neighbour, i ∈ spec.map (·.chunk))
    (hset : ∀ row, (set row).linkedChunkId = row.linkedChunkId) :
    ∃ chunks', relink chunks L neighbour set = .ok chunks' ∧
      (chunks'.filter (·.linkedChunkId == L)).Perm (spec.map (onNeighbour neighbour set)) := by
  have hspec : ∀ row ∈ spec, row.linkedChunkId = L := fun row hrow => by
    simpa using (mem_filter.1 (hperm.mem_iff.2 hrow)).2
  cases neighbour with
  | none =>
    refine ⟨chunks, rfl, ?_⟩
    have hid : onNeighbour none set = id := funext fun row => if_neg (by simp)
    rwa [hid, map_id]
  | some i =>
    obtain ⟨row, hrow, hfilter⟩ := filter_isChunk hspec hn (hmem i rfl)
    have hone : (chunks.filter (·.linkedChunkId == L)).filter (·.isChunk L i) = [row] :=
      perm_singleton.1 (hfilter ▸ hperm.filter _)
    have hfind : chunks.find? (·.isChunk L i) = some row := by
      rw [← find?_filter_of_imp linkedChunkId_of_isChunk]
      exact find?_of_filter hone
    have hL := linkedChunkId_of_isChunk row (List.find?_some hfind)
    have hany : chunks.any (·.isChunk L i) := by
      rw [any_eq_true]
      exact ⟨row, mem_of_find?_eq_some hfind, List.find?_some hfind⟩
    refine ⟨_, if_pos hany, ?_⟩
    rw [filter_modifyFirst hfind hL (by rwa [hset]), modifyFirst_eq_map hone]
    have hmap : spec.map (onNeighbour (some i) set) =
        spec.map fun x => if x.isChunk L i then set x else x := by
      refine map_congr_left fun x hx => ?_
      simp [onNeighbour, isChunk, hspec x hx]
    rw [hmap]
    exact hperm.map _

/-- **The chunks before and after a border are relinked.** -/
lemma relink_border {n p : Option ChunkIdentifier}
    (hperm : (chunks.filter (·.linkedChunkId == L)).Perm (linkRows L none xs n ++ linkRows L p ys none))
    (hn : (xs ++ ys).Nodup) (n' p' : Option ChunkIdentifier) :
    ∃ chunks₁ chunks₂, linkPrevious chunks L xs.getLast? n' = .ok chunks₁ ∧
      linkNext chunks₁ L ys.head? p' = .ok chunks₂ ∧
      (chunks₂.filter (·.linkedChunkId == L)).Perm (linkRows L none xs n' ++ linkRows L p' ys none) := by
  have hids : (linkRows L none xs n ++ linkRows L p ys none).map (·.chunk) = xs ++ ys := by simp
  obtain ⟨chunks₁, h₁, hperm₁⟩ := relink_spec xs.getLast? (fun row => { row with nextChunk := n' }) hperm
    (by rwa [hids]) (fun i hi => by rw [hids]; exact mem_append_left _ (mem_of_getLast? hi))
    fun _ => rfl
  have hids₁ : ((linkRows L none xs n ++ linkRows L p ys none).map
      (onNeighbour xs.getLast? fun row => { row with nextChunk := n' })).map (·.chunk) = xs ++ ys := by
    rw [← hids, map_map]
    refine map_congr_left fun row _ => ?_
    simp only [Function.comp_apply, onNeighbour]
    split <;> rfl
  obtain ⟨chunks₂, h₂, hperm₂⟩ := relink_spec ys.head? (fun row => { row with previousChunk := p' }) hperm₁
    (by rwa [hids₁]) (fun i hi => by rw [hids₁]; exact mem_append_right _ (mem_of_head? hi))
    fun _ => rfl
  rw [map_relink hn] at hperm₂
  exact ⟨chunks₁, chunks₂, h₁, h₂, hperm₂⟩

/-- **A chunk is inserted between two chunks.** -/
lemma insertChunk_spec (hperm : (chunks.filter (·.linkedChunkId == L)).Perm (linkRows L none (xs ++ ys) none))
    (hn : (xs ++ ys).Nodup) (hc : c ∉ xs ++ ys) :
    ∃ chunks', insertChunk chunks L xs.getLast? c ys.head? = (.ok (), chunks') ∧
      (chunks'.filter (·.linkedChunkId == L)).Perm (linkRows L none (xs ++ c :: ys) none) := by
  have hfresh : ¬ chunks.any (·.isChunk L c) := by
    intro hany
    obtain ⟨row, hrow, hisChunk⟩ := any_eq_true.1 hany
    have hmem := hperm.mem_iff.1 (mem_filter.2 ⟨hrow, row.linkedChunkId_of_isChunk hisChunk⟩)
    have hchunk : row.chunk = c := by simpa [isChunk] using (Bool.and_eq_true_iff.1 hisChunk).2
    exact hc (hchunk ▸ mem_of_mem_linkRows hmem)
  rw [linkRows_append, Option.or_none, Option.or_none] at hperm
  obtain ⟨chunks₁, chunks₂, h₁, h₂, hperm₂⟩ := relink_border hperm hn (some c) (some c)
  refine ⟨chunks₂ ++ [⟨L, xs.getLast?, c, ys.head?⟩], ?_, ?_⟩
  · simp only [insertChunk, hfresh, h₁, h₂]
    rfl
  · rw [linkRows_append, linkRows, filter_append]
    simp only [List.head?_cons, Option.or_none, BEq.rfl, filter_cons_of_pos, filter_nil]
    exact (hperm₂.append_right _).trans ((perm_append_singleton _ _).trans perm_middle.symm)

/-- **A chunk between two chunks is removed.** -/
lemma removeChunk_spec
    (hperm : (chunks.filter (·.linkedChunkId == L)).Perm (linkRows L none (xs ++ c :: ys) none))
    (hn : (xs ++ c :: ys).Nodup) :
    ∃ chunks', removeChunk chunks L c = .ok chunks' ∧
      (chunks'.filter (·.linkedChunkId == L)).Perm (linkRows L none (xs ++ ys) none) := by
  obtain ⟨hc, hn'⟩ := nodup_cons.1 (nodup_middle.1 hn)
  rw [linkRows_append, linkRows] at hperm
  simp only [List.head?_cons, Option.or_none] at hperm
  set row : ChunkRow := ⟨L, xs.getLast?, c, ys.head?⟩ with hrow
  set before := linkRows L none xs (some c) with hbefore
  set after := linkRows L (some c) ys none with hafter
  have hother : ∀ x ∈ before ++ after, x.isChunk L c = false := by
    intro x hx
    have hchunk : x.chunk ∈ xs ++ ys :=
      mem_append.2 ((mem_append.1 hx).imp mem_of_mem_linkRows mem_of_mem_linkRows)
    have hne : x.chunk ≠ c := fun heq => hc (heq ▸ hchunk)
    simp [isChunk, hne]
  have hspec : (row :: (before ++ after)).filter (·.isChunk L c) = [row] := by
    rw [filter_cons_of_pos (by simp [hrow, isChunk]), filter_eq_nil_iff.2 fun x hx => by simp [hother x hx]]
  have hperm' := hperm.trans perm_middle
  have hone : (chunks.filter (·.linkedChunkId == L)).filter (·.isChunk L c) = [row] :=
    perm_singleton.1 (hspec ▸ hperm'.filter _)
  have hfind : chunks.find? (·.isChunk L c) = some row := by
    rw [← find?_filter_of_imp linkedChunkId_of_isChunk]
    exact find?_of_filter hone
  have herase : ((chunks.eraseP (·.isChunk L c)).filter (·.linkedChunkId == L)).Perm (before ++ after) := by
    rw [filter_eraseP linkedChunkId_of_isChunk, eraseP_eq_filter hone]
    have hrest : (row :: (before ++ after)).filter (fun x => !x.isChunk L c) = before ++ after := by
      rw [filter_cons_of_neg (by simp [hrow, isChunk])]
      exact filter_eq_self.2 fun x hx => by simp [hother x hx]
    exact hrest ▸ hperm'.filter _
  obtain ⟨chunks₁, chunks₂, h₁, h₂, hperm₂⟩ := relink_border herase hn' ys.head? xs.getLast?
  refine ⟨chunks₂, ?_, ?_⟩
  · simp only [removeChunk, hfind, hrow, h₁]
    simp [Except.mapError, h₂]
  · rw [linkRows_append]
    simpa using hperm₂

end ChunkTable

/-! ## The rows of items -/

section ItemRows

variable {ItemId Item Gap : Type} [IndexableItem Item ItemId] {L : LinkedChunkId}

/-- The identifiers of items. -/
def itemIds (xs : List Item) : List ItemId := xs.map IndexableItem.id

/-- The rows of adjacent items, from the index `n` on. -/
def rowsFrom (L : LinkedChunkId) (c : ChunkIdentifier) (n : ℕ) (xs : List Item) : List (ItemRow ItemId Gap) :=
  (xs.zipIdx n).map fun x => ⟨L, ⟨c, x.2⟩, .item (IndexableItem.id x.1)⟩

def chunkItemRows (L : LinkedChunkId) (c : PlainChunk Item Gap) : List (ItemRow ItemId Gap) :=
  match c.content with
  | .gap gap => [⟨L, ⟨c.identifier, 0⟩, .gap gap⟩]
  | .items xs => rowsFrom L c.identifier 0 xs

/-- The rows of the items and the gaps of chunks. -/
def itemRows (L : LinkedChunkId) (cs : List (PlainChunk Item Gap)) : List (ItemRow ItemId Gap) :=
  cs.flatMap (chunkItemRows L)

variable {c : ChunkIdentifier} {n i : ℕ} {xs ys : List Item} {x : Item} {row : ItemRow ItemId Gap}

lemma rowsFrom_cons : (rowsFrom L c n (x :: xs) : List (ItemRow ItemId Gap)) =
    ⟨L, ⟨c, n⟩, .item (IndexableItem.id x)⟩ :: rowsFrom L c (n + 1) xs := by
  simp [rowsFrom, zipIdx_cons]

lemma rowsFrom_append : (rowsFrom L c n (xs ++ ys) : List (ItemRow ItemId Gap)) =
    rowsFrom L c n xs ++ rowsFrom L c (n + xs.length) ys := by
  simp [rowsFrom, zipIdx_append]

lemma mem_rowsFrom (h : row ∈ (rowsFrom L c n xs : List (ItemRow ItemId Gap))) :
    row.linkedChunkId = L ∧ row.position.chunkIdentifier = c ∧ n ≤ row.position.index ∧
      row.position.index < n + xs.length := by
  obtain ⟨⟨y, k⟩, hy, rfl⟩ := mem_map.1 h
  have hk := mem_zipIdx hy
  exact ⟨rfl, rfl, hk.1, hk.2.1⟩

@[simp] lemma filter_rowsFrom : (rowsFrom L c n xs : List (ItemRow ItemId Gap)).filter
    (·.linkedChunkId == L) = rowsFrom L c n xs :=
  filter_eq_self.2 fun row hrow => by simpa using (mem_rowsFrom hrow).1

lemma mem_chunkItemRows {c : PlainChunk Item Gap} (h : row ∈ chunkItemRows L c) :
    row.linkedChunkId = L ∧ row.position.chunkIdentifier = c.identifier := by
  unfold chunkItemRows at h
  split at h
  · obtain rfl := mem_singleton.1 h
    exact ⟨rfl, rfl⟩
  · obtain ⟨h₁, h₂, -⟩ := mem_rowsFrom h
    exact ⟨h₁, h₂⟩

lemma mem_itemRows {cs : List (PlainChunk Item Gap)} (h : row ∈ itemRows L cs) :
    row.linkedChunkId = L ∧ row.position.chunkIdentifier ∈ ids cs := by
  obtain ⟨c, hc, hrow⟩ := mem_flatMap.1 h
  obtain ⟨h₁, h₂⟩ := mem_chunkItemRows hrow
  exact ⟨h₁, h₂ ▸ mem_map_of_mem hc⟩

variable {pre post : List (PlainChunk Item Gap)} {content : ChunkContent Item Gap}

lemma itemRows_middle (d : PlainChunk Item Gap) :
    (itemRows L (pre ++ d :: post) : List (ItemRow ItemId Gap)) =
    itemRows L pre ++ (chunkItemRows L d ++ itemRows L post) := by
  simp [itemRows]

section

variable (hc : c ∉ ids (pre ++ post))
include hc

lemma edit_itemRows {p : ItemRow ItemId Gap → Bool} {f : ItemRow ItemId Gap → ItemRow ItemId Gap}
    (hother : ∀ row : ItemRow ItemId Gap, row.position.chunkIdentifier ≠ c → p row ∧ f row = row) :
    ((itemRows L (pre ++ ⟨c, content⟩ :: post)).filter p).map f =
      itemRows L pre ++ (((chunkItemRows L ⟨c, content⟩).filter p).map f ++ itemRows L post) := by
  have hsame : ∀ cs : List (PlainChunk Item Gap), c ∉ ids cs →
      ((itemRows L cs).filter p).map f = itemRows L cs := fun cs hcs => by
    have hrow : ∀ row ∈ itemRows L cs, p row ∧ f row = row := fun row hrow =>
      hother row fun heq => hcs (heq ▸ (mem_itemRows hrow).2)
    rw [filter_eq_self.2 fun row h => (hrow row h).1]
    conv_rhs => rw [← map_id (itemRows L cs)]
    exact map_congr_left fun row h => (hrow row h).2
  rw [ids_append, mem_append, not_or] at hc
  rw [itemRows_middle, filter_append, filter_append, map_append, map_append, hsame pre hc.1, hsame post hc.2]

lemma filter_itemRows {p : ItemRow ItemId Gap → Bool}
    (hp : ∀ row : ItemRow ItemId Gap, row.position.chunkIdentifier ≠ c → p row) :
    (itemRows L (pre ++ ⟨c, content⟩ :: post)).filter p =
      itemRows L pre ++ ((chunkItemRows L ⟨c, content⟩).filter p ++ itemRows L post) := by
  simpa using edit_itemRows (f := id) hc fun row hrow => ⟨hp row hrow, rfl⟩

lemma map_itemRows {f : ItemRow ItemId Gap → ItemRow ItemId Gap}
    (hf : ∀ row : ItemRow ItemId Gap, row.position.chunkIdentifier ≠ c → f row = row) :
    (itemRows L (pre ++ ⟨c, content⟩ :: post)).map f =
      itemRows L pre ++ ((chunkItemRows L ⟨c, content⟩).map f ++ itemRows L post) := by
  simpa using edit_itemRows (p := fun _ => true) hc fun row hrow => ⟨rfl, hf row hrow⟩

end

lemma exists_split {α : Type} {xs : List α} {i : ℕ} (hi : i < xs.length) :
    ∃ l x r, xs = l ++ x :: r ∧ l.length = i :=
  ⟨xs.take i, xs[i], xs.drop (i + 1), by simp, by simp; omega⟩

lemma filter_isFrom (hi : i ≤ xs.length) :
    ((rowsFrom L c 0 xs : List (ItemRow ItemId Gap)).filter fun row => !row.isFrom L ⟨c, i⟩) =
      rowsFrom L c 0 (xs.take i) := by
  have hlength : (xs.take i).length = i := by simpa using hi
  conv_lhs => rw [← take_append_drop i xs, rowsFrom_append, filter_append, hlength]
  rw [filter_eq_self.2, filter_eq_nil_iff.2, append_nil]
  · intro row hrow
    obtain ⟨h₁, h₂, h₃, -⟩ := mem_rowsFrom hrow
    simp [isFrom, h₁, h₂]
    omega
  · intro row hrow
    obtain ⟨h₁, h₂, -, h₃⟩ := mem_rowsFrom hrow
    simp [isFrom, h₁, h₂]
    omega

lemma map_shift_rowsFrom (hi : i ≤ n) : ((rowsFrom L c (n + 1) xs : List (ItemRow ItemId Gap)).map
    (·.shift L ⟨c, i⟩)) = rowsFrom L c n xs := by
  induction xs generalizing n with
  | nil => rfl
  | cons x xs ih =>
    rw [rowsFrom_cons, rowsFrom_cons, map_cons, ih (by omega)]
    have hlt : i < n + 1 := by omega
    simp [shift, hlt, Position.decrementIndex]

lemma map_shift_filter_isAt (hi : i < xs.length) :
    ((rowsFrom L c 0 xs : List (ItemRow ItemId Gap)).filter fun row => !row.isAt L ⟨c, i⟩).map
      (·.shift L ⟨c, i⟩) = rowsFrom L c 0 (xs.eraseIdx i) := by
  obtain ⟨l, x, r, rfl, rfl⟩ := exists_split hi
  have hbefore : ∀ row ∈ (rowsFrom L c 0 l : List (ItemRow ItemId Gap)), row.position.index < l.length :=
    fun row hrow => by simpa using (mem_rowsFrom hrow).2.2.2
  have hl : ((rowsFrom L c 0 l : List (ItemRow ItemId Gap)).filter
      fun row => !row.isAt L ⟨c, l.length⟩).map (·.shift L ⟨c, l.length⟩) = rowsFrom L c 0 l := by
    rw [filter_eq_self.2 fun row hrow => ?_]
    · conv_rhs => rw [← map_id (rowsFrom L c 0 l)]
      refine map_congr_left fun row hrow => if_neg fun hafter => ?_
      exact absurd hafter.2.2 (Nat.not_lt.2 (hbefore row hrow).le)
    · have hne : row.position ≠ ⟨c, l.length⟩ := fun heq => by
        have := hbefore row hrow
        rw [heq] at this
        exact lt_irrefl _ this
      simp [isAt, hne]
  have hr : (rowsFrom L c (l.length + 1) r : List (ItemRow ItemId Gap)).filter
      (fun row => !row.isAt L ⟨c, l.length⟩) = rowsFrom L c (l.length + 1) r := by
    refine filter_eq_self.2 fun row hrow => ?_
    have hafter := (mem_rowsFrom hrow).2.2.1
    have hne : row.position ≠ ⟨c, l.length⟩ := fun heq => by
      rw [heq] at hafter
      exact absurd hafter (by simp)
    simp [isAt, hne]
  have herase : (l ++ x :: r).eraseIdx l.length = l ++ r := by
    rw [eraseIdx_append_of_length_le le_rfl, Nat.sub_self, eraseIdx_cons_zero]
  rw [herase, rowsFrom_append, rowsFrom_append, rowsFrom_cons, filter_append, map_append, hl,
    filter_cons_of_neg (by simp [isAt]), Nat.zero_add, hr, map_shift_rowsFrom le_rfl]

lemma map_replace_rowsFrom (hi : i < xs.length) :
    ((rowsFrom L c 0 xs : List (ItemRow ItemId Gap)).map fun row =>
      if row.position == ⟨c, i⟩ then { row with item := .item (IndexableItem.id x) } else row) =
      rowsFrom L c 0 (xs.set i x) := by
  obtain ⟨l, y, r, rfl, rfl⟩ := exists_split hi
  have hother : ∀ (n : ℕ) (ys : List Item), (n + ys.length ≤ l.length ∨ l.length < n) →
      ((rowsFrom L c n ys : List (ItemRow ItemId Gap)).map fun row =>
        if row.position == ⟨c, l.length⟩ then { row with item := .item (IndexableItem.id x) } else row) =
        rowsFrom L c n ys := by
    intro n ys hn
    conv_rhs => rw [← map_id (rowsFrom L c n ys)]
    refine map_congr_left fun row hrow => if_neg fun heq => ?_
    obtain ⟨-, -, h₁, h₂⟩ := mem_rowsFrom hrow
    rw [beq_iff_eq.1 heq] at h₁ h₂
    simp only at h₁ h₂
    omega
  have hset : (l ++ y :: r).set l.length x = l ++ x :: r := by
    rw [set_append_right _ _ le_rfl, Nat.sub_self, set_cons_zero]
  rw [hset, rowsFrom_append, rowsFrom_append, rowsFrom_cons, rowsFrom_cons, map_append, map_cons,
    hother 0 l (by omega), hother _ r (by omega)]
  simp

lemma filter_position (hc : c ∉ ids (pre ++ post)) (hi : i < xs.length) :
    ∃ y : Item, xs[i]? = some y ∧ (itemRows L (pre ++ ⟨c, .items xs⟩ :: post) : List (ItemRow ItemId Gap)).filter
      (·.position == ⟨c, i⟩) = [⟨L, ⟨c, i⟩, .item (IndexableItem.id y)⟩] := by
  obtain ⟨l, y, r, rfl, rfl⟩ := exists_split hi
  refine ⟨y, by simp, ?_⟩
  rw [ids_append, mem_append, not_or] at hc
  have hchunk : ∀ ds : List (PlainChunk Item Gap), c ∉ ids ds →
      (itemRows L ds : List (ItemRow ItemId Gap)).filter (·.position == ⟨c, l.length⟩) = [] := by
    refine fun ds hds => filter_eq_nil_iff.2 fun row hrow heq => hds ?_
    have hmem := (mem_itemRows hrow).2
    rwa [beq_iff_eq.1 heq] at hmem
  have hindex : ∀ (n : ℕ) (ys : List Item), (n + ys.length ≤ l.length ∨ l.length < n) →
      (rowsFrom L c n ys : List (ItemRow ItemId Gap)).filter (·.position == ⟨c, l.length⟩) = [] := by
    refine fun n ys hn => filter_eq_nil_iff.2 fun row hrow heq => ?_
    obtain ⟨-, -, h₁, h₂⟩ := mem_rowsFrom hrow
    rw [beq_iff_eq.1 heq] at h₁ h₂
    simp only at h₁ h₂
    omega
  rw [itemRows_middle, filter_append, filter_append, hchunk pre hc.1, hchunk post hc.2]
  simp only [chunkItemRows, rowsFrom_append, rowsFrom_cons, filter_append]
  rw [hindex 0 l (by omega), filter_cons_of_pos (by simp), hindex _ r (by omega)]
  simp

lemma not_mem_of_nodup_ids {d : PlainChunk Item Gap} (hn : (ids (pre ++ d :: post)).Nodup) :
    d.identifier ∉ ids (pre ++ post) := by
  rw [ids_append, ids_cons] at hn
  simpa using (nodup_cons.1 (nodup_middle.1 hn)).1

end ItemRows

/-! ## The store of a list of chunks -/

namespace RelationalLinkedChunk

variable {ItemId Item Gap : Type} [LinearOrder ItemId] [IndexableItem Item ItemId]

/-- **The store holds the chunks `cs` of the linked chunk `L`.** -/
structure Stores (store : RelationalLinkedChunk ItemId Item Gap) (L : LinkedChunkId)
    (cs : List (PlainChunk Item Gap)) : Prop where
  chunks : (store.chunkRows L).Perm (linkRows L none (ids cs) none)
  itemsChunks : (store.itemsChunks.filter (·.linkedChunkId == L)).Perm (itemRows L cs)
  items : ∀ x ∈ flatten cs, store.itemContent L (IndexableItem.id x) = some x

section Index

variable {L : LinkedChunkId} {store : RelationalLinkedChunk ItemId Item Gap} {«at» : Position}
  {items : List Item}

lemma entry_indexItem (item : Item) (k : ItemId) (chunks : List ChunkRow)
    (itemsChunks : List (ItemRow ItemId Gap)) :
    (⟨chunks, itemsChunks, store.indexItem L «at» item⟩ : RelationalLinkedChunk ItemId Item Gap).entry L k =
      if IndexableItem.id item = k then some (item, some «at») else store.entry L k := by
  simp only [entry, indexItem, AList.lookup_insert]
  cases store.items.lookup L with
  | none => simp [Std.TreeMap.getElem?_insert]
  | some m => simp [Std.TreeMap.getElem?_insert]

lemma pushItems_chunks : (store.pushItems L «at» items).chunks = store.chunks := by
  induction items generalizing store «at» with
  | nil => rfl
  | cons x xs ih => exact ih

lemma pushItems_itemsChunks : (store.pushItems L «at» items).itemsChunks =
    store.itemsChunks ++ rowsFrom L «at».chunkIdentifier «at».index items := by
  induction items generalizing store «at» with
  | nil => simp [pushItems, rowsFrom]
  | cons x xs ih =>
    rw [pushItems, ih, rowsFrom_cons]
    simp [Position.incrementIndex]

lemma entry_pushItems_of_not_mem {k : ItemId} (h : k ∉ itemIds items) :
    (store.pushItems L «at» items).entry L k = store.entry L k := by
  induction items generalizing store «at» with
  | nil => rfl
  | cons x xs ih =>
    rw [itemIds, map_cons, mem_cons, not_or] at h
    rw [pushItems, ih h.2, entry_indexItem, if_neg (Ne.symm h.1)]

lemma entry_pushItems {x : Item} {i : ℕ} (hn : (itemIds items).Nodup)
    (hx : (x, i) ∈ items.zipIdx «at».index) :
    (store.pushItems L «at» items).entry L (IndexableItem.id x) =
      some (x, some ⟨«at».chunkIdentifier, i⟩) := by
  induction items generalizing store «at» with
  | nil => simp at hx
  | cons y ys ih =>
    rw [itemIds, map_cons, nodup_cons] at hn
    rw [zipIdx_cons, mem_cons] at hx
    rw [pushItems]
    rcases hx with heq | hx
    · obtain ⟨rfl, rfl⟩ := Prod.mk.inj heq
      rw [entry_pushItems_of_not_mem hn.1, entry_indexItem, if_pos rfl]
    · exact ih hn.2 hx

end Index

/-! ### One update -/

section Step

variable {L : LinkedChunkId} {store : RelationalLinkedChunk ItemId Item Gap}
  {pre post cs : List (PlainChunk Item Gap)} {c : ChunkIdentifier} {xs new : List Item} {i : ℕ}

lemma Stores.newChunk {content : ChunkContent Item Gap} (h : Stores store L (pre ++ post))
    (hn : (ids (pre ++ post)).Nodup) (hc : c ∉ ids (pre ++ post)) (hempty : content.numItems = 0) :
    ∃ store', store.applyUpdate L
        (LinkedChunk.newChunkUpdate (ids pre).getLast? c (ids post).head? content) = .ok (.ok (), store') ∧
      Stores store' L (pre ++ ⟨c, content⟩ :: post) := by
  have hchunks := h.chunks
  rw [ids_append] at hchunks hn hc
  obtain ⟨chunks', hinsert, hperm⟩ := insertChunk_spec hchunks hn hc
  have hids : ids (pre ++ ⟨c, content⟩ :: post) = ids pre ++ c :: ids post := by simp
  have hflatten : flatten (pre ++ ⟨c, content⟩ :: post) = flatten (pre ++ post) := by
    simp [ChunkContent.toItems_eq_nil hempty]
  have hitems := h.itemsChunks
  cases content with
  | gap gap =>
    refine ⟨{ store with chunks := chunks', itemsChunks := store.itemsChunks ++ [⟨L, ⟨c, 0⟩, .gap gap⟩] }, ?_, ?_, ?_, ?_⟩
    · simp only [LinkedChunk.newChunkUpdate, applyUpdate, hinsert]
    · rw [hids]
      exact hperm
    · rw [itemRows_middle, filter_append]
      rw [filter_cons_of_pos (by simp), filter_nil]
      refine (hitems.append_right _).trans ((perm_append_singleton _ _).trans ?_)
      rw [itemRows, flatMap_append]
      exact perm_middle.symm
    · rw [hflatten]
      exact h.items
  | items xs =>
    obtain rfl : xs = [] := length_eq_zero_iff.1 hempty
    refine ⟨{ store with chunks := chunks' }, ?_, ?_, ?_, ?_⟩
    · simp only [LinkedChunk.newChunkUpdate, applyUpdate, hinsert]
    · rw [hids]
      exact hperm
    · simpa [itemRows, chunkItemRows, rowsFrom] using hitems
    · rw [hflatten]
      exact h.items

lemma Stores.removeChunk {d : PlainChunk Item Gap} (h : Stores store L (pre ++ d :: post))
    (hn : (ids (pre ++ d :: post)).Nodup) (hempty : d.content.numItems = 0) :
    ∃ store', store.applyUpdate L (.removeChunk d.identifier) = .ok (.ok (), store') ∧
      Stores store' L (pre ++ post) := by
  have hchunks := h.chunks
  rw [ids_append, ids_cons] at hchunks hn
  obtain ⟨chunks', hremove, hperm⟩ := removeChunk_spec hchunks hn
  have hd := (nodup_cons.1 (nodup_middle.1 hn)).1
  have hflatten : flatten (pre ++ d :: post) = flatten (pre ++ post) := by
    simp [ChunkContent.toItems_eq_nil hempty]
  refine ⟨_, by simp only [applyUpdate, hremove]; rfl, ?_, ?_, ?_⟩
  · rw [ids_append]
    exact hperm
  · simp only [removeIndices_indicesOf]
    rw [filter_filter, filter_congr fun x _ => Bool.and_comm _ _, ← filter_filter]
    have hspec : (itemRows L (pre ++ d :: post)).filter (fun row => !row.isIn L d.identifier) =
        itemRows L (pre ++ post) := by
      rw [filter_itemRows (by simpa using hd) fun row hrow => by simp [isIn, hrow],
        filter_eq_nil_iff.2 fun row hrow => ?_]
      · simp [itemRows]
      · simp [isIn, mem_chunkItemRows hrow]
    exact hspec ▸ h.itemsChunks.filter _
  · rw [← hflatten]
    exact h.items

omit [LinearOrder ItemId] in
lemma nodup_push (hd : (itemIds (flatten (pre ++ ⟨c, .items (xs ++ new)⟩ :: post))).Nodup) :
    (itemIds new).Nodup ∧ ∀ x ∈ flatten (pre ++ ⟨c, .items xs⟩ :: post), IndexableItem.id x ∉ itemIds new := by
  have hflatten : (flatten (pre ++ ⟨c, .items (xs ++ new)⟩ :: post)).Perm
      (new ++ flatten (pre ++ ⟨c, .items xs⟩ :: post)) := by
    simp only [flatten_append, flatten_cons, ChunkContent.toItems_items, append_assoc]
    rw [← append_assoc (flatten pre) xs, ← append_assoc (flatten pre) xs]
    exact perm_append_comm_assoc _ _ _
  have hnodup := (hflatten.map IndexableItem.id).nodup_iff.1 hd
  rw [map_append, nodup_append] at hnodup
  exact ⟨hnodup.1, fun x hx hmem => hnodup.2.2 _ hmem _ (mem_map_of_mem hx) rfl⟩

lemma Stores.pushItems (h : Stores store L (pre ++ ⟨c, .items xs⟩ :: post))
    (hd : (itemIds (flatten (pre ++ ⟨c, .items (xs ++ new)⟩ :: post))).Nodup) :
    ∃ store', store.applyUpdate L (.pushItems ⟨c, xs.length⟩ new) = .ok (.ok (), store') ∧
      Stores store' L (pre ++ ⟨c, .items (xs ++ new)⟩ :: post) := by
  refine ⟨_, rfl, ?_, ?_, ?_⟩
  · simpa [chunkRows, pushItems_chunks] using h.chunks
  · rw [pushItems_itemsChunks, filter_append, filter_rowsFrom]
    refine (h.itemsChunks.append_right _).trans ?_
    rw [itemRows_middle, itemRows_middle]
    simp only [chunkItemRows, rowsFrom_append, Nat.zero_add, append_assoc]
    exact ((perm_append_comm).append_left _).append_left _
  · obtain ⟨hnew, hold⟩ := nodup_push hd
    intro x hx
    rw [itemContent]
    simp only [flatten_append, flatten_cons, ChunkContent.toItems_items, mem_append] at hx
    by_cases hxnew : x ∈ new
    · rw [← zipIdx_map_fst xs.length new] at hxnew
      obtain ⟨⟨x, k⟩, hk, rfl⟩ := mem_map.1 hxnew
      rw [entry_pushItems hnew hk]
      rfl
    · have hxold : x ∈ flatten (pre ++ ⟨c, .items xs⟩ :: post) := by
        simp only [flatten_append, flatten_cons, ChunkContent.toItems_items, mem_append]
        tauto
      rw [entry_pushItems_of_not_mem (hold x hxold)]
      exact h.items x hxold

/-- A replaced item reaches the row of its own linked chunk: the first row at its position is that
row, or both hold the item already. -/
def Reaches (L : LinkedChunkId) (store : RelationalLinkedChunk ItemId Item Gap) : Update Item Gap → Prop
  | .replaceItem «at» item =>
    ∀ row, store.itemsChunks.find? (·.position == «at») = some row → row.linkedChunkId = L ∨
      row.item = .item (IndexableItem.id item) ∧ ⟨L, «at», .item (IndexableItem.id item)⟩ ∈ store.itemsChunks
  | _ => True

section

variable (h : Stores store L (pre ++ ⟨c, .items xs⟩ :: post))
  (hn : (ids (pre ++ ⟨c, .items xs⟩ :: post)).Nodup)
include h hn

lemma Stores.filter_isAt
    (hi : i < xs.length) :
    ∃ y : Item, xs[i]? = some y ∧
      store.itemsChunks.filter (·.isAt L ⟨c, i⟩) = [⟨L, ⟨c, i⟩, .item (IndexableItem.id y)⟩] := by
  obtain ⟨y, hget, hy⟩ := filter_position (L := L) (not_mem_of_nodup_ids hn) hi
  refine ⟨y, hget, perm_singleton.1 ?_⟩
  rw [← hy]
  have := h.itemsChunks.filter (·.position == ⟨c, i⟩)
  rw [filter_filter] at this
  refine List.Perm.trans (List.Perm.of_eq (filter_congr fun row _ => ?_)) this
  exact Bool.and_comm _ _

lemma Stores.replace_rows {x : Item} (hi : i < xs.length) (hreach : Reaches L store (.replaceItem ⟨c, i⟩ x)) :
    ∃ row k, store.itemsChunks.find? (·.position == ⟨c, i⟩) = some row ∧ row.item = .item k ∧
      ((modifyFirst (·.position == ⟨c, i⟩) (fun row => { row with item := .item (IndexableItem.id x) })
        store.itemsChunks).filter (·.linkedChunkId == L)).Perm
        (itemRows L (pre ++ ⟨c, .items (xs.set i x)⟩ :: post)) := by
  obtain ⟨y, -, hy⟩ := h.filter_isAt hn hi
  set own : ItemRow ItemId Gap := ⟨L, ⟨c, i⟩, .item (IndexableItem.id y)⟩ with hown
  set give : ItemRow ItemId Gap → ItemRow ItemId Gap := fun row => { row with item := .item (IndexableItem.id x) }
    with hgive
  have hunique : ∀ row ∈ store.itemsChunks, row.linkedChunkId = L → row.position = ⟨c, i⟩ → row = own := by
    intro row hrow hL hposition
    have hmem : row ∈ store.itemsChunks.filter (·.isAt L ⟨c, i⟩) :=
      mem_filter.2 ⟨hrow, by simp [isAt, hL, hposition]⟩
    rw [hy] at hmem
    exact mem_singleton.1 hmem
  have hmem : own ∈ store.itemsChunks :=
    (mem_filter.1 (hy ▸ mem_singleton_self own : own ∈ store.itemsChunks.filter _)).1
  obtain ⟨row, hfind⟩ : ∃ row, store.itemsChunks.find? (·.position == ⟨c, i⟩) = some row :=
    Option.isSome_iff_exists.1 (List.find?_isSome.2 ⟨own, hmem, by simp [hown]⟩)
  have hposition : row.position = ⟨c, i⟩ := by simpa using List.find?_some hfind
  have hspec : (itemRows L (pre ++ ⟨c, .items xs⟩ :: post)).map
      (fun row => if row.position == ⟨c, i⟩ then give row else row) =
      itemRows L (pre ++ ⟨c, .items (xs.set i x)⟩ :: post) := by
    rw [map_itemRows (not_mem_of_nodup_ids hn) fun row hrow => ?_, itemRows_middle]
    · simp only [chunkItemRows]
      rw [map_replace_rowsFrom hi]
    · exact if_neg fun heq => hrow (by rw [beq_iff_eq.1 heq])
  rw [← hspec]
  rcases hreach row hfind with hL | ⟨hitem, hheld⟩
  · obtain rfl := hunique row (mem_of_find?_eq_some hfind) hL hposition
    refine ⟨own, _, hfind, rfl, ?_⟩
    have hone : (store.itemsChunks.filter (·.linkedChunkId == L)).filter (·.position == ⟨c, i⟩) = [own] := by
      rw [filter_filter, ← hy]
      exact filter_congr fun row _ => Bool.and_comm _ _
    rw [filter_modifyFirst hfind (by simp [hown]) (by simp [hown, hgive]), modifyFirst_eq_map hone]
    exact h.itemsChunks.map _
  · refine ⟨row, _, hfind, hitem, ?_⟩
    -- nothing changes: the row that is found holds the item, and so does the own row
    have hsame : give row = row := by
      rw [hgive]
      rw [← hitem]
    have hid : own = ⟨L, ⟨c, i⟩, .item (IndexableItem.id x)⟩ := (hunique _ hheld rfl rfl).symm
    rw [modifyFirst_of_find hfind hsame]
    refine h.itemsChunks.trans (List.Perm.of_eq ?_)
    conv_lhs => rw [← map_id (itemRows L _)]
    refine map_congr_left fun z hz => ?_
    simp only [id_eq]
    split
    next hz' =>
      have hz₁ := mem_filter.1 (h.itemsChunks.mem_iff.2 hz)
      rw [hunique z hz₁.1 (by simpa using hz₁.2) (by simpa using hz'), hid]
    · rfl

lemma Stores.replaceItem {x : Item} (hi : i < xs.length)
    (hd : (itemIds (flatten (pre ++ ⟨c, .items (xs.set i x)⟩ :: post))).Nodup)
    (hreach : Reaches L store (.replaceItem ⟨c, i⟩ x)) :
    ∃ store', store.applyUpdate L (.replaceItem ⟨c, i⟩ x) = .ok (.ok (), store') ∧
      Stores store' L (pre ++ ⟨c, .items (xs.set i x)⟩ :: post) := by
  obtain ⟨row, k, hfind, hitem, hperm⟩ := h.replace_rows hn hi hreach
  refine ⟨_, by simp only [applyUpdate, RelationalLinkedChunk.replaceItem, hfind, hitem]; rfl, ?_, hperm, ?_⟩
  · simpa [chunkRows] using h.chunks
  · intro z hz
    rw [itemContent, entry_indexItem]
    have hx : x ∈ flatten (pre ++ ⟨c, .items (xs.set i x)⟩ :: post) := by
      simp [mem_set hi]
    split
    next heq => rw [inj_on_of_nodup_map hd hx hz heq]; rfl
    next hne =>
      refine h.items z ?_
      simp only [flatten_append, flatten_cons, ChunkContent.toItems_items, mem_append] at hz ⊢
      refine hz.imp_right fun hz => hz.imp_left fun hz => ?_
      exact (mem_or_eq_of_mem_set hz).resolve_right fun heq => hne (by rw [heq])

lemma Stores.removeItem
    (hi : i < xs.length) :
    ∃ store', store.applyUpdate L (.removeItem ⟨c, i⟩) = .ok (.ok (), store') ∧
      Stores store' L (pre ++ ⟨c, .items (xs.eraseIdx i)⟩ :: post) := by
  obtain ⟨y, -, hy⟩ := h.filter_isAt hn hi
  have hone : (indicesOf (·.isAt L ⟨c, i⟩) store.itemsChunks).length = 1 := by
    rw [length_indicesOf, hy]
    rfl
  obtain ⟨itemsChunks', hremove⟩ : ∃ rows, removeItemRow store.itemsChunks L ⟨c, i⟩ = .ok rows := by
    obtain ⟨nth, hnth⟩ := length_eq_one_iff.1 hone
    exact ⟨_, by simp only [removeItemRow, hnth]; rfl⟩
  refine ⟨{ store with itemsChunks := itemsChunks' }, by simp only [applyUpdate, hremove]; rfl, ?_, ?_, ?_⟩
  · simpa [chunkRows] using h.chunks
  · rw [removeItemRow_ok hremove, filter_map]
    have hcomm : (store.itemsChunks.filter fun row => !row.isAt L ⟨c, i⟩).filter
        ((fun row => row.linkedChunkId == L) ∘ fun row => row.shift L ⟨c, i⟩) =
        (store.itemsChunks.filter (·.linkedChunkId == L)).filter fun row => !row.isAt L ⟨c, i⟩ := by
      rw [filter_filter, filter_filter]
      refine filter_congr fun row _ => ?_
      simp [Bool.and_comm]
    rw [hcomm]
    have hspec : ((itemRows L (pre ++ ⟨c, .items xs⟩ :: post)).filter fun row => !row.isAt L ⟨c, i⟩).map
        (·.shift L ⟨c, i⟩) = itemRows L (pre ++ ⟨c, .items (xs.eraseIdx i)⟩ :: post) := by
      rw [edit_itemRows (not_mem_of_nodup_ids hn) fun row hrow => ?_, itemRows_middle]
      · simp only [chunkItemRows]
        rw [map_shift_filter_isAt hi]
      · have hposition : row.position ≠ ⟨c, i⟩ := fun heq => hrow (by rw [heq])
        exact ⟨by simp [isAt, hposition], if_neg fun h => hrow h.2.1⟩
    exact hspec ▸ (h.itemsChunks.filter _).map _
  · refine fun x hx => h.items x ?_
    simp only [flatten_append, flatten_cons, ChunkContent.toItems_items, mem_append] at hx ⊢
    exact hx.imp_right fun hx => hx.imp_left mem_of_mem_eraseIdx

lemma Stores.detachLastItems
    (hi : i < xs.length) :
    ∃ store', store.applyUpdate L (.detachLastItems ⟨c, i⟩) = .ok (.ok (), store') ∧
      Stores store' L (pre ++ ⟨c, .items (xs.take i)⟩ :: post) := by
  have hc := not_mem_of_nodup_ids hn
  refine ⟨_, rfl, ?_, ?_, ?_⟩
  · simpa [chunkRows] using h.chunks
  · simp only [removeIndices_indicesOf]
    rw [filter_filter, filter_congr fun x _ => Bool.and_comm _ _, ← filter_filter]
    have hspec : (itemRows L (pre ++ ⟨c, .items xs⟩ :: post)).filter (fun row => !row.isFrom L ⟨c, i⟩) =
        itemRows L (pre ++ ⟨c, .items (xs.take i)⟩ :: post) := by
      rw [filter_itemRows hc fun row hrow => by simp [isFrom, hrow], itemRows_middle]
      simp only [chunkItemRows]
      rw [filter_isFrom hi.le]
    exact hspec ▸ h.itemsChunks.filter _
  · refine fun x hx => h.items x ?_
    simp only [flatten_append, flatten_cons, ChunkContent.toItems_items, mem_append] at hx ⊢
    exact hx.imp_right fun hx => hx.imp_left mem_of_mem_take

end

lemma stores_clear (store : RelationalLinkedChunk ItemId Item Gap) (L : LinkedChunkId) :
    ∃ store', store.applyUpdate L .clear = .ok (.ok (), store') ∧ Stores store' L [] := by
  have hnone : ∀ {α : Type} (key : α → LinkedChunkId) (rows : List α),
      (rows.filter fun row => key row != L).filter (fun row => key row == L) = [] := by
    intro α key rows
    rw [filter_filter]
    exact filter_eq_nil_iff.2 fun row _ => by simp
  refine ⟨_, rfl, ?_, ?_, by simp⟩
  · rw [chunkRows, hnone]
    exact .nil
  · rw [hnone]
    exact .nil

/-- **A store of the chunks before an update becomes a store of the chunks after it.** -/
theorem Stores.step {cap limit : ℕ} {e e' : Edit Item Gap} {u : Update Item Gap}
    (h : Stores store L e.chunks) (hn : (ids e.chunks).Nodup) (hs : Step none cap limit e u e')
    (hd : (itemIds (flatten e'.chunks)).Nodup) (hreach : Reaches L store u) :
    ∃ store', store.applyUpdate L u = .ok (.ok (), store') ∧ Stores store' L e'.chunks := by
  cases hs with
  | newChunk pre post id content hempty hfresh =>
    rw [Option.or_none]
    exact h.newChunk hn hfresh hempty
  | removeChunk pre post c hempty => exact h.removeChunk hn hempty
  | pushItems pre post id xs new | pushItemsDetached pre post id xs new rest
  | pushItemsReattached pre post id xs new rest => exact h.pushItems hd
  | replaceItem pre post id xs i x hi => exact h.replaceItem hn hi hd hreach
  | removeItem pre post id xs i hi => exact h.removeItem hn hi
  | detachLastItems pre post id xs i hi => exact h.detachLastItems hn hi
  | newChunkDetached pre post cur rest r id content hempty hfresh =>
    have hsplit : pre ++ cur :: post = (pre ++ [cur]) ++ post := by simp
    simp only [Edit.chunks] at h hn ⊢
    rw [hsplit] at h hn hfresh
    have hlast : (ids (pre ++ [cur])).getLast? = some cur.identifier := by simp
    rw [← hlast]
    exact h.newChunk hn hfresh hempty
  | startReattachItems | endReattachItems => exact ⟨store, rfl, h⟩

end Step

end RelationalLinkedChunk

end HaranaMatrix.Linked
