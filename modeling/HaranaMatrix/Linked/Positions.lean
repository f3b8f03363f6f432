import HaranaMatrix.Linked.Sequence

/-!
# Operations at a known place

What an operation does to the chunks when the chunk of its position is known: which chunks stand
before and after it, and what the operation returns. `Linked.Sequence` says what follows for the
flat sequence; here the chunks themselves are followed, as a caller has to that goes on with the
positions it was given. -/

namespace HaranaMatrix.Linked

open List

variable {Item Gap : Type}

/-! ## Items and their positions -/

section Positioned

variable {cs pre post : List (PlainChunk Item Gap)} {id : ChunkIdentifier} {p q : Position} {x y : Item}
  {xs l r : List Item} {g : Gap}

lemma mem_positioned_items : (q, y) ∈ positioned (pre ++ ⟨id, .items xs⟩ :: post) ↔
    (q, y) ∈ positioned pre ∨ (q.chunkIdentifier = id ∧ xs[q.index]? = some y) ∨
      (q, y) ∈ positioned post := by
  have hmiddle : (q, y) ∈ xs.zipIdx.map (fun z => ((⟨id, z.2⟩ : Position), z.1)) ↔
      q.chunkIdentifier = id ∧ xs[q.index]? = some y := by
    constructor
    · intro h
      obtain ⟨z, hz, heq⟩ := mem_map.1 h
      cases heq
      exact ⟨rfl, mem_zipIdx_iff_getElem?.1 hz⟩
    · rintro ⟨rfl, h⟩
      exact mem_map.2 ⟨(y, q.index), mem_zipIdx_iff_getElem?.2 h, rfl⟩
  rw [positioned_append, positioned_cons, mem_append, mem_append, ChunkContent.toItems_items, hmiddle]

lemma exists_cut {i : ℕ} (h : xs[i]? = some x) : ∃ l r, xs = l ++ x :: r ∧ l.length = i := by
  obtain ⟨hi, rfl⟩ := List.getElem?_eq_some_iff.1 h
  refine ⟨xs.take i, xs.drop (i + 1), ?_, by simpa using Nat.le_of_lt hi⟩
  rw [getElem_cons_drop, take_append_drop]

lemma exists_of_mem_positioned (h : (p, x) ∈ positioned cs) :
    ∃ pre l r post, cs = pre ++ ⟨p.chunkIdentifier, .items (l ++ x :: r)⟩ :: post ∧ l.length = p.index := by
  obtain ⟨⟨id, content⟩, hc, hx⟩ := mem_flatMap.1 h
  obtain ⟨pre, post, rfl⟩ := append_of_mem hc
  obtain ⟨z, hz, heq⟩ := mem_map.1 hx
  cases heq
  cases content with
  | gap g => simp at hz
  | items xs =>
    obtain ⟨l, r, hxs, hl⟩ := exists_cut (mem_zipIdx_iff_getElem?.1 hz)
    rw [ChunkContent.toItems_items] at hxs
    exact ⟨pre, l, r, post, by rw [hxs], hl⟩

lemma mem_elements_of_mem_positioned (h : (p, x) ∈ positioned cs) : .item x ∈ elements cs := by
  obtain ⟨pre, l, r, post, rfl, -⟩ := exists_of_mem_positioned h
  simp

lemma mem_positioned_change {xs' : List Item} (h : (q, y) ∈ positioned (pre ++ ⟨id, .items xs⟩ :: post))
    (hq : q.chunkIdentifier = id → xs[q.index]? = some y → xs'[q.index]? = some y) :
    (q, y) ∈ positioned (pre ++ ⟨id, .items xs'⟩ :: post) := by
  rw [mem_positioned_items] at h ⊢
  rcases h with h | ⟨hid, h⟩ | h
  · exact .inl h
  · exact .inr (.inl ⟨hid, hq hid h⟩)
  · exact .inr (.inr h)

end Positioned

/-! ## The chunk of a position -/

section Split

variable {pre post : List (ChunkData Item Gap)} {c : ChunkData Item Gap}

lemma findSplit_eq (hn : (ids (plain (pre ++ c :: post))).Nodup) :
    findSplit c.identifier (pre ++ c :: post) = some (pre, c, post) := by
  rw [plain_append, plain_cons, ids_append, ids_cons, plain_identifier] at hn
  have hpost : findSplit c.identifier post = none := by
    refine findSplit_none.2 fun d hd heq => ?_
    have : c.identifier ∈ ids (plain post) := by
      rw [ids_plain, ← heq]
      exact mem_map_of_mem hd
    exact (nodup_cons.1 (nodup_append.1 hn).2.1).1 this
  clear hn
  induction pre with
  | nil => simp [findSplit, hpost]
  | cons d pre ih => simp [findSplit, ih]

lemma exists_of_plain {a : Chain Item Gap} {pre post : List (PlainChunk Item Gap)}
    {id content} (h : plain a.chunks = pre ++ ⟨id, content⟩ :: post) :
    ∃ pre' c post' gen, a = ⟨pre' ++ c :: post', gen⟩ ∧ plain pre' = pre ∧ c.identifier = id ∧
      c.content = content ∧ plain post' = post := by
  obtain ⟨chunks, gen⟩ := a
  obtain ⟨pre', rest, rfl, rfl, hrest⟩ := map_eq_append_iff.1 h
  obtain ⟨c, post', rfl, hc, rfl⟩ := map_eq_cons_iff.1 hrest
  obtain ⟨rfl, rfl⟩ := PlainChunk.mk.inj hc
  exact ⟨pre', c, post', gen, rfl, rfl, rfl, rfl, rfl⟩

lemma touch_split (g : ChunkIdentifierGenerator) :
    Chain.touch ⟨pre ++ c :: post, g⟩ = (⟨pre ++ c :: post, g⟩, []) := by
  cases pre <;> rfl

end Split

/-! ## Operations -/

lemma Returns.yields {α : Type} {b : ℕ} {P : α → Prop} {x : Except Fault α} (h : Returns b P x) :
    Yields .noMoreIdentifiers P x := h.imp_right fun h => h.1

lemma PushRun.first_items {cap : ℕ} {next : Option ChunkIdentifier} {g : ChunkIdentifierGenerator}
    {c : ChunkData Item Gap} {items xs : List Item} {r : Pushed Item Gap} (h : PushRun cap next g c items r)
    (hc : c.content = .items xs) : ∃ ys rest, r.chunks = { c with content := .items ys } :: rest := by
  cases h with
  | done => exact ⟨xs, [], by rw [← hc]; rfl⟩
  | fits => exact ⟨_, [], rfl⟩
  | fills => exact ⟨_, _, rfl⟩
  | opens => exact ⟨xs, _, by rw [← hc]; rfl⟩

namespace Chain

section At

variable {cap : ℕ} (hcap : 0 < cap) {a : Chain Item Gap} {pre post : List (PlainChunk Item Gap)}
  {id : ChunkIdentifier}
  {x : Item} {l r xs items : List Item} {g : Gap}

section

variable (hn : (ids (plain a.chunks)).Nodup)
include hn

section

variable (cap) (ha : plain a.chunks = pre ++ ⟨id, .items (l ++ x :: r)⟩ :: post)
include ha

lemma removeItemAt_at :
    ∃ y, a.step cap (.removeItemAt ⟨id, l.length⟩) = .ok y ∧ y.1 = .ok (.item x) ∧
      (plain y.2.1.chunks = pre ++ ⟨id, .items (l ++ r)⟩ :: post ∨
        (l ++ r = [] ∧ plain y.2.1.chunks = pre ++ post)) := by
  obtain ⟨pre, c, post, gen, rfl, rfl, rfl, hcontent, rfl⟩ := exists_of_plain ha
  refine ⟨_, rfl, ?_⟩
  have hx : (l ++ x :: r)[l.length]? = some x := by simp
  have herase : (l ++ x :: r).eraseIdx l.length = l ++ r := by
    rw [eraseIdx_append_of_length_le le_rfl]
    simp
  simp only [removeItemAt, touch_split, findSplit_eq hn, hcontent, hx, herase]
  split
  · next h => exact ⟨rfl, .inr ⟨isEmpty_iff.1 h.1, by simp [outcome]⟩⟩
  · exact ⟨rfl, .inl (by simp [outcome])⟩

lemma replaceItemAt_at (new : Item) :
    ∃ y, a.step cap (.replaceItemAt ⟨id, l.length⟩ new) = .ok y ∧ y.1 = .ok .unit ∧
      plain y.2.1.chunks = pre ++ ⟨id, .items (l ++ new :: r)⟩ :: post ∧
      y.2.2 = [.replaceItem ⟨id, l.length⟩ new] := by
  obtain ⟨pre, c, post, gen, rfl, rfl, rfl, hcontent, rfl⟩ := exists_of_plain ha
  refine ⟨_, rfl, ?_⟩
  simp only [replaceItemAt, touch_split, findSplit_eq hn, hcontent]
  rw [if_neg (by simp)]
  exact ⟨rfl, by simp [outcome], rfl⟩

end

variable (cap) in
lemma removeEmptyChunkAt_at {content : ChunkContent Item Gap}
    (ha : plain a.chunks = pre ++ ⟨id, content⟩ :: post) (hempty : content.numItems = 0)
    (hmany : pre ++ post ≠ []) :
    ∃ y, a.step cap (.removeEmptyChunkAt id) = .ok y ∧
      y.1 = .ok (.nextPosition ((ids post).head?.map fun next => ⟨next, 0⟩)) ∧
      plain y.2.1.chunks = pre ++ post := by
  obtain ⟨pre, c, post, gen, rfl, rfl, rfl, rfl, rfl⟩ := exists_of_plain ha
  refine ⟨_, rfl, ?_⟩
  have hlength : ¬ (pre ++ c :: post).length ≤ 1 := by
    intro h
    rw [length_append, length_cons] at h
    have hpre : pre = [] := length_eq_zero_iff.1 (by omega)
    have hpost : post = [] := length_eq_zero_iff.1 (by omega)
    exact hmany (by simp [hpre, hpost])
  simp only [removeEmptyChunkAt, touch_split, hlength, if_false, findSplit_eq hn, hempty, Nat.lt_irrefl]
  exact ⟨by simp [outcome, headId_eq, Except.mapError, Except.map], by simp [outcome]⟩

include hcap in
lemma replaceGapAt_at (ha : plain a.chunks = pre ++ ⟨id, .gap g⟩ :: post) (items : List Item) :
    Yields .noMoreIdentifiers (fun y => ∃ first ys rest, y.1 = .ok (.chunk first) ∧
        plain y.2.1.chunks = pre ++ ⟨first.identifier, .items ys⟩ :: rest ∧
        ys.map .item ++ elements rest = items.map .item ++ elements post)
      (a.step cap (.replaceGapAt items id)) := by
  obtain ⟨pre, c, post, gen, rfl, rfl, rfl, hcontent, rfl⟩ := exists_of_plain ha
  simp only [step, replaceGapAt, touch_split, findSplit_eq hn, hcontent]
  refine Yields.map ((next_returns le_rfl).yields.bind ?_)
  rintro _ rfl
  refine (pushChunksOn_returns hcap _ _ _ _).yields.bind fun r hr => .ok ?_
  obtain ⟨ys, rest, hchunks⟩ := hr.1.first_items rfl
  have helements := hr.1.elements_chunks
  rw [hchunks] at helements
  refine ⟨_, ys, plain rest ++ plain post, rfl, ?_, ?_⟩
  · simp [outcome, hchunks]
  · simpa [append_assoc] using congrArg (· ++ elements (plain post)) helements

include hcap in
lemma insertItemsAt_at (ha : plain a.chunks = pre ++ ⟨id, .items xs⟩ :: post) (items : List Item) :
    Yields .noMoreIdentifiers (fun y => ∃ ys rest, y.1 = .ok .unit ∧
        plain y.2.1.chunks = pre ++ ⟨id, .items ys⟩ :: rest ∧
        ys.map .item ++ elements rest = items.map .item ++ (xs.map .item ++ elements post))
      (a.step cap (.insertItemsAt ⟨id, 0⟩ items)) := by
  obtain ⟨pre, c, post, gen, rfl, rfl, rfl, hcontent, rfl⟩ := exists_of_plain ha
  simp only [step, insertItemsAt, touch_split, findSplit_eq hn, hcontent, Nat.not_lt_zero, if_false]
  refine Yields.map ?_
  split
  · next hnil =>
    obtain rfl : xs = [] := length_eq_zero_iff.1 hnil.symm
    refine (pushChunksOn_returns hcap _ _ _ _).yields.bind fun r hr => .ok ?_
    obtain ⟨ys, rest, hchunks⟩ := hr.1.first_items hcontent
    have helements := hr.1.elements_chunks
    rw [hchunks, hcontent] at helements
    refine ⟨ys, plain rest ++ plain post, rfl, by simp [outcome, hchunks], ?_⟩
    simpa [append_assoc] using congrArg (· ++ elements (plain post)) helements
  · refine (pushChunksOn_returns hcap _ _ _ _).yields.bind fun r hr => ?_
    refine (pushChunksOn_returns hcap _ _ _ _).yields.bind fun r' hr' => .ok ?_
    have helements : elements (plain (r.done ++ r'.chunks)) = items.map .item ++ xs.map .item := by
      rw [plain_append, elements_append, hr'.1.elements_chunks, ← append_assoc, hr.1.elements_done]
      simp
    -- the first chunk is that of the first push, unless this one only has its last chunk
    have hfirst : ∃ ys rest, r.done ++ r'.chunks = { c with content := .items ys } :: rest := by
      obtain ⟨ys, rest, hchunks⟩ := hr.1.first_items rfl
      cases hdone : r.done with
      | nil =>
        rw [Pushed.chunks, hdone, nil_append, List.cons.injEq] at hchunks
        have hlast : r.last.content = .items ys := by rw [hchunks.1]
        obtain ⟨zs, rest', hchunks'⟩ := hr'.1.first_items hlast
        exact ⟨zs, rest', by rw [nil_append, hchunks', hchunks.1]⟩
      | cons d done =>
        rw [Pushed.chunks, hdone, cons_append, List.cons.injEq] at hchunks
        exact ⟨ys, done ++ r'.chunks, by rw [cons_append, hchunks.1]⟩
    obtain ⟨ys, rest, hchunks⟩ := hfirst
    rw [hchunks] at helements
    refine ⟨ys, plain rest ++ plain post, rfl, ?_, ?_⟩
    · rw [append_assoc, append_assoc, ← append_assoc r.done, hchunks]
      simp [outcome]
    · simpa [append_assoc] using congrArg (· ++ elements (plain post)) helements

lemma insertGapAt_at (ha : plain a.chunks = pre ++ ⟨id, .items xs⟩ :: post) (gap : Gap) :
    Yields .noMoreIdentifiers (fun y => y.1 = .ok .unit ∧
        ∃ new, plain y.2.1.chunks = pre ++ ⟨new, .gap gap⟩ :: ⟨id, .items xs⟩ :: post)
      (a.step cap (.insertGapAt gap ⟨id, 0⟩)) := by
  obtain ⟨pre, c, post, gen, rfl, rfl, rfl, hcontent, rfl⟩ := exists_of_plain ha
  simp only [step, insertGapAt, touch_split, findSplit_eq hn, hcontent, if_true]
  refine Yields.map ((next_returns le_rfl).yields.bind ?_)
  rintro _ rfl
  refine .ok ⟨rfl, ⟨gen.value + 1⟩, ?_⟩
  simp only [outcome]
  split <;> simp [ChunkData.plain, hcontent]

lemma insertGapAt_gap (ha : plain a.chunks = pre ++ ⟨id, .gap g⟩ :: post) (gap : Gap) (i : ℕ) :
    ∃ y, a.step cap (.insertGapAt gap ⟨id, i⟩) = .ok y ∧ y.1 = .error (.linkedChunk (.chunkIsAGap id)) := by
  obtain ⟨pre, c, post, gen, rfl, rfl, rfl, hcontent, rfl⟩ := exists_of_plain ha
  simp only [step, insertGapAt, touch_split, findSplit_eq hn, hcontent]
  exact ⟨_, rfl, rfl⟩

end

lemma pushGapBack_at (a : Chain Item Gap) (gap : Gap) :
    Yields .noMoreIdentifiers (fun y => y.1 = .ok .unit ∧
        ∃ new, plain y.2.1.chunks = plain a.touch.1.chunks ++ [⟨new, .gap gap⟩])
      (a.step cap (.pushGapBack gap)) := by
  simp only [step, pushGapBack]
  refine Yields.map ((next_returns le_rfl).yields.bind ?_)
  rintro _ rfl
  exact .ok ⟨rfl, _, by simp; rfl⟩

include hcap in
lemma pushItemsBack_at (a : Chain Item Gap) (items : List Item) :
    Yields .noMoreIdentifiers (fun y => y.1 = .ok .unit ∧
        elements (plain y.2.1.chunks) = elements (plain a.chunks) ++ items.map .item)
      (a.step cap (.pushItemsBack items)) := by
  refine (pushItemsBack_returns hcap a items).yields.imp_left ?_
  rintro ⟨⟨res, a', us⟩, hok, hagrees⟩
  refine ⟨_, hok, ?_, ?_⟩
  · obtain ⟨z, -, hz⟩ := map_eq_ok hok
    exact (congrArg Prod.fst hz).symm
  · rw [hagrees.2, elements_touch]

end At

end Chain

end HaranaMatrix.Linked
