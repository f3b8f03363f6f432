import HaranaMatrix.Linked.Refine

/-!
# Every operation, simulated

Each operation of `LinkedChunk` is simulated by the operation of `Chain` with its name, by way of
the chain of cells. -/

namespace HaranaMatrix.Linked

open HaranaMatrix.DList List

variable {Item Gap : Type}

namespace LinkedChunk

/-- The heap is the chain `cs`; `links` leads to its first cell, and to its last one or to nothing
when there is at most one. -/
structure Cells (s : LinkedChunk Item Gap) (cs : List (Ptr × ChunkData Item Gap)) : Prop where
  rep : Rep s.heap cs []
  first : s.links.first = headPtr cs none
  last : (s.links.last = none ∧ cs.length ≤ 1) ∨ (cs ≠ [] ∧ s.links.last = lastPtr cs none)

/-- **The chain of the heap holds the chunks of `a`.** -/
def Repr (s : LinkedChunk Item Gap) (a : Chain Item Gap) : Prop :=
  s.chunkIdentifierGenerator = a.generator ∧ ∃ cs, Cells s cs ∧ dataOf cs = a.chunks

/-- The results of an operation of `LinkedChunk` and of its list operation agree. -/
def OpRel {α : Type} (updates : Option (UpdatesInner (Update Item Gap))) (x : α × LinkedChunk Item Gap)
    (y : Emits Item Gap α) : Prop :=
  x.1 = y.1 ∧ Repr x.2 y.2.1 ∧ x.2.updates = emit updates y.2.2

/-- A linked chunk after a method that looks at its first chunk. -/
abbrev touch (s : LinkedChunk Item Gap) : LinkedChunk Item Gap := s.firstChunkPtr.2

variable {s s₀ : LinkedChunk Item Gap} {a : Chain Item Gap}
  {cs cells pre post : List (Ptr × ChunkData Item Gap)} {p q : Ptr} {c d e : ChunkData Item Gap} {cap : ℕ}

lemma lastPtr_cons_ne (h : post ≠ []) (a b : Option Ptr) : lastPtr post a = lastPtr post b := by
  cases post with
  | nil => exact absurd rfl h
  | cons x post => rfl

lemma setFirstIf_eq (b : Bool) (p : Option Ptr) :
    s.setFirstIf b p = { s with links := ⟨if b then p else s.links.first, s.links.last⟩ } := by
  cases b <;> rfl

lemma setLastIf_eq (b : Bool) (p : Option Ptr) :
    s.setLastIf b p = { s with links := ⟨s.links.first, if b then p else s.links.last⟩ } := by
  cases b <;> rfl

lemma isNone_lastPtr (pre : List (Ptr × ChunkData Item Gap)) :
    (lastPtr pre none).isNone = decide (pre = []) := by
  rcases eq_nil_or_concat' pre with rfl | ⟨pre, x, rfl⟩ <;> simp

lemma isNone_headPtr (post : List (Ptr × ChunkData Item Gap)) :
    (headPtr post none).isNone = decide (post = []) := by
  cases post <;> simp

lemma Cells.last_eq (hc : Cells s cs) (hlen : 1 < cs.length) : s.links.last = lastPtr cs none := by
  rcases hc.last with ⟨-, hle⟩ | ⟨-, hlast⟩
  · omega
  · exact hlast

lemma repr_new : Repr (new : LinkedChunk Item Gap) .new :=
  ⟨rfl, [], ⟨rep_empty, rfl, .inl ⟨rfl, by simp⟩⟩, rfl⟩

lemma repr_newWithUpdateHistory : Repr (newWithUpdateHistory : LinkedChunk Item Gap) .new :=
  ⟨rfl, [], ⟨rep_empty, rfl, .inl ⟨rfl, by simp⟩⟩, rfl⟩

/-! ## The first chunk, the last chunk, and looking a chunk up -/

section

variable (h : Repr s a)
include h

lemma firstChunkPtr_spec :
    ∃ p d post, s.firstChunkPtr = (p, s.touch) ∧ Cells s.touch ((p, d) :: post) ∧
      d :: dataOf post = a.touch.1.chunks ∧ s.touch.chunkIdentifierGenerator = a.touch.1.generator ∧
      s.touch.updates = emit s.updates a.touch.2 := by
  obtain ⟨hg, cs, hc, hd⟩ := h
  cases cs with
  | nil =>
    have hf : s.links.first = none := hc.first
    have hl : s.links.last = none := by
      rcases hc.last with h | h
      · exact h.1
      · exact absurd rfl h.1
    have ha : a.chunks = [] := hd.symm
    refine ⟨s.heap.fresh, ⟨none, ChunkIdentifierGenerator.firstIdentifier, .items []⟩, [], ?_, ?_, ?_, ?_, ?_⟩
    · simp only [touch, firstChunkPtr, hf]
      rfl
    · simp only [touch, firstChunkPtr, hf]
      exact ⟨(hc.rep.alloc _).single, rfl, .inl ⟨hl, by simp⟩⟩
    · simp [Chain.touch, ha]
    · simp [touch, firstChunkPtr, hf, Chain.touch, ha, push, newLeaked, hg]
    · simp only [touch, firstChunkPtr, hf, Chain.touch, ha]
      rfl
  | cons x post =>
    have hf : s.links.first = some x.1 := hc.first
    have ha : a.chunks = x.2 :: dataOf post := hd.symm
    refine ⟨x.1, x.2, post, ?_, ?_, ?_, ?_, ?_⟩
    · simp only [touch, firstChunkPtr, hf]
    · simpa only [touch, firstChunkPtr, hf] using hc
    · simp [Chain.touch, ha]
    · simp [touch, firstChunkPtr, hf, Chain.touch, ha, hg]
    · simp [touch, firstChunkPtr, hf, Chain.touch, ha]

lemma Repr.touch : Repr s.touch a.touch.1 := by
  obtain ⟨p, d, post, -, hc, hd, hg, -⟩ := firstChunkPtr_spec h
  exact ⟨hg, _, hc, hd⟩

lemma firstChunkPtr_touch : s.touch.firstChunkPtr = s.firstChunkPtr := by
  obtain ⟨p, d, post, hp, hc, -⟩ := firstChunkPtr_spec h
  have hf : s.touch.links.first = some p := hc.first
  rw [hp]
  generalize s.touch = t at hf
  simp only [firstChunkPtr, hf]

lemma touch_touch : s.touch.touch = s.touch :=
  congrArg Prod.snd (firstChunkPtr_touch h)

lemma opRel_touch {α : Type} (r : α) : OpRel s.updates (r, s.touch) (r, a.touch) := by
  obtain ⟨p, d, post, -, -, -, -, hu⟩ := firstChunkPtr_spec h
  exact ⟨rfl, h.touch, hu⟩

lemma latestChunk_spec :
    ∃ pre p d, s.latestChunk = (p, s.touch) ∧ Cells s.touch (pre ++ [(p, d)]) ∧
      dataOf pre ++ [d] = a.touch.1.chunks := by
  obtain ⟨p, d, post, hp, hc, hd, -⟩ := firstChunkPtr_spec h
  cases hl : s.links.last with
  | some q =>
    obtain ⟨-, cs, hc0, hd0⟩ := h
    have hlast : cs ≠ [] ∧ some q = lastPtr cs none := by
      rcases hc0.last with h | h
      · simp [hl] at h
      · rwa [hl] at h
    obtain ⟨pre, x, rfl⟩ := (eq_nil_or_concat' cs).resolve_left hlast.1
    obtain rfl : q = x.1 := by simpa  using hlast.2
    have hfirst : s.links.first.isSome := by
      rw [hc0.first]
      cases pre <;> simp
    obtain ⟨f, hf⟩ := Option.isSome_iff_exists.1 hfirst
    have ht : s.touch = s := by simp only [LinkedChunk.touch, firstChunkPtr, hf]
    refine ⟨pre, x.1, x.2, by simp only [latestChunk, hl, ht], by rwa [ht], ?_⟩
    have ha : a.touch.1 = a := by
      rw [Chain.touch]
      cases hch : a.chunks with
      | nil => simp [hch] at hd0
      | cons _ _ => rfl
    rw [ha, ← hd0]
    simp
  | none =>
    have hlast : s.touch.links.last = none := by
      unfold LinkedChunk.touch firstChunkPtr
      split <;> simp [hl, push, newLeaked]
    have hlen : ((p, d) :: post).length ≤ 1 := by
      rcases hc.last with h | h
      · exact h.2
      · rw [hlast] at h
        exact absurd (lastPtr_eq_none h.2.symm) h.1
    obtain rfl : post = [] := by simpa using hlen
    exact ⟨[], p, d, by simp only [latestChunk, hl, hp], hc, hd⟩

/-- **Looking a chunk up** finds the last chunk with that identifier. -/
lemma chunk_spec (id : ChunkIdentifier) :
    (findSplit id a.touch.1.chunks = none ∧ s.chunk id = .ok (none, s.touch)) ∨
    ∃ pre p c post, findSplit id a.touch.1.chunks = some (dataOf pre, c, dataOf post) ∧
      s.chunk id = .ok (some p, s.touch) ∧ Cells s.touch (pre ++ (p, c) :: post) := by
  obtain ⟨pre, p, d, hp, hc, hd⟩ := latestChunk_spec h
  have hlast : lastPtr (pre ++ [(p, d)]) none = some p := by simp
  have hchunks : a.touch.1.chunks = dataOf (pre ++ [(p, d)]) := by simpa using hd.symm
  rw [hchunks]
  cases hf : findSplit id (dataOf (pre ++ [(p, d)])) with
  | none =>
    refine .inl ⟨rfl, ?_⟩
    have hall := findSplit_none.1 hf
    have := findPrevious_none (P := fun c => c.identifier == id) hc.rep.seg hc.rep.length_le
      (fun x hx => by simpa using hall x.2 (mem_map_of_mem hx))
    rw [hlast] at this
    simp only [chunk, hp, this, deref, ok_bind]
  | some r =>
    obtain ⟨dpre, c, dpost⟩ := r
    obtain ⟨heq, hid, hpost⟩ := findSplit_some hf
    obtain ⟨cpre, rest, hcs, rfl, hrest⟩ := map_eq_append_iff.1 heq
    obtain ⟨x, cpost, rfl, rfl, rfl⟩ := map_eq_cons_iff.1 hrest
    refine .inr ⟨cpre, x.1, x.2, cpost, rfl, ?_, by rw [← hcs]; exact hc⟩
    rw [hcs] at hc hlast
    have := findPrevious_some (P := fun c => c.identifier == id) (p := x.1) (d := x.2) hc.rep.seg
      hc.rep.length_le (by simpa using hid)
      (fun y hy => by simpa using hpost y.2 (mem_map_of_mem hy))
    rw [hlast] at this
    simp only [chunk, hp, this, deref, ok_bind]

end

/-! ## Operations that push -/

lemma updateLast_spec (hc : Cells s₀ (pre ++ (p, d) :: post)) (hl : s.links = s₀.links)
    (hr : Rep s.heap (pre ++ cells ++ (q, e) :: post) []) (hh : headPtr cells (some q) = some p) :
    ∃ l, s.updateLast q = .ok { s with links := l } ∧
      Cells { s with links := l } (pre ++ cells ++ (q, e) :: post) := by
  have hfirst : s.links.first = headPtr (pre ++ cells ++ (q, e) :: post) none := by
    rw [hl, hc.first]
    simp only [headPtr_append]
    show headPtr pre (some p) = headPtr pre (headPtr cells (some q))
    rw [hh]
  simp only [updateLast, hr.cell, deref, ok_bind]
  split
  · next hcond =>
    obtain rfl : post = [] := by
      cases post with
      | nil => rfl
      | cons x post => simp at hcond
    exact ⟨_, rfl, hr, hfirst, .inr ⟨by simp, by simp ⟩⟩
  · next hcond =>
    refine ⟨s.links, rfl, hr, hfirst, ?_⟩
    rw [hl]
    rcases hc.last with ⟨hnone, hlen⟩ | ⟨-, hlast⟩
    · have hlen' : pre.length + post.length = 0 := by simp at hlen; omega
      obtain ⟨rfl, rfl⟩ : pre = [] ∧ post = [] := by simpa using hlen'
      have hcells : cells = [] := by
        by_contra hne
        refine hcond ⟨?_, rfl⟩
        obtain ⟨cells, x, rfl⟩ := (eq_nil_or_concat' cells).resolve_left hne
        simp
      exact .inl ⟨hnone, by simp [hcells]⟩
    · refine .inr ⟨by simp, ?_⟩
      rw [hlast]
      simp only [lastPtr_append, lastPtr]
      cases post with
      | cons x post => rfl
      | nil =>
        -- the only way to keep `links.last` is a single chunk
        have hcells : pre ++ cells = [] := by
          by_contra hne
          refine hcond ⟨?_, rfl⟩
          obtain ⟨l, x, hx⟩ := (eq_nil_or_concat' _).resolve_left hne
          simp [hx]
        obtain ⟨rfl, rfl⟩ := append_eq_nil_iff.1 hcells
        simpa using hh.symm

/-- A push on the chunk at `q`, to which the cells after `pre` have led, and the update of
`links.last` that ends it. -/
lemma PushRel.updateLast {x : Ptr × LinkedChunk Item Gap} {r : Pushed Item Gap}
    (hx : PushRel s (pre ++ cells) q post [] x r) (hc : Cells s₀ (pre ++ (p, d) :: post))
    (hl : s.links = s₀.links) (hh : headPtr cells (some q) = some p)
    (updates : Option (UpdatesInner (Update Item Gap))) :
    ∃ l, LinkedChunk.updateLast { x.2 with updates := updates } x.1 =
        .ok { x.2 with updates := updates, links := l } ∧
      Repr { x.2 with updates := updates, links := l }
        ⟨dataOf pre ++ dataOf cells ++ r.chunks ++ dataOf post, r.generator⟩ := by
  obtain ⟨q', s'⟩ := x
  obtain ⟨cells', h, rfl, hr, hd, hh'⟩ := hx
  have hr' : Rep h (pre ++ (cells ++ cells') ++ (q', r.last) :: post) [] := by simpa using hr
  obtain ⟨l, hs, hc'⟩ := updateLast_spec (s := { s with
    heap := h, chunkIdentifierGenerator := r.generator, updates := updates })
    hc hl hr' (by rw [headPtr_append, hh', hh])
  exact ⟨l, hs, rfl, _, hc', by simp [Pushed.chunks, hd]⟩

theorem pushItemsBack_sim (h : Repr s a) (items : List Item) :
    Sim (fun x y => OpRel s.updates ((), x) y) (s.pushItemsBack cap items) (a.pushItemsBack cap items) := by
  obtain ⟨pre, p, d, hp, hc, hd⟩ := latestChunk_spec h
  obtain ⟨-, -, -, -, -, -, hg, hu⟩ := firstChunkPtr_spec h
  have hsplit : a.touch.1.splitLast = some (dataOf pre, d) := by
    simp [Chain.splitLast, ← hd]
  simp only [pushItemsBack, Chain.pushItemsBack, hp, hsplit, ← hg]
  refine (pushItems_sim cap (items.length + 1) items hc.rep).bind ?_
  rintro ⟨q, s'⟩ r hx
  have hx' : PushRel s.touch (pre ++ []) p [] [] (q, s') r := by simpa using hx
  obtain ⟨l, hs, hrepr⟩ := hx'.updateLast hc rfl rfl s'.updates
  obtain ⟨cells, h', rfl, hr, hd', hh⟩ := hx
  -- the last chunk has no next one, so that `push_items_back` ends as `updateLast` does
  simp only [updateLast, hr.cell, deref, ok_bind, headPtr_nil, Option.isNone_none, and_true] at hs ⊢
  rw [hs]
  exact .ok ⟨rfl, by simpa using hrepr, by simp [hu]⟩

theorem pushGapBack_sim (h : Repr s a) (content : Gap) :
    Sim (fun x y => OpRel s.updates ((), x) y) (s.pushGapBack content) (a.pushGapBack content) := by
  obtain ⟨pre, p, d, hp, hc, hd⟩ := latestChunk_spec h
  obtain ⟨-, -, -, -, -, -, hg, hu⟩ := firstChunkPtr_spec h
  simp only [pushGapBack, Chain.pushGapBack, hp, ← hg]
  refine (insertNextNew_sim hc.rep (.gap content)).bind ?_
  rintro ⟨new, s'⟩ ⟨id, gen⟩ ⟨h', rfl, hr⟩
  have hlast : lastId a.touch.1.chunks = some d.identifier := by simp [← hd, lastId]
  simp only [hr.cell, deref, ok_bind, hlast]
  refine .ok ⟨rfl, ⟨rfl, _, ⟨hr, ?_, .inr ⟨by simp, by simp [setLast]⟩⟩, ?_⟩, ?_⟩
  · rw [setLast, hc.first]
    simp
  · simp [← hd]
  · simp [setLast, hu, newChunkUpdate, headId]

theorem insertItemsAt_sim (h : Repr s a) (position : Position) (items : List Item) :
    Sim (OpRel s.updates) (s.insertItemsAt cap position items) (a.insertItemsAt cap position items) := by
  obtain ⟨-, -, -, -, -, -, hg, hu⟩ := firstChunkPtr_spec h
  unfold insertItemsAt Chain.insertItemsAt
  rcases chunk_spec h position.chunkIdentifier with ⟨hf, hs⟩ | ⟨pre, p, c, post, hf, hs, hc⟩
  · simp only [hs, hf, ok_bind]
    exact .ok (opRel_touch h _)
  simp only [hs, hf, ok_bind, hc.rep.cell, deref]
  cases hcc : c.content with
  | gap gap => exact .ok (opRel_touch h _)
  | items current =>
    simp only
    split
    · exact .ok (opRel_touch h _)
    split
    · rw [← hg]
      refine (pushItems_sim cap _ items hc.rep).bind ?_
      rintro ⟨q, s'⟩ r hx
      have hx' : PushRel s.touch (pre ++ []) p post [] (q, s') r := by simpa using hx
      obtain ⟨l, hs, hrepr⟩ := hx'.updateLast hc rfl rfl s'.updates
      obtain ⟨cells, h', rfl, hr, hd', hh⟩ := hx
      rw [hs]
      exact .ok ⟨rfl, by simpa using hrepr, by simp [hu]⟩
    · rw [push_eq _ (by simp), ← hg]
      obtain ⟨h₁, hs₁, hr₁⟩ := modifyData_spec (s := { s.touch with updates := emit s.touch.updates _ })
        hc.rep fun e => { e with content := .items (current.take position.index) }
      refine Sim.bind_left hs₁ ((pushItems_sim cap _ items hr₁).bind ?_)
      rintro ⟨q, s'⟩ r ⟨cells, h₂, rfl, hr₂, hd₂, hh⟩
      simp only [push_eq, ne_eq, reduceCtorEq, not_false_eq_true, emit_emit]
      refine (pushItems_sim (s := { s.touch with
        heap := h₂, chunkIdentifierGenerator := r.generator, updates := emit s.touch.updates _ })
        cap _ (current.drop position.index) hr₂).bind ?_
      rintro ⟨q', s'⟩ r' hx
      obtain ⟨l, hs, hrepr⟩ := hx.updateLast hc rfl hh (emit s'.updates [.endReattachItems])
      obtain ⟨cells', h₃, rfl, -⟩ := hx
      rw [hs]
      exact .ok ⟨rfl, by simpa [hd₂] using hrepr, by simp [hu]⟩

lemma insertGapBefore_sim (hc : Cells s (pre ++ (p, c) :: post)) (content : Gap) :
    Sim (fun s' y =>
        Repr s' ⟨dataOf pre ++ ⟨if dataOf pre = [] then c.lazyPrevious else none, y.1, .gap content⟩ ::
          (if dataOf pre = [] then { c with lazyPrevious := none } else c) :: dataOf post, y.2⟩ ∧
        s'.updates = emit s.updates [.newGapChunk
          ((lastId (dataOf pre)).or (if dataOf pre = [] then c.lazyPrevious else none)) y.1
          (some c.identifier) content])
      (s.insertGapBefore p ⟨lastPtr pre none, headPtr post none, c⟩ content)
      s.chunkIdentifierGenerator.next := by
  unfold insertGapBefore newGapLeaked newChunkLeaked
  cases s.chunkIdentifierGenerator.next with
  | error e => exact .error e
  | ok y =>
    obtain ⟨new, h₁, hs₁, hr₁⟩ := newLeaked_spec (s := { s with chunkIdentifierGenerator := y.2 })
      hc.rep y.1 (.gap content)
    obtain ⟨h₂, hs₂, hr₂⟩ := insertBefore_spec (s := { s with
      heap := h₁, chunkIdentifierGenerator := y.2 }) hr₁ rfl
    have hdata : (dataOf pre = []) = (pre = []) := by simp
    simp only [ok_bind, hs₁, hs₂, setFirstIf_eq, setLastIf_eq, isNone_lastPtr, isNone_headPtr, hdata]
    refine .ok ⟨⟨rfl, _, ⟨hr₂, ?_, .inr ⟨by simp, ?_⟩⟩, by simp⟩, rfl⟩
    · rw [hc.first]
      cases pre <;> simp
    · by_cases hone : pre = [] ∧ post = []
      · obtain ⟨rfl, rfl⟩ := hone
        simp
      · have hlen : 1 < (pre ++ (p, c) :: post).length := by
          by_contra hle
          simp only [length_append, length_cons] at hle
          exact hone ⟨length_eq_zero_iff.1 (by omega), length_eq_zero_iff.1 (by omega)⟩
        have hfalse : (decide (pre = []) && decide (post = [])) = false := by simpa using hone
        simp only [hfalse, Bool.false_eq_true, if_false, hc.last_eq hlen]
        simp

theorem insertGapAt_sim (h : Repr s a) (content : Gap) (position : Position) :
    Sim (OpRel s.updates) (s.insertGapAt cap content position) (a.insertGapAt cap content position) := by
  obtain ⟨-, -, -, -, -, -, hg, hu⟩ := firstChunkPtr_spec h
  unfold insertGapAt Chain.insertGapAt
  rcases chunk_spec h position.chunkIdentifier with ⟨hf, hs⟩ | ⟨pre, p, c, post, hf, hs, hc⟩
  · simp only [hs, hf, ok_bind]
    exact .ok (opRel_touch h _)
  simp only [hs, hf, ok_bind, hc.rep.cell, deref]
  cases hcc : c.content with
  | gap gap => exact .ok (opRel_touch h _)
  | items current =>
    simp only
    split
    · rw [← hg, ← hcc]
      refine (insertGapBefore_sim hc content).bind fun s' y hy => .ok ⟨rfl, hy.1, ?_⟩
      simp only [hy.2, hu, emit_emit]
      split <;> rfl
    split
    · exact .ok (opRel_touch h _)
    · rw [push_eq _ (by simp), ← hg]
      obtain ⟨h₁, hs₁, hr₁⟩ := modifyData_spec (s := { s.touch with updates := emit s.touch.updates _ })
        hc.rep fun e => { e with content := .items (current.take position.index) }
      refine Sim.bind_left hs₁ ((insertNextNew_sim hr₁ (.gap content)).bind ?_)
      rintro ⟨q, s'⟩ ⟨idGap, gen⟩ ⟨h₂, rfl, hr₂⟩
      have hr₂' : Rep h₂ ((pre ++ [(p, { c with content := .items (current.take position.index) })]) ++
        (q, ⟨none, idGap, .gap content⟩) :: post) [] := by simpa using hr₂
      simp only [push_eq, ne_eq, reduceCtorEq, not_false_eq_true, emit_emit]
      refine (insertNextNew_sim (s := { s.touch with
        heap := h₂, chunkIdentifierGenerator := gen, updates := emit s.touch.updates _ })
        hr₂' (.items [])).bind ?_
      rintro ⟨q₃, s'⟩ ⟨idItems, gen⟩ ⟨h₃, rfl, hr₃⟩
      have hr₃' : Rep h₃ ((pre ++ [(p, { c with content := .items (current.take position.index) }),
        (q, ⟨none, idGap, .gap content⟩)]) ++ (q₃, ⟨none, idItems, .items []⟩) :: post) [] := by
        simpa using hr₃
      simp only [emit_emit]
      refine (pushItems_sim (s := { s.touch with
        heap := h₃, chunkIdentifierGenerator := gen, updates := emit s.touch.updates _ })
        cap _ (current.drop position.index) hr₃').bind ?_
      rintro ⟨q', s'⟩ r' hx
      obtain ⟨l, hs, hrepr⟩ := hx.updateLast hc rfl rfl (emit s'.updates [.endReattachItems])
      obtain ⟨cells', h₄, rfl, -⟩ := hx
      rw [hs]
      exact .ok ⟨rfl, by simpa using hrepr, by simp [hu, newChunkUpdate]⟩

/-! ## Operations that remove or replace -/

/-- The chunk at `p` is out of the chain and its memory is freed; `links` leads past it, to the cells
`new` that stand in its place. -/
lemma cells_remove {new : List (Ptr × ChunkData Item Gap)} (hc : Cells s₀ (pre ++ (p, d) :: post))
    (hr : ∃ n, Rep s.heap (pre ++ new) [(p, n)]) (hne : pre ++ new ≠ [])
    (hfirst : s.links.first = if pre = [] then headPtr new none else s₀.links.first)
    (hlast : s.links.last = if post = [] then lastPtr (pre ++ new) none else s₀.links.last)
    (hpost : post ≠ [] → lastPtr new none = lastPtr post none ∧ new ≠ []) :
      Cells (s.free p) (pre ++ new) := by
  obtain ⟨n, hr⟩ := hr
  refine ⟨hr.free, ?_, .inr ⟨hne, ?_⟩⟩
  · show s.links.first = _
    rw [hfirst, hc.first]
    cases pre <;> simp
  · show s.links.last = _
    rw [hlast]
    split
    · rfl
    · next hp =>
      obtain ⟨hlast', hnew⟩ := hpost hp
      have hlen : 1 < (pre ++ (p, d) :: post).length := by
        have := length_pos_iff.2 hp
        simp only [length_append, length_cons]
        omega
      rw [hc.last_eq hlen, lastPtr_append, lastPtr_append, lastPtr, lastPtr_cons_ne hp _ none,
        lastPtr_cons_ne hnew _ none, hlast']

lemma cells_unlink (lazyPrevious : Option ChunkIdentifier) (hc : Cells s₀ (pre ++ (p, d) :: post))
    (hr : ∃ n, Rep s.heap (pre ++ passCells lazyPrevious post) [(p, n)]) (hne : pre ++ post ≠ [])
    (hfirst : s.links.first = if pre = [] then headPtr post none else s₀.links.first)
    (hlast : s.links.last = if post = [] then lastPtr pre none else s₀.links.last) :
    Cells (s.free p) (pre ++ passCells lazyPrevious post) := by
  have hnil : passCells lazyPrevious post = [] ↔ post = [] := by cases post <;> simp [passCells]
  refine cells_remove hc hr ?_ (by simpa using hfirst) ?_ fun hp => ⟨by simp, fun h => hp (hnil.1 h)⟩
  · intro h
    obtain ⟨rfl, h⟩ := append_eq_nil_iff.1 h
    exact hne (by simpa using hnil.1 h)
  · rw [hlast]
    split
    · next hp => simp [hp]
    · rfl

theorem removeItemAt_sim (h : Repr s a) (position : Position) :
    Sim (OpRel s.updates) (s.removeItemAt position) (.ok (a.removeItemAt position)) := by
  obtain ⟨-, -, -, -, -, -, hg, hu⟩ := firstChunkPtr_spec h
  unfold removeItemAt Chain.removeItemAt
  rcases chunk_spec h position.chunkIdentifier with ⟨hf, hs⟩ | ⟨pre, p, c, post, hf, hs, hc⟩
  · simp only [hs, hf, ok_bind]
    exact .ok (opRel_touch h _)
  simp only [hs, hf, ok_bind, hc.rep.cell, deref]
  cases hcc : c.content with
  | gap gap => exact .ok (opRel_touch h _)
  | items current =>
    simp only
    cases hitem : current[position.index]? with
    | none => exact .ok (opRel_touch h _)
    | some removedItem =>
      obtain ⟨h₁, hs₁, hr₁⟩ := modifyData_spec hc.rep fun e =>
        { e with content := .items (current.eraseIdx position.index) }
      refine Sim.bind_left hs₁ ?_
      rw [push_eq _ (by simp)]
      simp only
      have hcond : ((current.eraseIdx position.index).isEmpty ∧ (lastPtr pre none).isSome) ↔
          ((current.eraseIdx position.index).isEmpty ∧ dataOf pre ≠ []) := by
        rcases eq_nil_or_concat' pre with rfl | ⟨pre, x, rfl⟩ <;> simp
      by_cases hempty : (current.eraseIdx position.index).isEmpty ∧ dataOf pre ≠ []
      · have hpre : pre ≠ [] := by simpa using hempty.2
        rw [if_pos (hcond.2 hempty), if_pos hempty]
        obtain ⟨h₂, hs₂, hr₂⟩ := unlink_spec (s := { s.touch with
          heap := h₁, updates := emit s.touch.updates _ }) hr₁
        refine Sim.bind_left hs₂ ?_
        simp only [hr₂.loose _ (mem_singleton_self _), ok_bind, setLastIf_eq, isNone_headPtr]
        refine .ok ⟨rfl, ⟨hg, _, cells_unlink c.lazyPrevious hc ⟨_, hr₂⟩ (by simp [hpre]) ?_ ?_, by simp⟩,
          by simp [free, hu]⟩
        · simp [hpre]
        · simp
      · rw [if_neg (fun hh => hempty (hcond.1 hh)), if_neg hempty]
        refine .ok ⟨rfl, ⟨hg, _, ⟨hr₁, ?_, ?_⟩, by simp⟩, by simp [hu]⟩
        · simpa using hc.first
        · simpa using hc.last

theorem replaceItemAt_sim (h : Repr s a) (position : Position) (item : Item) :
    Sim (OpRel s.updates) (s.replaceItemAt position item) (.ok (a.replaceItemAt position item)) := by
  obtain ⟨-, -, -, -, -, -, hg, hu⟩ := firstChunkPtr_spec h
  unfold replaceItemAt Chain.replaceItemAt
  rcases chunk_spec h position.chunkIdentifier with ⟨hf, hs⟩ | ⟨pre, p, c, post, hf, hs, hc⟩
  · simp only [hs, hf, ok_bind]
    exact .ok (opRel_touch h _)
  simp only [hs, hf, ok_bind, hc.rep.cell, deref]
  cases hcc : c.content with
  | gap gap => exact .ok (opRel_touch h _)
  | items current =>
    simp only
    split
    · exact .ok (opRel_touch h _)
    · rw [push_eq _ (by simp)]
      obtain ⟨h₁, hs₁, hr₁⟩ := modifyData_spec (s := { s.touch with updates := emit s.touch.updates _ })
        hc.rep fun e => { e with content := .items (current.set position.index item) }
      refine Sim.bind_left hs₁ (.ok ⟨rfl, ⟨hg, _, ⟨hr₁, ?_, ?_⟩, by simp⟩, by simp [hu]⟩)
      · simpa using hc.first
      · simpa using hc.last

theorem removeEmptyChunkAt_sim (h : Repr s a) (chunkIdentifier : ChunkIdentifier) :
    Sim (OpRel s.updates) (s.removeEmptyChunkAt chunkIdentifier)
    (.ok (a.removeEmptyChunkAt chunkIdentifier)) := by
  obtain ⟨p₀, d₀, post₀, hp₀, hc₀, hd₀, hg, hu⟩ := firstChunkPtr_spec h
  have hcell₀ := hc₀.rep.seg.1
  have hlen : ((headPtr post₀ none).isNone = true) ↔ a.touch.1.chunks.length ≤ 1 := by
    rw [← hd₀]
    cases post₀ <;> simp
  unfold removeEmptyChunkAt Chain.removeEmptyChunkAt
  simp only [hp₀, hcell₀, deref, ok_bind, hlen]
  split
  · exact .ok (opRel_touch h _)
  · next hmany =>
    have hlookup := chunk_spec h.touch chunkIdentifier
    rw [touch_touch h, Chain.touch_touch] at hlookup
    rcases hlookup with ⟨hf, hs⟩ | ⟨pre, p, c, post, hf, hs, hc⟩
    · simp only [hs, hf, ok_bind]
      exact .ok (opRel_touch h _)
    simp only [hs, hf, ok_bind, hc.rep.cell]
    split
    · exact .ok (opRel_touch h _)
    have hr' : Rep s.touch.heap ((pre ++ [(p, c)]) ++ post) [] := by simpa using hc.rep
    obtain ⟨h₁, hs₁, hr₁⟩ := unlink_spec hc.rep
    simp only [identifierAt_head hr', ok_bind, hs₁]
    have hne : pre ++ post ≠ [] := by
      intro hnil
      rw [(findSplit_some hf).1] at hmany
      obtain ⟨rfl, rfl⟩ := append_eq_nil_iff.1 hnil
      simp at hmany
    have hsome : (headPtr post none).isSome = !decide (post = []) := by cases post <;> simp
    simp only [setFirstIf_eq, setLastIf_eq, isNone_lastPtr, isNone_headPtr, hsome]
    refine .ok ⟨rfl, ⟨hg, _, cells_unlink c.lazyPrevious hc ⟨_, hr₁⟩ hne ?_ ?_, by simp⟩, by simp [free, hu]⟩
    · by_cases hpre : pre = []
      · have hpost : post ≠ [] := fun hp => hne (by simp [hpre, hp])
        simp [hpre, hpost]
      · simp [hpre]
    · simp

theorem replaceGapAt_sim (h : Repr s a) (items : List Item) (chunkIdentifier : ChunkIdentifier) :
    Sim (OpRel s.updates) (s.replaceGapAt cap items chunkIdentifier)
    (a.replaceGapAt cap items chunkIdentifier) := by
  obtain ⟨-, -, -, -, -, -, hg, hu⟩ := firstChunkPtr_spec h
  unfold replaceGapAt Chain.replaceGapAt
  rcases chunk_spec h chunkIdentifier with ⟨hf, hs⟩ | ⟨pre, p, c, post, hf, hs, hc⟩
  · simp only [hs, hf, ok_bind]
    exact .ok (opRel_touch h _)
  simp only [hs, hf, ok_bind, hc.rep.cell, deref]
  cases hcc : c.content with
  | items current => exact .ok (opRel_touch h _)
  | gap gap =>
    rw [← hg]
    refine (insertNextNew_sim hc.rep (.items [])).bind ?_
    rintro ⟨new, s'⟩ ⟨id, gen⟩ ⟨h₁, rfl, hr₁⟩
    have hr₁' : Rep h₁ ((pre ++ [(p, c)]) ++ (new, ⟨none, id, .items []⟩) :: post) [] := by
      simpa using hr₁
    refine (pushItems_sim (s := { s.touch with
      heap := h₁, chunkIdentifierGenerator := gen, updates := emit s.touch.updates _ })
      cap _ items hr₁').bind ?_
    rintro ⟨q, s'⟩ r ⟨cells, h₂, rfl, hr₂, hd₂, hh⟩
    have hr₂' : Rep h₂ (pre ++ (p, c) :: (cells ++ (q, r.last) :: post)) [] := by simpa using hr₂
    have hnext : headPtr (cells ++ (q, r.last) :: post) none = some new := by simpa using hh
    obtain ⟨h₃, hs₃, hr₃⟩ := unlink_spec (s := { s.touch with
      heap := h₂
      chunkIdentifierGenerator := r.generator
      updates := emit s.touch.updates
        ([newChunkUpdate (some c.identifier) id (headId (dataOf post)) (.items [])] ++ r.updates) }) hr₂'
    simp only [emit_emit, hr₂.cell, hr₂'.cell, ok_bind, hnext, hs₃]
    -- the chunk at `new` is the first of the chunks that replace the gap
    obtain ⟨f, rest, hcells⟩ : ∃ f rest, cells ++ (q, r.last) :: post = (new, f) :: rest := by
      cases hcs : cells ++ (q, r.last) :: post with
      | nil => simp at hcs
      | cons x rest =>
        rw [hcs] at hnext
        exact ⟨x.2, rest, by rw [← Option.some.inj hnext]⟩
    have hfirst : r.chunks.headD r.last = f := by
      have hdata : r.chunks ++ dataOf post = f :: dataOf rest := by
        have := congrArg dataOf hcells
        simpa [Pushed.chunks, ← hd₂] using this
      cases hch : r.chunks with
      | nil => simp [Pushed.chunks] at hch
      | cons x xs =>
        rw [hch] at hdata
        exact (List.cons.inj hdata).1
    have hcell : (h₃.free p).cells new = some
        ⟨lastPtr pre none, headPtr rest none, { f with lazyPrevious := c.lazyPrevious }⟩ := by
      have hfree := hr₃.free
      rw [hcells] at hfree
      exact Rep.cell hfree
    simp only [setFirstIf_eq, setLastIf_eq, isNone_lastPtr, isNone_headPtr, free, hcell, ok_bind, hfirst]
    refine .ok ⟨rfl, ⟨rfl, pre ++ passCells c.lazyPrevious (cells ++ (q, r.last) :: post), ?_, ?_⟩, ?_⟩
    · refine cells_remove (s := ⟨_, r.generator, _, h₃⟩) hc ⟨_, hr₃⟩ ?_ ?_ ?_ ?_
      · simp [hcells, passCells]
      · simp [hnext]
      · by_cases hpost : post = [] <;> simp [hpost]
      · intro hpost
        exact ⟨by simp [lastPtr_cons_ne hpost (some q) none], by simp [hcells, passCells]⟩
    · simp [Pushed.chunks, hd₂]
    · simp [hu, newChunkUpdate]

/-! ## `clear`, and the lazy loader -/

lemma Cells.latest (hc : Cells s cs) : s.links.last.or s.links.first = lastPtr cs none := by
  rw [hc.first]
  rcases hc.last with ⟨hnone, hlen⟩ | ⟨hne, hlast⟩
  · rw [hnone]
    match cs, hlen with
    | [], _ => rfl
    | [x], _ => rfl
  · rw [hlast, lastPtr_eq]
    obtain ⟨cs, x, rfl⟩ := (eq_nil_or_concat' cs).resolve_left hne
    simp

lemma clearLinks_spec {ls : List (Ptr × Node (ChunkData Item Gap))} (hr : Rep s.heap cs ls)
    (hl : s.links.last.or s.links.first = lastPtr cs none) :
    ∃ h, s.clearLinks = .ok { s with heap := h, links := ⟨none, none⟩ } ∧ Rep h [] ls := by
  refine ⟨_, ?_, hr.freeAll (nodes none cs none).reverse ?_⟩
  · simp only [clearLinks, hl, walkPrevious_seg hr.seg hr.length_le, deref, ok_bind]
  · intro q
    rw [map_reverse, mem_reverse, map_fst_nodes]

lemma pushClear_eq : s.pushClear = { s with updates := emit s.updates [.clear] } := rfl

theorem clear_sim (h : Repr s a) :
    Sim (fun x y => OpRel s.updates ((), x) ((), y)) s.clear (.ok a.clear) := by
  obtain ⟨hg, cs, hc, hd⟩ := h
  obtain ⟨h', hs, hr⟩ := clearLinks_spec hc.rep hc.latest
  simp only [clear, hs, ok_bind, pushClear_eq]
  exact .ok ⟨rfl, ⟨rfl, [], ⟨hr, rfl, .inl ⟨rfl, by simp⟩⟩, rfl⟩, rfl⟩

/-- **`chunks()` and `rchunks()`** give the chain, forwards and backwards. -/
lemma chunks_spec (h : Repr s a) :
    ∃ cs, Cells s.touch cs ∧ dataOf cs = a.touch.1.chunks ∧
      s.chunks = .ok (nodes none cs none, s.touch) ∧
      s.rchunks = .ok ((nodes none cs none).reverse, s.touch) := by
  obtain ⟨p, d, post, hp, hc, hd, -⟩ := firstChunkPtr_spec h
  obtain ⟨pre, q, e, hq, hc', hd'⟩ := latestChunk_spec h
  refine ⟨(p, d) :: post, hc, hd, ?_, ?_⟩
  · have := walkNext_seg hc.rep.seg hc.rep.length_le
    rw [headPtr_cons] at this
    simp only [chunks, hp, this, deref, ok_bind]
  · have hlast : some q = lastPtr ((p, d) :: post) none := by
      have h₁ := hc.latest
      rw [hc'.latest] at h₁
      simpa using h₁
    have := walkPrevious_seg hc.rep.seg hc.rep.length_le
    rw [← hlast] at this
    simp only [rchunks, hq, this, deref, ok_bind]

lemma findCycle_spec (h : Repr s a) (previous : Option ChunkIdentifier) :
    ∃ t, s.findCycle previous =
        .ok (previous.filter fun p => a.touch.1.chunks.any fun c => c.identifier == p, t) ∧
      t.firstChunkPtr = s.firstChunkPtr ∧ (previous.isSome → t = s.touch) := by
  cases previous with
  | none => exact ⟨s, rfl, rfl, by simp⟩
  | some p =>
    obtain ⟨cs, -, hd, hs, -⟩ := chunks_spec h
    have hany : ((nodes none cs none).any fun c => c.2.data.identifier == p) =
        a.touch.1.chunks.any fun c => c.identifier == p := by
      rw [← hd, dataOf, ← map_data_nodes none none cs, any_map]
      rfl
    refine ⟨s.touch, ?_, firstChunkPtr_touch h, fun _ => rfl⟩
    simp only [findCycle, hs, ok_bind, hany]
    rfl

lemma emitNewFirstChunkUpdates_spec (hr : Rep s.heap ((p, c) :: post) []) :
    s.emitNewFirstChunkUpdates p = .ok { s with
      updates := emit s.updates (Chain.newFirstChunkUpdates c (headId (dataOf post))) } := by
  have hr' : Rep s.heap ([(p, c)] ++ post) [] := hr
  have hcell : s.heap.cells p = some ⟨none, headPtr post none, c⟩ := hr.seg.1
  have hprev : s.identifierAt none = .ok none := rfl
  simp only [emitNewFirstChunkUpdates, hcell, deref, ok_bind, identifierAt_head hr', hprev, Option.none_or]
  rw [push_eq _ (by cases c.content <;> simp [newChunkUpdate])]
  cases hcc : c.content with
  | gap gap => simp [Chain.newFirstChunkUpdates, hcc, newChunkUpdate]
  | items items =>
    simp only
    rw [push_eq _ (by simp)]
    simp [Chain.newFirstChunkUpdates, hcc, newChunkUpdate]

theorem insertNewFirstChunk_sim (h : Repr s a) (chunk : RawChunk Item Gap) :
    Sim (OpRel s.updates) (s.insertNewFirstChunk cap chunk) (.ok (a.insertNewFirstChunk cap chunk)) := by
  obtain ⟨p, d, post, hp, hc, hd, hg, hu⟩ := firstChunkPtr_spec h
  obtain ⟨t, hcycle, ht, ht'⟩ := findCycle_spec h chunk.previous
  unfold insertNewFirstChunk Chain.insertNewFirstChunk
  split
  · exact .ok ⟨rfl, h, by simp⟩
  simp only [hcycle, ok_bind]
  cases hfilter : chunk.previous.filter fun p => a.touch.1.chunks.any fun c => c.identifier == p with
  | some previousChunk =>
    obtain rfl : t = s.touch := ht' (by
      rw [(Option.filter_eq_some_iff.1 hfilter).1]
      rfl)
    exact .ok (opRel_touch h _)
  | none =>
    have hcell : s.touch.heap.cells p = some ⟨none, headPtr post none, d⟩ := hc.rep.seg.1
    simp only [ht, hp, hcell, deref, ok_bind, ← hd]
    cases chunk.next with
    | none => exact .ok (opRel_touch h _)
    | some nextChunk =>
      simp only
      split
      · exact .ok (opRel_touch h _)
      split
      · exact .ok (opRel_touch h _)
      obtain ⟨new, h₁, hs₁, hr₁⟩ := newLeaked_spec hc.rep chunk.identifier chunk.content
      have hr₁' : Rep h₁ ([] ++ (p, d) :: post) _ := hr₁
      obtain ⟨h₂, hs₂, hr₂⟩ := modifyData_spec (s := { s.touch with heap := h₁ }) hr₁' fun e =>
        { e with lazyPrevious := none }
      obtain ⟨h₃, hs₃, hr₃⟩ := modifyData_loose (s := { s.touch with heap := h₂ }) hr₂ fun e =>
        { e with lazyPrevious := chunk.previous }
      obtain ⟨h₄, hs₄, hr₄⟩ := hr₃.linkBefore
      -- the loader links the new chunk by hand, with the two writes that `linkBefore` makes
      obtain ⟨h₅, hs₅, hs₆⟩ : ∃ h₅, h₃.modify p (fun c => { c with previous := some new }) = some h₅ ∧
          h₅.modify new (fun c => { c with next := some p }) = some h₄ := by
        simpa only [linkBefore, hr₃.cell, lastPtr, Option.bind_eq_bind, Option.bind_some,
          Option.bind_eq_some_iff] using hs₄
      simp only [hs₁, setLazyPrevious, hs₂, hs₃, hs₅, hs₆, ok_bind, setLastIf_eq, setFirst,
        Option.isSome_none, Bool.false_eq_true, if_false]
      refine Sim.bind_left (emitNewFirstChunkUpdates_spec (s := ⟨_, _, _, h₄⟩) hr₄)
        (.ok ⟨rfl, ⟨hg, _, ⟨hr₄, rfl, .inr ⟨by simp, ?_⟩⟩, ?_⟩, ?_⟩)
      · rcases hc.last with ⟨hnone, hlen⟩ | ⟨-, hlast⟩
        · obtain rfl : post = [] := by simpa using hlen
          simp [hnone]
        · have hsome : s.touch.links.last.isNone = false := by
            rw [hlast]
            cases hl : lastPtr ((p, d) :: post) none with
            | none => exact absurd (lastPtr_eq_none hl) (by simp)
            | some q => rfl
          simp only [hsome, Bool.false_eq_true, if_false]
          exact hlast
      · simp
      · simp [hu, headId]

theorem replaceWith_sim (h : Repr s a) (chunk : Option (RawChunk Item Gap))
    (generator : ChunkIdentifierGenerator) :
    Sim (OpRel s.updates) (s.replaceWith cap chunk generator) (.ok (a.replaceWith cap chunk generator)) := by
  cases chunk with
  | none =>
    obtain ⟨x, hx, hrel⟩ := (clear_sim h).of_ok_right
    exact Sim.bind_left hx (.ok ⟨rfl, hrel.2⟩)
  | some chunk =>
    unfold replaceWith Chain.replaceWith
    simp only
    split
    · exact .ok ⟨rfl, h, by simp⟩
    split
    · exact .ok ⟨rfl, h, by simp⟩
    obtain ⟨-, cs, hc, -⟩ := h
    obtain ⟨new, h₁, hs₁, hr₁⟩ := newLeaked_spec (s := { s with chunkIdentifierGenerator := generator })
      hc.rep chunk.identifier chunk.content
    obtain ⟨h₂, hs₂, hr₂⟩ := modifyData_loose (s := { s with
      chunkIdentifierGenerator := generator, heap := h₁ }) hr₁ fun e =>
      { e with lazyPrevious := chunk.previous }
    obtain ⟨h₃, hs₃, hr₃⟩ := clearLinks_spec (s := { s with
      chunkIdentifierGenerator := generator, heap := h₂ }) hr₂ hc.latest
    simp only [hs₁, setLazyPrevious, hs₂, hs₃, ok_bind, setFirst, pushClear_eq]
    refine Sim.bind_left (emitNewFirstChunkUpdates_spec (s := ⟨_, _, _, h₃⟩) hr₃.single)
      (.ok ⟨rfl, ⟨rfl, _, ⟨hr₃.single, rfl, .inl ⟨rfl, by simp⟩⟩, rfl⟩, ?_⟩)
    simp [headId]

/-! ## Runs -/

lemma OpRel.outcome {ε α : Type} {updates} {x : Except ε α × LinkedChunk Item Gap}
    {y : Emits Item Gap (Except ε α)} (h : OpRel updates x y) (f : ε → OpError)
    (g : α → Outcome Item Gap) : OpRel updates (LinkedChunk.outcome f g x) (Chain.outcome f g y) :=
  ⟨by rw [LinkedChunk.outcome, Chain.outcome, h.1], h.2⟩

/-- **One operation of the linked chunk is one operation of the chain.** -/
theorem step_sim (h : Repr s a) (op : Op Item Gap) :
    Sim (OpRel s.updates) (s.step cap op) (a.step cap op) := by
  cases op with
  | pushItemsBack items => exact (pushItemsBack_sim h items).map fun x y hxy => ⟨rfl, hxy.2⟩
  | pushGapBack content => exact (pushGapBack_sim h content).map fun x y hxy => ⟨rfl, hxy.2⟩
  | insertItemsAt position items => exact (insertItemsAt_sim h position items).map fun x y hxy => hxy.outcome _ _
  | removeItemAt position => exact (removeItemAt_sim h position).map fun x y hxy => hxy.outcome _ _
  | replaceItemAt position item => exact (replaceItemAt_sim h position item).map fun x y hxy => hxy.outcome _ _
  | insertGapAt content position => exact (insertGapAt_sim h content position).map fun x y hxy => hxy.outcome _ _
  | removeEmptyChunkAt id => exact (removeEmptyChunkAt_sim h id).map fun x y hxy => hxy.outcome _ _
  | replaceGapAt items id => exact (replaceGapAt_sim h items id).map fun x y hxy => hxy.outcome _ _
  | clear => exact (clear_sim h).map fun x y hxy => ⟨rfl, hxy.2⟩
  | observe => exact .ok (opRel_touch h _)
  | insertNewFirstChunk chunk => exact (insertNewFirstChunk_sim h chunk).map fun x y hxy => hxy.outcome _ _
  | replaceWith chunk generator => exact (replaceWith_sim h chunk generator).map fun x y hxy => hxy.outcome _ _

end LinkedChunk

end HaranaMatrix.Linked
