import HaranaMatrix.Linked.Reader
import HaranaMatrix.Linked.Sequence
import HaranaMatrix.Linked.VectorDiff

/-!
# The order of items under lazy loading

`OrderTracker` (`linked_chunk/order_tracker.rs`) is told of all stored chunks, while only the last of
them may be in memory. It then follows the edits of those in memory, and not what the lazy loader does.
-/

namespace HaranaMatrix.Linked

open List

variable {Item Gap : Type}

/-- `OrderTracker`. The updates are those of the linked chunk, which it shares. -/
structure OrderTracker where
  token : ℕ
  mapper : UpdateToVectorDiff

namespace LinkedChunk

variable (s : LinkedChunk Item Gap)

def chunkMetadata (c : Chunk Item Gap) : Except Fault ChunkMetadata := do
  let previous ← s.identifierAt c.previous
  let next ← s.identifierAt c.next
  .ok ⟨c.data.content.numItems, previous, c.data.identifier, next⟩

/-- `all_chunks`, or the chunks in memory when there is none. -/
def allChunksMetadata :
    Option (List ChunkMetadata) → Except Fault (List ChunkMetadata × LinkedChunk Item Gap)
  | some metas => .ok (metas, s)
  | none => do
    let (chunks, s) ← s.chunks
    let metas ← chunks.mapM fun c => s.chunkMetadata c.2
    .ok (metas, s)

/-- `LinkedChunk::order_tracker`. The updates that are buffered are drained. -/
def orderTracker (allChunks : Option (List ChunkMetadata)) :
    Except Fault (Option OrderTracker × LinkedChunk Item Gap) :=
  match s.updates with
  | none => .ok (none, s)
  | some inner => do
    let (token, inner) := inner.newReaderToken
    let (metas, s) ← { s with updates := some inner }.allChunksMetadata allChunks
    let (_, s) ← s.takeUpdates token
    .ok (some ⟨token, .fromMetadata metas⟩, s)

end LinkedChunk

namespace OrderTracker

/-- `flush_updates`: with `inhibit`, the updates are ignored. -/
def flushUpdates (tracker : OrderTracker) (s : LinkedChunk Item Gap) (inhibit : Bool) :
    Except Fault (OrderTracker × LinkedChunk Item Gap) := do
  let (updates, s) ← s.takeUpdates tracker.token
  if inhibit then .ok (tracker, s)
  else do
    let (_, _, mapper) ← tracker.mapper.map updates
    .ok ({ tracker with mapper := mapper }, s)

/-- The loop of `ordering`. -/
def orderingFrom (position : Position) : ℕ → List (ChunkIdentifier × ℕ) → Option ℕ
  | _, [] => none
  | ordering, (identifier, length) :: chunks =>
    if identifier = position.chunkIdentifier then
      if length ≤ position.index then none else some (ordering + position.index)
    else orderingFrom position (ordering + length) chunks

/-- `OrderTracker::ordering`, with its `debug_assert!` that all updates are flushed. -/
def ordering (tracker : OrderTracker) (s : LinkedChunk Item Gap) (position : Position) :
    Except Fault (Option ℕ) :=
  match s.updates.bind fun inner => inner.isReaderUpToDate tracker.token with
  | some true => .ok (orderingFrom position 0 tracker.mapper.chunks)
  | _ => .error .assertion

end OrderTracker

open OrderTracker

/-! ## The index of a position -/

lemma lengths_rawChunks (previous : Option ChunkIdentifier) (F : List (PlainChunk Item Gap)) :
    (rawChunks previous F).map (fun r => (r.identifier, r.content.numItems)) = lengths F := by
  induction F generalizing previous with
  | nil => rfl
  | cons c F ih => simp [rawChunks, ih]

variable {cs : List (PlainChunk Item Gap)} {chunk : RawChunk Item Gap} {c : PlainChunk Item Gap}

lemma eq_of_mem_rawChunks {pre post : List (PlainChunk Item Gap)}
    {previous : Option ChunkIdentifier} (hn : (ids (pre ++ c :: post)).Nodup)
    (h : chunk ∈ rawChunks previous (pre ++ c :: post)) (hid : chunk.identifier = c.identifier) :
    chunk = ⟨c.content, (ids pre).getLast?.or previous, c.identifier, (ids post).head?⟩ := by
  induction pre generalizing previous with
  | nil =>
    rcases mem_cons.1 h with rfl | h
    · rfl
    · have := (mem_rawChunks h).1
      rw [hid] at this
      exact absurd this (nodup_cons.1 hn).1
  | cons d pre ih =>
    rw [cons_append, ids_cons, nodup_cons] at hn
    rcases mem_cons.1 h with rfl | h
    · simp only at hid
      simp [hid] at hn
    · rw [ih hn.2 h, ids_cons, List.getLast?_cons]
      cases (ids pre).getLast? <;> rfl

/-- The index of a position in the flat list of all items. -/
def indexOf (cs : List (PlainChunk Item Gap)) (position : Position) : Option ℕ :=
  (positioned cs).findIdx? fun x => x.1 == position

section IndexOf

variable (id : ChunkIdentifier) (xs : List Item) (position : Position)

lemma findIdx_zipIdx (k i : ℕ) :
    ((xs.zipIdx k).map fun x => ((⟨id, x.2⟩ : Position), x.1)).findIdx? (fun x => x.1 == ⟨id, k + i⟩) =
      if i < xs.length then some i else none := by
  induction xs generalizing k i with
  | nil => simp
  | cons x xs ih =>
    rw [zipIdx_cons, map_cons, List.findIdx?_cons]
    cases i with
    | zero => simp
    | succ i =>
      have hne : ((⟨id, k⟩ : Position) == ⟨id, k + (i + 1)⟩) = false := by simp
      have hk : k + (i + 1) = k + 1 + i := by omega
      split <;> simp_all

lemma findIdx_other (h : id ≠ position.chunkIdentifier) :
    (xs.zipIdx.map fun x => ((⟨id, x.2⟩ : Position), x.1)).findIdx? (fun x => x.1 == position) = none := by
  rw [List.findIdx?_eq_none_iff]
  intro x hx
  obtain ⟨y, -, rfl⟩ := mem_map.1 hx
  simp only [beq_eq_false_iff_ne, ne_eq]
  rintro rfl
  exact h rfl

variable {position}

lemma indexOf_none (h : position.chunkIdentifier ∉ ids cs) : indexOf cs position = none := by
  rw [indexOf, List.findIdx?_eq_none_iff]
  intro x hx
  obtain ⟨c, hc, hx⟩ := mem_flatMap.1 hx
  obtain ⟨y, -, rfl⟩ := mem_map.1 hx
  simp only [beq_eq_false_iff_ne, ne_eq]
  rintro rfl
  exact h (mem_map_of_mem hc)

lemma indexOf_cons (c : PlainChunk Item Gap) (cs : List (PlainChunk Item Gap)) :
    indexOf (c :: cs) position =
      ((c.content.toItems.zipIdx.map fun x => ((⟨c.identifier, x.2⟩ : Position), x.1)).findIdx?
        fun x => x.1 == position).or ((indexOf cs position).map (· + c.content.numItems)) := by
  simp [indexOf, positioned]

/-- **`ordering` computes the index of a position.** -/
lemma orderingFrom_lengths (hn : (ids cs).Nodup) (n : ℕ) :
    orderingFrom position n (lengths cs) = (indexOf cs position).map (n + ·) := by
  induction cs generalizing n with
  | nil => rfl
  | cons c cs ih =>
    rw [ids_cons, nodup_cons] at hn
    rw [lengths_cons, orderingFrom, indexOf_cons]
    by_cases hid : c.identifier = position.chunkIdentifier
    · have hfind := findIdx_zipIdx c.identifier c.content.toItems 0 position.index
      rw [hid, Nat.zero_add, ChunkContent.length_toItems] at hfind
      rw [if_pos hid, indexOf_none (hid ▸ hn.1), hid, hfind]
      split <;> split <;> first | rfl | omega
    · rw [if_neg hid, findIdx_other _ _ _ hid, Option.none_or, ih hn.2]
      cases indexOf cs position with
      | none => rfl
      | some i =>
        simp only [Option.map_some, Option.some.injEq]
        omega

lemma indexOf_eq_some (hn : (ids cs).Nodup) {i : ℕ} {item : Item}
    (h : (positioned cs)[i]? = some (position, item)) : indexOf cs position = some i := by
  cases hj : indexOf cs position with
  | none =>
    have := List.findIdx?_eq_none_iff.1 hj _ (mem_of_getElem? h)
    simp at this
  | some j =>
    obtain ⟨hjlt, hp, -⟩ := List.findIdx?_eq_some_iff_getElem.1 hj
    have hfst : ((positioned cs).map Prod.fst)[j]? = ((positioned cs).map Prod.fst)[i]? := by
      rw [List.getElem?_map, List.getElem?_map, h, List.getElem?_eq_getElem hjlt]
      simpa using hp
    rw [(List.getElem?_inj (by simpa using hjlt) (nodup_positioned hn)).1 hfst]

lemma indexOf_eq_none (h : ∀ item, (position, item) ∉ positioned cs) : indexOf cs position = none := by
  rw [indexOf, List.findIdx?_eq_none_iff]
  rintro ⟨p, item⟩ hx
  simp only [beq_eq_false_iff_ne, ne_eq]
  rintro rfl
  exact h item hx

end IndexOf

/-! ## Edits, lazy loads and shrinks -/

namespace LinkedChunk

/-- A linked chunk that is stored in full, of which the chunks `unloaded` are not in memory, and its
tracker. The stored chunks are `unloaded` and then those in memory: an edit of the latter is
mirrored in the store, and the lazy loader only moves the border. -/
inductive Tracked (cap : ℕ) :
    List (PlainChunk Item Gap) → LinkedChunk Item Gap → OrderTracker → Prop
  /-- loaded from the last stored chunk `c`, with a tracker that knows all stored chunks -/
  | fromLastChunk {unloaded : List (PlainChunk Item Gap)} {c : PlainChunk Item Gap}
      {generator : ChunkIdentifierGenerator} {chunk : RawChunk Item Gap} {metas : List ChunkMetadata}
      {s s' : LinkedChunk Item Gap} {tracker : OrderTracker}
      (hn : (ids (unloaded ++ [c])).Nodup)
      (hle : ∀ i ∈ ids (unloaded ++ [c]), i.index ≤ generator.value)
      (hchunk : chunk ∈ rawChunks none (unloaded ++ [c])) (hid : chunk.identifier = c.identifier)
      (hmetas : metas = (rawChunks none (unloaded ++ [c])).map fun r =>
        ⟨r.content.numItems, r.previous, r.identifier, r.next⟩)
      (hs : LinkedChunk.fromLastChunk cap (some chunk) generator = .ok (some s))
      (ht : s.orderTracker (some metas) = .ok (some tracker, s')) : Tracked cap unloaded s' tracker
  | edit {unloaded : List (PlainChunk Item Gap)} {s s' s'' : LinkedChunk Item Gap}
      {tracker tracker' : OrderTracker} {op : Op Item Gap} {r : Except OpError (Outcome Item Gap)}
      (h : Tracked cap unloaded s tracker) (hop : op.IsEdit) (hs : s.step cap op = .ok (r, s'))
      (hf : tracker.flushUpdates s' false = .ok (tracker', s'')) : Tracked cap unloaded s'' tracker'
  /-- the store is cleared as well -/
  | clear {unloaded : List (PlainChunk Item Gap)} {s s' s'' : LinkedChunk Item Gap}
      {tracker tracker' : OrderTracker} {r : Except OpError (Outcome Item Gap)}
      (h : Tracked cap unloaded s tracker) (hs : s.step cap .clear = .ok (r, s'))
      (hf : tracker.flushUpdates s' false = .ok (tracker', s'')) : Tracked cap [] s'' tracker'
  /-- another reader of the updates, such as the one that feeds the store -/
  | other {unloaded : List (PlainChunk Item Gap)} {s : LinkedChunk Item Gap} {tracker : OrderTracker}
      {inner inner' : UpdatesInner (Update Item Gap)} {e : UpdatesInner.Event (Update Item Gap)}
      {log : List (ℕ × List (Update Item Gap))} (h : Tracked cap unloaded s tracker)
      (hu : s.updates = some inner) (he : e.IsRead) (hother : ¬ e.Concerns tracker.token)
      (hs : inner.step e = some (inner', log)) :
      Tracked cap unloaded { s with updates := some inner' } tracker
  /-- the stored chunk before those in memory is loaded -/
  | load {unloaded rest : List (PlainChunk Item Gap)} {c : PlainChunk Item Gap}
      {chunk : RawChunk Item Gap} {s s' s'' : LinkedChunk Item Gap} {tracker tracker' : OrderTracker}
      {r : Except OpError (Outcome Item Gap)} (h : Tracked cap (unloaded ++ [c]) s tracker)
      (hloaded : s.loaded = .ok rest) (hchunk : chunk ∈ rawChunks none (unloaded ++ c :: rest))
      (hid : chunk.identifier = c.identifier) (hs : s.step cap (.insertNewFirstChunk chunk) = .ok (r, s'))
      (hf : tracker.flushUpdates s' true = .ok (tracker', s'')) :
      Tracked cap (if r.isOk then unloaded else unloaded ++ [c]) s'' tracker'
  /-- only the last stored chunk is kept in memory -/
  | shrink {unloaded before rest : List (PlainChunk Item Gap)} {c : PlainChunk Item Gap}
      {chunk : RawChunk Item Gap} {generator : ChunkIdentifierGenerator} {s s' s'' : LinkedChunk Item Gap}
      {tracker tracker' : OrderTracker} {r : Except OpError (Outcome Item Gap)}
      (h : Tracked cap unloaded s tracker) (hloaded : s.loaded = .ok rest)
      (hstored : unloaded ++ rest = before ++ [c]) (hchunk : chunk ∈ rawChunks none (unloaded ++ rest))
      (hid : chunk.identifier = c.identifier)
      (hle : ∀ i ∈ ids (unloaded ++ rest), i.index ≤ generator.value)
      (hs : s.step cap (.replaceWith (some chunk) generator) = .ok (r, s'))
      (hf : tracker.flushUpdates s' true = .ok (tracker', s'')) :
      Tracked cap (if r.isOk then before else unloaded) s'' tracker'
  /-- there is no stored chunk -/
  | shrinkEmpty {generator : ChunkIdentifierGenerator} {s s' s'' : LinkedChunk Item Gap}
      {tracker tracker' : OrderTracker} {r : Except OpError (Outcome Item Gap)}
      (h : Tracked cap [] s tracker) (hloaded : s.loaded = .ok [])
      (hs : s.step cap (.replaceWith none generator) = .ok (r, s'))
      (hf : tracker.flushUpdates s' true = .ok (tracker', s'')) : Tracked cap [] s'' tracker'

variable {cap : ℕ} {s s' : LinkedChunk Item Gap} {a : Chain Item Gap} {tracker tracker' : OrderTracker}
  {unloaded : List (PlainChunk Item Gap)} {q : List (Update Item Gap)}

/-- **The tracker knows every stored chunk.** -/
def Ordered (cap : ℕ) (unloaded : List (PlainChunk Item Gap)) (s : LinkedChunk Item Gap)
    (tracker : OrderTracker) : Prop :=
  ∃ a, Reads cap tracker.token s a [] ∧ Ready none unloaded a ∧
    (ids (unloaded ++ plain a.chunks)).Nodup ∧ tracker.mapper = ⟨lengths (unloaded ++ plain a.chunks)⟩

lemma Reads.flush {copy : List Item} (h : Reads cap tracker.token s a q)
    (hp : Pending copy tracker.mapper q cs) :
    ∃ s', tracker.flushUpdates s false = .ok (⟨tracker.token, ⟨lengths cs⟩⟩, s') ∧
      Reads cap tracker.token s' a [] := by
  obtain ⟨s', htake, hreads⟩ := h.take
  obtain ⟨diffs, hmap, -⟩ := hp.map
  refine ⟨s', ?_, hreads⟩
  simp [flushUpdates, htake, hmap]

lemma Reads.flush_inhibit (h : Reads cap tracker.token s a q) :
    ∃ s', tracker.flushUpdates s true = .ok (tracker, s') ∧ Reads cap tracker.token s' a [] := by
  obtain ⟨s', htake, hreads⟩ := h.take
  refine ⟨s', ?_, hreads⟩
  simp [flushUpdates, htake]

lemma Ordered.edit (h : Ordered cap unloaded s tracker) {op : Op Item Gap} (hop : op.IsEdit) {r}
    (hs : s.step cap op = .ok (r, s')) :
    ∃ tracker' s'', tracker.flushUpdates s' false = .ok (tracker', s'') ∧
      Ordered cap unloaded s'' tracker' := by
  obtain ⟨a, hreads, hready, hn, hmapper⟩ := h
  have hload : s.Loadable op := by cases op <;> trivial
  obtain ⟨y, hy, -, hreads'⟩ := hreads.step hload hs
  have hemitted := step_emitted hop hready hy
  rw [enqueue_steps hemitted.steps, nil_append] at hreads'
  have hpending := (pending_nil hn).append hemitted.steps
  rw [← hmapper, nil_append] at hpending
  obtain ⟨s'', hflush, hreads''⟩ := hreads'.flush hpending
  exact ⟨_, s'', hflush, y.2.1, hreads'', hemitted.ready hready, hpending.nodup, rfl⟩

lemma Ordered.clear (h : Ordered cap unloaded s tracker) {r} (hs : s.step cap .clear = .ok (r, s')) :
    ∃ tracker' s'', tracker.flushUpdates s' false = .ok (tracker', s'') ∧ Ordered cap [] s'' tracker' := by
  obtain ⟨a, hreads, hready, hn, hmapper⟩ := h
  have hload : s.Loadable .clear := trivial
  obtain ⟨y, hy, -, hreads'⟩ := hreads.step hload hs
  cases hy
  obtain ⟨s'', hflush, hreads''⟩ := hreads'.flush (pending_clear [] tracker.mapper)
  refine ⟨_, s'', hflush, Chain.new, hreads'', ⟨rfl, by simp [Chain.new]⟩, by simp [Chain.new], rfl⟩

lemma Reads.ordered (h : Reads cap tracker.token s a q) (hready : Ready none unloaded a)
    (hn : (ids (unloaded ++ plain a.chunks)).Nodup)
    (hmapper : tracker.mapper = ⟨lengths (unloaded ++ plain a.chunks)⟩) :
    ∃ s', tracker.flushUpdates s true = .ok (tracker, s') ∧ Ordered cap unloaded s' tracker := by
  obtain ⟨s', hflush, hreads⟩ := h.flush_inhibit
  exact ⟨s', hflush, a, hreads, hready, hn, hmapper⟩

lemma Ordered.load {rest : List (PlainChunk Item Gap)}
    (h : Ordered cap (unloaded ++ [c]) s tracker) (hloaded : s.loaded = .ok rest)
    (hchunk : chunk ∈ rawChunks none (unloaded ++ c :: rest)) (hid : chunk.identifier = c.identifier) {r}
    (hs : s.step cap (.insertNewFirstChunk chunk) = .ok (r, s')) :
    ∃ s'', tracker.flushUpdates s' true = .ok (tracker, s'') ∧
      Ordered cap (if r.isOk then unloaded else unloaded ++ [c]) s'' tracker := by
  obtain ⟨a, hreads, hready, hn, hmapper⟩ := h
  obtain rfl : plain a.chunks = rest := Except.ok.inj ((loaded_eq hreads.repr).symm.trans hloaded)
  have hF : unloaded ++ c :: plain a.chunks = (unloaded ++ [c]) ++ plain a.chunks := by simp
  have hstore : FromStore chunk s.chunkIdentifierGenerator := by
    refine ⟨_, hF ▸ hn, fun i hi => ?_, hchunk⟩
    rw [hreads.repr.1]
    exact hready.le i (hF ▸ hi)
  have hload : s.Loadable (.insertNewFirstChunk chunk) := .inl hstore
  obtain ⟨y, hy, hr, hreads'⟩ := hreads.step hload hs
  cases hy
  have hlazy := hready.lazy
  rw [ids_append, List.getLast?_append] at hlazy
  obtain ⟨_ | ⟨first, rest⟩, g⟩ := a
  · cases hlazy
  have hraw := eq_of_mem_rawChunks (hF ▸ hn) hchunk hid
  rcases Chain.insertNewFirstChunk_cases cap ⟨first :: rest, g⟩ chunk with ⟨⟨e, he⟩, heq⟩ |
    ⟨first', rest', hchunks, -, -, -, -, heq⟩
  · have heq' : (Chain.insertNewFirstChunk cap ⟨first :: rest, g⟩ chunk).2 = (⟨first :: rest, g⟩, []) :=
      heq.elim id id
    simp only [Chain.outcome, he, heq'] at hr hreads'
    subst hr
    exact hreads'.ordered hready hn hmapper
  · obtain ⟨rfl, rfl⟩ := List.cons.inj hchunks
    simp only [Chain.outcome, heq] at hr hreads'
    subst hr
    have hsame : unloaded ++ plain (⟨chunk.previous, chunk.identifier, chunk.content⟩ ::
        { first with lazyPrevious := none } :: rest) = (unloaded ++ [c]) ++ plain (first :: rest) := by
      rw [hraw]
      simp [ChunkData.plain]
    have hready' : Ready none unloaded ⟨⟨chunk.previous, chunk.identifier, chunk.content⟩ ::
        { first with lazyPrevious := none } :: rest, g⟩ :=
      ⟨⟨congrArg RawChunk.previous hraw, hreads'.wf.lazy⟩, fun i hi => hready.le i (hsame ▸ hi)⟩
    exact hreads'.ordered hready' (hsame ▸ hn) (hsame ▸ hmapper)

variable {generator : ChunkIdentifierGenerator}

lemma Ordered.shrink {before rest : List (PlainChunk Item Gap)} (h : Ordered cap unloaded s tracker)
    (hloaded : s.loaded = .ok rest) (hstored : unloaded ++ rest = before ++ [c])
    (hchunk : chunk ∈ rawChunks none (unloaded ++ rest)) (hid : chunk.identifier = c.identifier)
    (hle : ∀ i ∈ ids (unloaded ++ rest), i.index ≤ generator.value) {r}
    (hs : s.step cap (.replaceWith (some chunk) generator) = .ok (r, s')) :
    ∃ s'', tracker.flushUpdates s' true = .ok (tracker, s'') ∧
      Ordered cap (if r.isOk then before else unloaded) s'' tracker := by
  obtain ⟨a, hreads, hready, hn, hmapper⟩ := h
  obtain rfl : plain a.chunks = rest := Except.ok.inj ((loaded_eq hreads.repr).symm.trans hloaded)
  have hload : s.Loadable (.replaceWith (some chunk) generator) := ⟨_, hn, hle, hchunk⟩
  obtain ⟨y, hy, hr, hreads'⟩ := hreads.step hload hs
  cases hy
  have hraw := eq_of_mem_rawChunks (hstored ▸ hn) (hstored ▸ hchunk) hid
  rcases Chain.replaceWith_cases cap a (some chunk) generator with ⟨⟨e, he⟩, heq⟩ | ⟨hnone, -⟩ | ⟨c', hc', -, -, heq⟩
  · simp only [Chain.outcome, he, heq] at hr hreads'
    subst hr
    exact hreads'.ordered hready hn hmapper
  · cases hnone
  · obtain rfl := Option.some.inj hc'
    simp only [Chain.outcome, heq] at hr hreads'
    subst hr
    have hsame : before ++ plain [⟨chunk.previous, chunk.identifier, chunk.content⟩] =
        unloaded ++ plain a.chunks := by
      rw [hraw, hstored]
      rfl
    have hready' : Ready none before ⟨[⟨chunk.previous, chunk.identifier, chunk.content⟩], generator⟩ :=
      ⟨⟨congrArg RawChunk.previous hraw, by simp⟩, fun i hi => hle i (hsame ▸ hi)⟩
    exact hreads'.ordered hready' (hsame ▸ hn) (hsame ▸ hmapper)

lemma Ordered.shrinkEmpty (h : Ordered cap [] s tracker)
    (hloaded : s.loaded = .ok []) {r} (hs : s.step cap (.replaceWith none generator) = .ok (r, s')) :
    ∃ s'', tracker.flushUpdates s' true = .ok (tracker, s'') ∧ Ordered cap [] s'' tracker := by
  obtain ⟨a, hreads, hready, hn, hmapper⟩ := h
  have hnil : plain a.chunks = [] := Except.ok.inj ((loaded_eq hreads.repr).symm.trans hloaded)
  have hload : s.Loadable (.replaceWith none generator) := trivial
  obtain ⟨y, hy, -, hreads'⟩ := hreads.step hload hs
  cases hy
  rw [hnil] at hmapper
  exact hreads'.ordered ⟨rfl, by simp [Chain.outcome, Chain.replaceWith, Chain.clear, Chain.new]⟩
    (by simp [Chain.outcome, Chain.replaceWith, Chain.clear, Chain.new]) hmapper

lemma orderTracker_ordered (hn : (ids (unloaded ++ [c])).Nodup)
    (hle : ∀ i ∈ ids (unloaded ++ [c]), i.index ≤ generator.value)
    (hchunk : chunk ∈ rawChunks none (unloaded ++ [c])) (hid : chunk.identifier = c.identifier)
    (hs : LinkedChunk.fromLastChunk cap (some chunk) generator = .ok (some s)) :
    ∃ tracker s', s.orderTracker (some ((rawChunks none (unloaded ++ [c])).map fun r =>
        ⟨r.content.numItems, r.previous, r.identifier, r.next⟩)) = .ok (some tracker, s') ∧
      Ordered cap unloaded s' tracker := by
  obtain ⟨hrepr, hcap⟩ := fromLastChunk_repr hs
  have hraw := eq_of_mem_rawChunks hn hchunk hid
  have hplain : plain [⟨chunk.previous, chunk.identifier, chunk.content⟩] = [c] := by
    rw [hraw]
    rfl
  have hreads : Reads cap (UpdatesInner.newReaderToken (.new : UpdatesInner (Update Item Gap))).1
      { s with updates := some UpdatesInner.new.newReaderToken.2 }
      ⟨[⟨chunk.previous, chunk.identifier, chunk.content⟩], generator⟩ [] :=
    ⟨hrepr.setUpdates _, Chain.wf_loaded ⟨_, hn, hle, hchunk⟩ hcap, _, rfl,
      UpdatesInner.inv_new.step (e := .newReaderToken) rfl, UpdatesInner.unread_newReaderToken_self _⟩
  obtain ⟨s', htake, hreads'⟩ := hreads.take
  refine ⟨⟨_, ⟨lengths (unloaded ++ [c])⟩⟩, s', ?_, _, hreads', ⟨⟨congrArg RawChunk.previous hraw, by simp⟩, ?_⟩, ?_, ?_⟩
  · simp only [orderTracker, fromLastChunk_updates hs, allChunksMetadata, ok_bind, htake,
      UpdateToVectorDiff.fromMetadata, map_map, Function.comp_def, lengths_rawChunks]
  · rw [hplain]
    exact hle
  · rwa [hplain]
  · rw [hplain]

/-- **The tracker knows every stored chunk, in every run.** -/
theorem Tracked.ordered (h : Tracked cap unloaded s tracker) : Ordered cap unloaded s tracker := by
  induction h with
  | fromLastChunk hn hle hchunk hid hmetas hs ht =>
    obtain ⟨tracker', s', ht', hordered⟩ := orderTracker_ordered hn hle hchunk hid hs
    cases (hmetas ▸ ht).symm.trans ht'
    exact hordered
  | edit _ hop hs hf ih =>
    obtain ⟨tracker', s'', hf', hordered⟩ := ih.edit hop hs
    cases hf.symm.trans hf'
    exact hordered
  | clear _ hs hf ih =>
    obtain ⟨tracker', s'', hf', hordered⟩ := ih.clear hs
    cases hf.symm.trans hf'
    exact hordered
  | other _ hu he hother hs ih =>
    obtain ⟨a, hreads, hrest⟩ := ih
    exact ⟨a, hreads.other hu he hother hs, hrest⟩
  | load _ hloaded hchunk hid hs hf ih =>
    obtain ⟨s'', hf', hordered⟩ := ih.load hloaded hchunk hid hs
    cases hf.symm.trans hf'
    exact hordered
  | shrink _ hloaded hstored hchunk hid hle hs hf ih =>
    obtain ⟨s'', hf', hordered⟩ := ih.shrink hloaded hstored hchunk hid hle hs
    cases hf.symm.trans hf'
    exact hordered
  | shrinkEmpty _ hloaded hs hf ih =>
    obtain ⟨s'', hf', hordered⟩ := ih.shrinkEmpty hloaded hs
    cases hf.symm.trans hf'
    exact hordered

lemma Reads.ordering_eq (h : Reads cap tracker.token s a []) (position : Position) :
    tracker.ordering s position = .ok (orderingFrom position 0 tracker.mapper.chunks) := by
  obtain ⟨inner, hu, hi, hq⟩ := h.queue
  have hup : inner.isReaderUpToDate tracker.token = some true := UpdatesInner.isReaderUpToDate_eq hi hq
  simp [ordering, hu, hup]

/-- **The tracker gives the global order under lazy loading.** After any edits, lazy loads and
shrinks, each followed by its flush, the position of an item is ordered by the index of the item in
the list of all stored items, and any other position has no order. The next flush does not panic
either. -/
theorem ordering_is_global (h : Tracked cap unloaded s tracker) :
    ∃ rest, s.loaded = .ok rest ∧
      (∀ i position item, (positioned (unloaded ++ rest))[i]? = some (position, item) →
        tracker.ordering s position = .ok (some i)) ∧
      (∀ position, (∀ item, (position, item) ∉ positioned (unloaded ++ rest)) →
        tracker.ordering s position = .ok none) ∧
      ∀ op r s', s.step cap op = .ok (r, s') → op.IsEdit ∨ op = .clear →
        (tracker.flushUpdates s' false).isOk := by
  obtain ⟨a, hreads, hready, hn, hmapper⟩ := h.ordered
  have hordering : ∀ position, tracker.ordering s position =
      .ok (indexOf (unloaded ++ plain a.chunks) position) := by
    intro position
    rw [hreads.ordering_eq, hmapper, orderingFrom_lengths hn]
    cases indexOf (unloaded ++ plain a.chunks) position <;> simp
  refine ⟨_, loaded_eq hreads.repr, fun i position item hi => ?_, fun position hnone => ?_, ?_⟩
  · rw [hordering, indexOf_eq_some hn hi]
  · rw [hordering, indexOf_eq_none hnone]
  · rintro op r s' hs (hop | rfl)
    · obtain ⟨tracker', s'', hflush, -⟩ := h.ordered.edit hop hs
      simp [hflush, Except.isOk, Except.toBool]
    · obtain ⟨tracker', s'', hflush, -⟩ := h.ordered.clear hs
      simp [hflush, Except.isOk, Except.toBool]

/-- The first of two stored chunks is not in memory, and two items are pushed. -/
theorem ordering_is_global_two_chunks :
    ∃ s tracker s₁ r s₂ tracker' s₃,
      LinkedChunk.fromLastChunk 2 (some (⟨.items [3], some ⟨0⟩, ⟨1⟩, none⟩ : RawChunk ℕ Char)) ⟨1⟩ =
        .ok (some s) ∧
      s.orderTracker (some [⟨2, none, ⟨0⟩, some ⟨1⟩⟩, ⟨1, some ⟨0⟩, ⟨1⟩, none⟩]) = .ok (some tracker, s₁) ∧
      s₁.step 2 (.pushItemsBack [4, 5]) = .ok (r, s₂) ∧
      tracker.flushUpdates s₂ false = .ok (tracker', s₃) ∧
      tracker'.ordering s₃ ⟨⟨1⟩, 1⟩ = .ok (some 3) := by
  have hordering : ∀ {s s₁ s₂ s₃ : LinkedChunk ℕ Char} {tracker tracker' r},
      LinkedChunk.fromLastChunk 2 (some ⟨.items [3], some ⟨0⟩, ⟨1⟩, none⟩) ⟨1⟩ = .ok (some s) →
      s.orderTracker (some [⟨2, none, ⟨0⟩, some ⟨1⟩⟩, ⟨1, some ⟨0⟩, ⟨1⟩, none⟩]) = .ok (some tracker, s₁) →
      s₁.step 2 (.pushItemsBack [4, 5]) = .ok (r, s₂) →
      tracker.flushUpdates s₂ false = .ok (tracker', s₃) →
      s₃.loaded = .ok [⟨⟨1⟩, .items [3, 4]⟩, ⟨⟨2⟩, .items [5]⟩] →
      tracker'.ordering s₃ ⟨⟨1⟩, 1⟩ = .ok (some 3) := by
    intro s s₁ s₂ s₃ tracker tracker' r hs ht hstep hflush hloaded
    have hop : Op.IsEdit (.pushItemsBack [4, 5] : Op ℕ Char) := trivial
    have htracked : Tracked 2 [⟨⟨0⟩, .items [1, 2]⟩] s₁ tracker :=
      .fromLastChunk (c := ⟨⟨1⟩, .items [3]⟩) (by decide) (by decide) (by decide) rfl rfl hs ht
    obtain ⟨rest, hrest, hindex, -⟩ := ordering_is_global (.edit htracked hop hstep hflush)
    cases hloaded.symm.trans hrest
    exact hindex 3 ⟨⟨1⟩, 1⟩ 4 rfl
  exact ⟨_, _, _, _, _, _, _, rfl, rfl, rfl, rfl, hordering rfl rfl rfl rfl rfl⟩

end LinkedChunk

end HaranaMatrix.Linked
