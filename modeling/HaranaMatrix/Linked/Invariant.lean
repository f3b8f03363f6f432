import HaranaMatrix.Linked.Produce
import HaranaMatrix.Linked.Simulation

/-!
# The invariant of a linked chunk

`Chain.Wf` is kept by every operation, as long as the raw chunks that are loaded come from a stored
linked chunk. With the simulation of `Linked.Simulation` it becomes an invariant of the pointers.
-/

namespace HaranaMatrix.Linked

open HaranaMatrix.DList List

variable {Item Gap : Type}

/-! ## Stored chunks -/

/-- The raw chunks of stored chunks: `previous` and `next` are the identifiers of the neighbours. -/
def rawChunks : Option ChunkIdentifier → List (PlainChunk Item Gap) → List (RawChunk Item Gap)
  | _, [] => []
  | previous, c :: cs =>
    ⟨c.content, previous, c.identifier, (ids cs).head?⟩ :: rawChunks (some c.identifier) cs

/-- `chunk` is a raw chunk of a stored linked chunk whose identifiers are distinct and not above
`generator`. -/
def FromStore (chunk : RawChunk Item Gap) (generator : ChunkIdentifierGenerator) : Prop :=
  ∃ F : List (PlainChunk Item Gap), (ids F).Nodup ∧ (∀ i ∈ ids F, i.index ≤ generator.value) ∧
    chunk ∈ rawChunks none F

variable {chunk : RawChunk Item Gap} {g : ChunkIdentifierGenerator}

lemma mem_rawChunks {previous : Option ChunkIdentifier} {F : List (PlainChunk Item Gap)}
    (h : chunk ∈ rawChunks previous F) :
    chunk.identifier ∈ ids F ∧ (chunk.previous = previous ∨ ∃ p ∈ ids F, chunk.previous = some p) := by
  induction F generalizing previous with
  | nil => simp [rawChunks] at h
  | cons c F ih =>
    rcases mem_cons.1 h with rfl | h
    · exact ⟨by simp, .inl rfl⟩
    · obtain ⟨h₁, h₂⟩ := ih h
      refine ⟨by simp [h₁], .inr ?_⟩
      rcases h₂ with h₂ | ⟨p, hp, h₂⟩
      · exact ⟨c.identifier, by simp, h₂⟩
      · exact ⟨p, by simp [hp], h₂⟩

lemma previous_ne_identifier {previous : Option ChunkIdentifier} {F : List (PlainChunk Item Gap)}
    (hn : (previous.toList ++ ids F).Nodup)
    (h : chunk ∈ rawChunks previous F) : chunk.previous ≠ some chunk.identifier := by
  induction F generalizing previous with
  | nil => simp [rawChunks] at h
  | cons c F ih =>
    rcases mem_cons.1 h with rfl | h
    · rintro hp
      simp only at hp
      simp [hp] at hn
    · exact ih (by simpa using (nodup_append.1 hn).2.1) h

lemma FromStore.spec {generator : ChunkIdentifierGenerator} (h : FromStore chunk generator) :
    (chunk.previous.toList ++ [chunk.identifier]).Nodup ∧
      ∀ i ∈ chunk.previous.toList ++ [chunk.identifier], i.index ≤ generator.value := by
  obtain ⟨F, hn, hle, hmem⟩ := h
  obtain ⟨hid, hprev⟩ := mem_rawChunks hmem
  have hne := previous_ne_identifier (by simpa using hn) hmem
  cases hp : chunk.previous with
  | none => simpa using hle _ hid
  | some p =>
    rw [hp] at hprev hne
    have hpmem : p ∈ ids F := by
      rcases hprev with h | ⟨q, hq, h⟩
      · cases h
      · cases h
        exact hq
    refine ⟨by simpa using hne, ?_⟩
    simpa using ⟨hle p hpmem, hle _ hid⟩

/-! ## The invariant, on lists -/

namespace Chain

/-- The identifier before the first chunk, when the first chunk was loaded lazily. -/
def base (a : Chain Item Gap) : Option ChunkIdentifier := a.chunks.head?.bind (·.lazyPrevious)

/-- The identifiers in use: those in memory, and the one before them. -/
def used (a : Chain Item Gap) : List ChunkIdentifier := a.base.toList ++ ids (plain a.chunks)

structure Wf (cap : ℕ) (a : Chain Item Gap) : Prop where
  lazy : ∀ c ∈ a.chunks.tail, c.lazyPrevious = none
  nodup : a.used.Nodup
  le : ∀ i ∈ a.used, i.index ≤ a.generator.value
  capacity : ∀ c ∈ plain a.chunks, c.content.numItems ≤ cap

variable {cap : ℕ} {a a' : Chain Item Gap} {us : List (Update Item Gap)} {b : Option ChunkIdentifier}

lemma base_of_lazyHead (h : LazyHead b a.chunks) : a.base = b := by
  obtain ⟨_ | ⟨c, cs⟩, g⟩ := a
  · exact h.symm
  · exact h.1

lemma lazyHead_base (h : ∀ c ∈ a.chunks.tail, c.lazyPrevious = none) : LazyHead a.base a.chunks := by
  obtain ⟨_ | ⟨c, cs⟩, g⟩ := a
  · rfl
  · exact ⟨rfl, h⟩

/-- An empty chunk in the place of the chunk before the first one. -/
def ghost (a : Chain Item Gap) : List (PlainChunk Item Gap) := a.base.toList.map fun i => ⟨i, .items []⟩

lemma ids_ghost (a : Chain Item Gap) : ids a.ghost = a.base.toList := by
  simp [ghost, ids, Function.comp_def]

lemma Wf.ready (h : a.Wf cap) : Ready none a.ghost a := by
  refine ⟨?_, ?_⟩
  · rw [ids_ghost]
    have : a.base.toList.getLast?.or none = a.base := by cases a.base <;> rfl
    rw [this]
    exact lazyHead_base h.lazy
  · rw [ids_append, ids_ghost]
    exact h.le

lemma Wf.ready_base (h : a.Wf cap) : Ready a.base [] a :=
  ⟨lazyHead_base h.lazy, fun i hi => h.le i (mem_append_right _ hi)⟩

/-- **Every edit keeps the invariant.** -/
lemma Wf.of_emitted (h : a.Wf cap) (he : Emitted none cap a.ghost a us a') :
    a'.Wf cap ∧ a'.base = a.base := by
  have hbase : a'.base = a.base := by
    rw [base_of_lazyHead he.lazy, ids_ghost]
    cases a.base <;> rfl
  have hused : ids (a.ghost ++ plain a'.chunks) = a'.used := by
    rw [ids_append, ids_ghost, used, hbase]
  refine ⟨⟨?_, ?_, ?_, ?_⟩, hbase⟩
  · have hlazy := he.lazy
    cases hc : a'.chunks with
    | nil => simp
    | cons c cs =>
      rw [hc] at hlazy
      exact hlazy.2
  · have := he.steps.invariant (I := fun e => (ids e.chunks).Nodup) (fun _ _ _ hs => hs.nodup)
      (by simpa [Edit.chunks, ids_ghost, used] using h.nodup)
    rwa [← hused]
  · rw [← hused]
    exact (he.ready h.ready).le
  · have := he.steps.invariant (I := fun e => ∀ c ∈ e.chunks, c.content.numItems ≤ cap)
      (fun _ _ _ hs => hs.le_cap) (forall_mem_append.2 ⟨by simp [ghost], h.capacity⟩)
    exact (forall_mem_append.1 this).2

lemma wf_new : (new : Chain Item Gap).Wf cap :=
  ⟨by simp [new], by simp [used, new, base], by simp [used, new, base], by simp [new]⟩

lemma touch_wf (h : a.Wf cap) : a.touch.1.Wf cap ∧ a.touch.1.base = a.base :=
  h.of_emitted (touch_emitted cap h.ready)

lemma wf_loaded (h : FromStore chunk g) (hcap : ¬ cap < chunk.content.numItems) :
    Wf cap ⟨[⟨chunk.previous, chunk.identifier, chunk.content⟩], g⟩ := by
  obtain ⟨hn, hle⟩ := h.spec
  exact ⟨by simp, hn, hle, by simpa using hcap⟩

/-- What is asked of the raw chunks that an operation loads. A raw chunk that does not come before
the first chunk is refused, whatever it is. -/
def Loadable (a : Chain Item Gap) : Op Item Gap → Prop
  | .insertNewFirstChunk chunk => FromStore chunk a.generator ∨ a.base ≠ some chunk.identifier
  | .replaceWith (some chunk) generator => FromStore chunk generator
  | _ => True

lemma insertNewFirstChunk_cases (cap : ℕ) (a : Chain Item Gap) (chunk : RawChunk Item Gap) :
    ((∃ e, (a.insertNewFirstChunk cap chunk).1 = .error e) ∧
      ((a.insertNewFirstChunk cap chunk).2 = (a, []) ∨ (a.insertNewFirstChunk cap chunk).2 = a.touch)) ∨
    (∃ first rest, a.touch.1.chunks = first :: rest ∧ ¬ cap < chunk.content.numItems ∧
      (∀ p ∈ chunk.previous, p ∉ ids (plain a.touch.1.chunks)) ∧
      chunk.next = some first.identifier ∧ first.lazyPrevious = some chunk.identifier ∧
      a.insertNewFirstChunk cap chunk =
        (.ok (), { a.touch.1 with
          chunks := ⟨chunk.previous, chunk.identifier, chunk.content⟩ :: { first with lazyPrevious := none } :: rest },
          a.touch.2 ++ newFirstChunkUpdates ⟨chunk.previous, chunk.identifier, chunk.content⟩
            (some first.identifier))) := by
  unfold insertNewFirstChunk
  split
  · exact .inl ⟨⟨_, rfl⟩, .inl rfl⟩
  next hcap =>
  simp only
  cases hfilter : chunk.previous.filter fun p => a.touch.1.chunks.any fun c => c.identifier == p with
  | some p => exact .inl ⟨⟨_, rfl⟩, .inr rfl⟩
  | none =>
    have hprev : ∀ p ∈ chunk.previous, p ∉ ids (plain a.touch.1.chunks) := by
      intro p hp hmem
      rw [Option.mem_def.1 hp] at hfilter
      simp only [ids_plain, mem_map] at hmem
      obtain ⟨c, hc, rfl⟩ := hmem
      simp [Option.filter] at hfilter
      exact hfilter c hc rfl
    cases hchunks : a.touch.1.chunks with
    | nil => exact absurd hchunks (touch_chunks_ne a)
    | cons first rest =>
      rw [hchunks] at hprev
      cases hnext : chunk.next with
      | none => exact .inl ⟨⟨_, rfl⟩, .inr rfl⟩
      | some nextChunk =>
        simp only
        split
        · exact .inl ⟨⟨_, rfl⟩, .inr rfl⟩
        next hfirst =>
        split
        · exact .inl ⟨⟨_, rfl⟩, .inr rfl⟩
        next hlazy =>
        rw [not_not] at hfirst hlazy
        exact .inr ⟨first, rest, rfl, hcap, hprev, by rw [hfirst], hlazy, rfl⟩

lemma insertNewFirstChunk_first {first : ChunkData Item Gap} {rest : List (ChunkData Item Gap)}
    {raw : RawChunk Item Gap} (generator : ChunkIdentifierGenerator) (hcap : raw.content.numItems ≤ cap)
    (hprevious : ∀ i ∈ raw.previous, i ∉ ids (plain (first :: rest)))
    (hnext : raw.next = some first.identifier) (hlazy : first.lazyPrevious = some raw.identifier) :
    ∃ us, (⟨first :: rest, generator⟩ : Chain Item Gap).insertNewFirstChunk cap raw =
      (.ok (), ⟨⟨raw.previous, raw.identifier, raw.content⟩ ::
        { first with lazyPrevious := none } :: rest, generator⟩, us) := by
  have hcycle : (raw.previous.filter fun p => (first :: rest).any fun c => c.identifier == p) = none := by
    cases hp : raw.previous with
    | none => rfl
    | some p =>
      have hnot := hprevious p hp
      rw [ids_plain, mem_map] at hnot
      have hany : ((first :: rest).any fun c => c.identifier == p) = false := by
        refine any_eq_false.2 fun c hc heq => hnot ⟨c, hc, beq_iff_eq.1 heq⟩
      simp only [Option.filter, hany]
      rfl
  unfold Chain.insertNewFirstChunk
  rw [if_neg (Nat.not_lt.2 hcap)]
  simp only [Chain.touch_cons, hcycle, hnext, hlazy]
  rw [if_neg (by simp), if_neg (by simp)]
  exact ⟨_, rfl⟩

lemma replaceWith_cases (cap : ℕ) (a : Chain Item Gap) (chunk : Option (RawChunk Item Gap))
    (g : ChunkIdentifierGenerator) :
    ((∃ e, (a.replaceWith cap chunk g).1 = .error e) ∧ (a.replaceWith cap chunk g).2 = (a, [])) ∨
    (chunk = none ∧ a.replaceWith cap chunk g = (.ok (), new, [.clear])) ∨
    (∃ c, chunk = some c ∧ ¬ cap < c.content.numItems ∧ c.next = none ∧
      a.replaceWith cap chunk g = (.ok (), ⟨[⟨c.previous, c.identifier, c.content⟩], g⟩,
        .clear :: newFirstChunkUpdates ⟨c.previous, c.identifier, c.content⟩ none)) := by
  cases chunk with
  | none => exact .inr (.inl ⟨rfl, rfl⟩)
  | some c =>
    simp only [replaceWith]
    split
    · exact .inl ⟨⟨_, rfl⟩, rfl⟩
    next hcap =>
    split
    · exact .inl ⟨⟨_, rfl⟩, rfl⟩
    next hnext => exact .inr (.inr ⟨c, rfl, hcap, by simpa using hnext, rfl⟩)

lemma insertNewFirstChunk_wf (h : a.Wf cap)
    (hload : FromStore chunk a.generator ∨ a.base ≠ some chunk.identifier) :
    (a.insertNewFirstChunk cap chunk).2.1.Wf cap := by
  obtain ⟨ht, hbase⟩ := touch_wf h
  rcases insertNewFirstChunk_cases cap a chunk with ⟨-, heq | heq⟩ | ⟨first, rest, hchunks, hcap, hprev, -, hlazy, heq⟩
  · rwa [heq]
  · rwa [heq]
  rw [heq]
  have hfirst : a.touch.1.base = some chunk.identifier := by
    rw [base, hchunks]
    exact hlazy
  obtain ⟨hn, hle⟩ := (hload.resolve_right (by rw [← hbase, hfirst]; simp)).spec
  have hused : a.touch.1.used = chunk.identifier :: ids (plain a.touch.1.chunks) := by
    rw [used, hfirst]
    rfl
  have hnew : ids (plain (⟨chunk.previous, chunk.identifier, chunk.content⟩ ::
      { first with lazyPrevious := none } :: rest)) = a.touch.1.used := by
    rw [hused, hchunks]
    simp
  refine ⟨?_, ?_, ?_, ?_⟩
  · have := ht.lazy
    rw [hchunks] at this
    simpa using this
  · show (chunk.previous.toList ++ ids (plain _)).Nodup
    rw [hnew]
    refine nodup_append.2 ⟨(nodup_append.1 hn).1, ht.nodup, fun p hp q hq => ?_⟩
    rintro rfl
    rw [hused] at hq
    rcases mem_cons.1 hq with rfl | hq
    · exact (nodup_append.1 hn).2.2 _ hp _ (by simp) rfl
    · exact hprev p (by simpa using hp) hq
  · show ∀ i ∈ chunk.previous.toList ++ ids (plain _), i.index ≤ _
    rw [hnew]
    refine forall_mem_append.2 ⟨fun i hi => ?_, ht.le⟩
    rw [touch_generator]
    exact hle i (by simp [hi])
  · have := ht.capacity
    rw [hchunks] at this
    exact forall_mem_cons.2 ⟨Nat.le_of_not_lt hcap, this⟩

/-- **Every operation keeps the invariant.** -/
theorem step_wf (h : a.Wf cap) {op : Op Item Gap} (hop : a.Loadable op) {y}
    (hs : a.step cap op = .ok y) : y.2.1.Wf cap := by
  by_cases hedit : op.IsEdit
  · exact (h.of_emitted (step_emitted hedit h.ready hs)).1
  cases op with
  | clear =>
    cases hs
    exact wf_new
  | insertNewFirstChunk chunk =>
    cases hs
    exact insertNewFirstChunk_wf h hop
  | replaceWith chunk g =>
    cases hs
    show (a.replaceWith cap chunk g).2.1.Wf cap
    rcases replaceWith_cases cap a chunk g with ⟨-, heq⟩ | ⟨rfl, heq⟩ | ⟨c, rfl, hcap, -, heq⟩
    · rwa [heq]
    · exact wf_new
    · rw [heq]
      exact wf_loaded hop hcap
  | _ => exact absurd trivial hedit

end Chain

/-! ## The invariant of the pointers -/

namespace LinkedChunk

/-- **The structure of a linked chunk**: `chain` is all there is on the heap. -/
structure Invariant (cap : ℕ) (s : LinkedChunk Item Gap) (chain : List (Ptr × Chunk Item Gap)) :
    Prop where
  cells : ∀ p n, s.heap.cells p = some n ↔ (p, n) ∈ chain
  nodup : (chain.map Prod.fst).Nodup
  next : ∀ i p n, chain[i]? = some (p, n) → n.next = (chain.map Prod.fst)[i + 1]?
  previous_first : ∀ p n, chain[0]? = some (p, n) → n.previous = none
  previous : ∀ i p n, chain[i + 1]? = some (p, n) → n.previous = (chain.map Prod.fst)[i]?
  first : s.links.first = (chain.map Prod.fst).head?
  last : s.links.last.or s.links.first = (chain.map Prod.fst).getLast?
  identifiers : (chain.map (·.2.data.identifier)).Nodup
  generator : ∀ x ∈ chain, x.2.data.identifier.index ≤ s.chunkIdentifierGenerator.value
  capacity : ∀ x ∈ chain, x.2.data.content.numItems ≤ cap
  lazyPrevious : ∀ x ∈ chain.tail, x.2.data.lazyPrevious = none

variable {cap : ℕ} {s : LinkedChunk Item Gap} {a : Chain Item Gap} {cs : List (Ptr × ChunkData Item Gap)}

lemma Cells.invariant (hc : Cells s cs) (hd : dataOf cs = a.chunks)
    (hg : s.chunkIdentifierGenerator = a.generator) (h : a.Wf cap) :
      Invariant cap s (nodes none cs none) := by
  have hdata : (nodes none cs none).map (fun x => x.2.data) = a.chunks := by rw [map_data_nodes, ← hd]
  have hmem : ∀ x ∈ nodes none cs none, x.2.data ∈ a.chunks := fun x hx => by
    rw [← hdata]
    exact mem_map_of_mem hx
  have hids : (nodes none cs none).map (fun x => x.2.data.identifier) = ids (plain a.chunks) := by
    rw [ids_plain, ← hdata, map_map]
    rfl
  refine ⟨hc.rep.cells_iff, ?_, fun i p n hi => ?_, fun p n hi => ?_, fun i p n hi => ?_, ?_, ?_, ?_,
    fun x hx => ?_, fun x hx => ?_, fun x hx => ?_⟩
  · rw [map_fst_nodes]
    simpa [ptrs] using hc.rep.owns.nodup
  · rw [nodes_next hi, map_fst_nodes, Option.or_none]
  · exact nodes_previous hi
  · rw [map_fst_nodes]
    exact nodes_previous hi
  · rw [map_fst_nodes, hc.first, headPtr_eq, Option.or_none]
  · rw [map_fst_nodes, hc.latest, lastPtr_eq, Option.or_none]
  · rw [hids]
    exact (nodup_append.1 h.nodup).2.1
  · rw [hg]
    refine h.le _ (mem_append_right _ ?_)
    rw [← hids]
    exact mem_map_of_mem hx
  · exact h.capacity _ (mem_map_of_mem (hmem x hx))
  · refine h.lazy _ ?_
    rw [← hdata, ← map_tail]
    exact mem_map_of_mem hx

/-- What is asked of the raw chunks that an operation loads: they come from a stored linked chunk
whose identifiers the generator covers, or are not the chunk before the first one. -/
def Loadable (s : LinkedChunk Item Gap) : Op Item Gap → Prop
  | .insertNewFirstChunk chunk =>
    FromStore chunk s.chunkIdentifierGenerator ∨
      ∀ p n, s.links.first = some p → s.heap.cells p = some n → n.data.lazyPrevious ≠ some chunk.identifier
  | .replaceWith (some chunk) generator => FromStore chunk generator
  | _ => True

/-- The linked chunks of all runs of operations. -/
inductive Reachable (cap : ℕ) : LinkedChunk Item Gap → Prop
  | new : Reachable cap .new
  | newWithUpdateHistory : Reachable cap .newWithUpdateHistory
  | fromLastChunk {chunk : RawChunk Item Gap} {generator : ChunkIdentifierGenerator}
      {s : LinkedChunk Item Gap} (hstore : FromStore chunk generator)
      (hs : LinkedChunk.fromLastChunk cap (some chunk) generator = .ok (some s)) : Reachable cap s
  /-- the readers of updates come and go, and take what is new to them -/
  | readUpdates {s : LinkedChunk Item Gap} {inner inner' : UpdatesInner (Update Item Gap)}
      {e : UpdatesInner.Event (Update Item Gap)} {log : List (ℕ × List (Update Item Gap))}
      (h : Reachable cap s) (hu : s.updates = some inner) (he : e.IsRead)
      (hs : inner.step e = some (inner', log)) : Reachable cap { s with updates := some inner' }
  | step {s s' : LinkedChunk Item Gap} {op : Op Item Gap} {r : Except OpError (Outcome Item Gap)}
      (h : Reachable cap s) (hop : s.Loadable op) (hs : s.step cap op = .ok (r, s')) : Reachable cap s'

lemma Repr.loadable (h : Repr s a) {op : Op Item Gap} (hop : s.Loadable op) : a.Loadable op := by
  obtain ⟨hg, cs, hc, hd⟩ := h
  cases op with
  | insertNewFirstChunk chunk =>
    refine hop.imp (fun h => hg ▸ h) fun h hbase => ?_
    cases cs with
    | nil => simp [Chain.base, ← hd] at hbase
    | cons x cs =>
      refine h x.1 _ hc.first hc.rep.seg.1 ?_
      simpa [Chain.base, ← hd] using hbase
  | replaceWith chunk g =>
    cases chunk with
    | none => trivial
    | some chunk => exact hop
  | _ => trivial

section

variable (hs : LinkedChunk.fromLastChunk cap (some chunk) g = .ok (some s))
include hs

lemma fromLastChunk_repr :
    Repr s ⟨[⟨chunk.previous, chunk.identifier, chunk.content⟩], g⟩ ∧ ¬ cap < chunk.content.numItems := by
  unfold LinkedChunk.fromLastChunk at hs
  simp only at hs
  split at hs
  · cases hs
  next hcap =>
  split at hs
  · cases hs
  · cases hs
    exact ⟨⟨rfl, _, ⟨(rep_empty.alloc _).single, rfl, .inl ⟨rfl, by simp⟩⟩, rfl⟩, hcap⟩

lemma fromLastChunk_updates : s.updates = some .new := by
  unfold LinkedChunk.fromLastChunk at hs
  simp only at hs
  split at hs
  · cases hs
  split at hs
  · cases hs
  · cases hs
    rfl

end

lemma Repr.setUpdates (h : Repr s a) (updates : Option (UpdatesInner (Update Item Gap))) :
    Repr { s with updates := updates } a := by
  obtain ⟨hg, cs, hc, hd⟩ := h
  exact ⟨hg, cs, ⟨hc.rep, hc.first, hc.last⟩, hd⟩

/-- **A reachable linked chunk is a well-formed list of chunks.** -/
theorem Reachable.repr (h : Reachable cap s) : ∃ a, Repr s a ∧ a.Wf cap := by
  induction h with
  | new => exact ⟨_, repr_new, Chain.wf_new⟩
  | newWithUpdateHistory => exact ⟨_, repr_newWithUpdateHistory, Chain.wf_new⟩
  | fromLastChunk hstore hs =>
    obtain ⟨hrepr, hcap⟩ := fromLastChunk_repr hs
    exact ⟨_, hrepr, Chain.wf_loaded hstore hcap⟩
  | readUpdates _ _ _ _ ih =>
    obtain ⟨a, hrepr, hwf⟩ := ih
    exact ⟨a, hrepr.setUpdates _, hwf⟩
  | @step s s' op r _ hop hs ih =>
    obtain ⟨a, hrepr, hwf⟩ := ih
    obtain ⟨y, hy, hrel⟩ := (hs ▸ step_sim hrepr op).of_ok_left
    exact ⟨y.2.1, hrel.2.1, Chain.step_wf hwf (hrepr.loadable hop) hy⟩

/-- **The structural invariant.** In every run, the pointers form one chain from `links.first` to
the last chunk, `chunks()` and `rchunks()` are reverses of each other, the identifiers are distinct
and not above the generator, no chunk is over its capacity, and only the first one has a
`lazy_previous`. -/
theorem reachable_invariant (h : Reachable cap s) :
    (∃ chain, Invariant cap s chain) ∧
    ∃ chain t, s.chunks = .ok (chain, t) ∧ s.rchunks = .ok (chain.reverse, t) ∧ Invariant cap t chain := by
  obtain ⟨a, hrepr, hwf⟩ := h.repr
  obtain ⟨hg, cs, hc, hd⟩ := hrepr
  obtain ⟨cs', hc', hd', hchunks, hrchunks⟩ := chunks_spec ⟨hg, cs, hc, hd⟩
  refine ⟨⟨_, hc.invariant hd hg hwf⟩, _, _, hchunks, hrchunks, ?_⟩
  exact hc'.invariant hd' (Repr.touch ⟨hg, cs, hc, hd⟩).1 (Chain.touch_wf hwf).1

theorem reachable_invariant_three_items :
    ∃ r s, (new : LinkedChunk ℕ Unit).step 2 (.pushItemsBack [1, 2, 3]) = .ok (r, s) ∧
      (∃ chain, Invariant 2 s chain) ∧
      ∃ chain t, s.chunks = .ok (chain, t) ∧ s.rchunks = .ok (chain.reverse, t) ∧ Invariant 2 t chain :=
  ⟨_, _, rfl, reachable_invariant (.step .new (show LinkedChunk.Loadable _ (.pushItemsBack [1, 2, 3]) from trivial) rfl)⟩

end LinkedChunk

end HaranaMatrix.Linked
