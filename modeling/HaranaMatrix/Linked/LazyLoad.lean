import HaranaMatrix.Linked.Invariant

/-!
# Chunks offered to the lazy loader

The chunks that are offered to `insert_new_first_chunk` come from a store that may be corrupted. A
chunk is only put in front of the first one when they name each other, and its previous chunk is
looked for among the loaded ones; it is not compared with the chunk itself. So the identifiers stay
distinct until a chunk that names itself is loaded, and then the next one repeats them. -/

namespace HaranaMatrix.Linked

variable {Item Gap : Type} {cap : ℕ}

/-- The chunk names itself as the one before it. -/
def RawChunk.SelfLinked (chunk : RawChunk Item Gap) : Prop := chunk.previous = some chunk.identifier

namespace Chain

/-- A chain that was loaded: the chunk before the first one is none of those after it. -/
inductive Loaded : Chain Item Gap → Prop
  | intro (first : ChunkData Item Gap) (rest : List (ChunkData Item Gap))
    (generator : ChunkIdentifierGenerator)
      (h : ∀ p ∈ first.lazyPrevious, p ∉ ids (plain rest)) : Loaded ⟨first :: rest, generator⟩

variable {a : Chain Item Gap}

lemma Loaded.touch (h : Loaded a) : a.touch = (a, []) := by
  cases h
  rfl

/-- The first chunk names itself as the one before it. -/
def SelfLinked (a : Chain Item Gap) : Prop :=
    ∃ first ∈ a.chunks.head?, first.lazyPrevious = some first.identifier

lemma loaded_last (chunk : RawChunk Item Gap) (g : ChunkIdentifierGenerator) :
    Loaded ⟨[⟨chunk.previous, chunk.identifier, chunk.content⟩], g⟩ :=
  .intro _ [] g fun _ _ h => nomatch h

/-- **An offered chunk** is rejected, or becomes the first one. It repeats an identifier if that
chunk names itself. -/
lemma Loaded.offer (h : Loaded a) (chunk : RawChunk Item Gap) :
    (a.insertNewFirstChunk cap chunk).2.1 = a ∨
      (chunk.identifier ∈ ids (plain a.chunks) ↔ a.SelfLinked) ∧
      Loaded (a.insertNewFirstChunk cap chunk).2.1 ∧
      ids (plain (a.insertNewFirstChunk cap chunk).2.1.chunks) = chunk.identifier :: ids (plain a.chunks) ∧
      ((a.insertNewFirstChunk cap chunk).2.1.SelfLinked ↔ chunk.SelfLinked) := by
  rcases insertNewFirstChunk_cases cap a chunk with ⟨-, heq | heq⟩ | ⟨first, rest, hchunks, -, hprev, -, hlazy, heq⟩
  · exact .inl (by rw [heq])
  · exact .inl (by rw [heq, h.touch])
  right
  rw [h.touch] at hchunks hprev heq
  rw [heq]
  refine ⟨?_, .intro _ _ _ fun p hp hmem => hprev p hp ?_, ?_, ?_⟩
  · cases h with
    | intro first' rest' g hbefore =>
      cases hchunks
      have hrest := hbefore _ hlazy
      simp only [ids_plain] at hrest
      simp [SelfLinked, hlazy, hrest]
  · rw [hchunks]
    simpa using hmem
  · rw [hchunks]
    simp
  · simp [SelfLinked, RawChunk.SelfLinked]

lemma SelfLinked.offer (h : a.SelfLinked) : ∃ chunk : RawChunk Item Gap,
    Loaded (a.insertNewFirstChunk cap chunk).2.1 ∧
      ids (plain (a.insertNewFirstChunk cap chunk).2.1.chunks) = chunk.identifier :: ids (plain a.chunks) ∧
      chunk.identifier ∈ ids (plain a.chunks) := by
  obtain ⟨_ | ⟨first, rest⟩, g⟩ := a
  · obtain ⟨first, hfirst, -⟩ := h
    cases hfirst
  · have hlazy : first.lazyPrevious = some first.identifier := by simpa [SelfLinked] using h
    refine ⟨⟨.items [], none, first.identifier, some first.identifier⟩, ?_, ?_, by simp⟩
    · simpa [insertNewFirstChunk, hlazy] using Loaded.intro _ _ _ (by simp)
    · simp [insertNewFirstChunk, hlazy]

end Chain

namespace LinkedChunk

variable {s s' : LinkedChunk Item Gap} {a : Chain Item Gap} {chunk last : RawChunk Item Gap}

/-- No two chunks have the same identifier. -/
def Distinct (s : LinkedChunk Item Gap) : Prop :=
  ∃ chain, s.chunks = .ok (chain, s) ∧ (chain.map (·.2.data.identifier)).Nodup

/-- The first chunk names itself as the one before it. -/
def SelfLinked (s : LinkedChunk Item Gap) : Prop :=
  ∃ p n, s.links.first = some p ∧ s.heap.cells p = some n ∧ n.data.lazyPrevious = some n.data.identifier

/-- The chunks are offered one after the other. -/
def offerAll (cap : ℕ) : LinkedChunk Item Gap → List (RawChunk Item Gap) → Except Fault (LinkedChunk Item Gap)
  | s, [] => .ok s
  | s, chunk :: chunks => do
    let (_, s) ← s.insertNewFirstChunk cap chunk
    offerAll cap s chunks

/-- A linked chunk whose only chunk is the last one that was given. -/
inductive StartsFrom (cap : ℕ) (last : RawChunk Item Gap) : LinkedChunk Item Gap → Prop
  | fromLastChunk {generator : ChunkIdentifierGenerator} {s : LinkedChunk Item Gap}
      (h : fromLastChunk cap (some last) generator = .ok (some s)) : StartsFrom cap last s
  | replaceWith {generator : ChunkIdentifierGenerator} {s₀ s : LinkedChunk Item Gap} {a : Chain Item Gap}
      (hrepr : Repr s₀ a) (h : s₀.replaceWith cap (some last) generator =
        .ok (.ok (), s)) : StartsFrom cap last s

lemma StartsFrom.repr (h : StartsFrom cap last s) :
    ∃ g, Repr s ⟨[⟨last.previous, last.identifier, last.content⟩], g⟩ := by
  cases h with
  | fromLastChunk h => exact ⟨_, (fromLastChunk_repr h).1⟩
  | @replaceWith g s₀ _ a hrepr h =>
    obtain ⟨y, hy, hrel⟩ := (h ▸ replaceWith_sim hrepr (some last) g).of_ok_left
    cases hy
    rcases Chain.replaceWith_cases cap a (some last) g with ⟨⟨e, he⟩, -⟩ | ⟨hnone, -⟩ | ⟨c, hc, -, -, heq⟩
    · cases hrel.1.trans he
    · cases hnone
    · cases hc
      have hrepr := hrel.2.1
      rw [heq] at hrepr
      exact ⟨g, hrepr⟩

section

variable (h : Repr s a)
include h

lemma Repr.firstChunkPtr (ha : a.Loaded) : ∃ p, s.links.first = some p ∧ s.firstChunkPtr = (p, s) := by
  obtain ⟨-, cs, hc, hd⟩ := h
  cases ha with
  | intro first rest g =>
    cases cs with
    | nil => cases hd
    | cons x cs =>
      refine ⟨x.1, hc.first, ?_⟩
      unfold LinkedChunk.firstChunkPtr
      rw [hc.first]
      rfl

lemma Repr.chunks_loaded (ha : a.Loaded) :
    ∃ chain, s.chunks = .ok (chain, s) ∧ chain.map (·.2.data.identifier) = ids (plain a.chunks) := by
  obtain ⟨p, -, hp⟩ := h.firstChunkPtr ha
  obtain ⟨cs, -, hd, hchunks, -⟩ := chunks_spec h
  have htouch : s.touch = s := congrArg Prod.snd hp
  rw [htouch] at hchunks
  refine ⟨_, hchunks, ?_⟩
  rw [ha.touch] at hd
  rw [ids_plain, ← hd, dataOf, ← DList.map_data_nodes none none cs, List.map_map]
  rfl

lemma Repr.distinct_iff (ha : a.Loaded) : s.Distinct ↔ (ids (plain a.chunks)).Nodup := by
  obtain ⟨chain, hchunks, hids⟩ := h.chunks_loaded ha
  rw [← hids]
  constructor
  · rintro ⟨chain', hchunks', hnodup⟩
    cases hchunks.symm.trans hchunks'
    exact hnodup
  · exact fun hnodup => ⟨chain, hchunks, hnodup⟩

lemma Repr.selfLinked_iff : s.SelfLinked ↔ a.SelfLinked := by
  obtain ⟨-, cs, hc, hd⟩ := h
  unfold SelfLinked Chain.SelfLinked
  rw [← hd, hc.first]
  cases cs with
  | nil => simp
  | cons x cs =>
    have hcell := hc.rep.seg.1
    simp [hcell]

lemma Repr.rejected (ha : a.Loaded) {e : LazyLoaderError}
    (hs : s.insertNewFirstChunk cap chunk = .ok (.error e, s')) : s' = s := by
  obtain ⟨p, -, hp⟩ := h.firstChunkPtr ha
  obtain ⟨chain, hchunks, -⟩ := h.chunks_loaded ha
  have hcycle : ∃ cycle, s.findCycle chunk.previous = .ok (cycle, s) := by
    unfold findCycle
    cases chunk.previous with
    | none => exact ⟨_, rfl⟩
    | some previousChunk => exact ⟨_, by rw [hchunks]; rfl⟩
  obtain ⟨cycle, hcycle⟩ := hcycle
  unfold LinkedChunk.insertNewFirstChunk at hs
  split at hs
  · cases hs
    rfl
  rw [hcycle, ok_bind] at hs
  cases cycle with
  | some previousChunk =>
    cases hs
    rfl
  | none =>
    simp only [hp] at hs
    obtain ⟨firstChunk, -, hs⟩ := bind_eq_ok hs
    iterate 3
      split at hs
      · cases hs
        rfl
    -- All checks are made: what follows cannot be rejected.
    split at hs
    · cases hs
    iterate 5 obtain ⟨_, -, hs⟩ := bind_eq_ok hs
    cases hs

lemma Repr.offer (chunk : RawChunk Item Gap) :
    ∃ r s', s.insertNewFirstChunk cap chunk = .ok (r, s') ∧
      Repr s' (a.insertNewFirstChunk cap chunk).2.1 := by
  obtain ⟨⟨r, s'⟩, hs, hrel⟩ := (insertNewFirstChunk_sim h chunk).of_ok_right
  exact ⟨r, s', hs, hrel.2.1⟩

end

/-- **What is known after chunks were offered**: when none of them named itself, the identifiers are
distinct and the first chunk does not name itself. -/
lemma offerAll_spec (hrepr : Repr s a) (ha : a.Loaded) (chunks : List (RawChunk Item Gap)) :
    ∃ s' a', offerAll cap s chunks = .ok s' ∧ Repr s' a' ∧ a'.Loaded ∧
      ((ids (plain a.chunks)).Nodup → ¬ a.SelfLinked → (∀ chunk ∈ chunks, ¬ chunk.SelfLinked) →
        (ids (plain a'.chunks)).Nodup) := by
  induction chunks generalizing s a with
  | nil => exact ⟨s, a, rfl, hrepr, ha, fun hnodup _ _ => hnodup⟩
  | cons chunk chunks ih =>
    obtain ⟨r, s₁, hs₁, hrepr₁⟩ := @Repr.offer _ _ cap _ _ hrepr chunk
    have hrun : offerAll cap s (chunk :: chunks) = offerAll cap s₁ chunks := by
      rw [offerAll, hs₁]
      rfl
    rw [hrun]
    rcases @Chain.Loaded.offer _ _ cap _ ha chunk with heq | ⟨hrepeats, hloaded, hids, hself⟩
    · rw [heq] at hrepr₁
      obtain ⟨s', a', hs', hrepr', ha', hdistinct⟩ := ih hrepr₁ ha
      refine ⟨s', a', hs', hrepr', ha', fun hnodup hfirst hchunks => hdistinct hnodup hfirst ?_⟩
      exact fun c hc => hchunks c (List.mem_cons_of_mem _ hc)
    · obtain ⟨s', a', hs', hrepr', ha', hdistinct⟩ := ih hrepr₁ hloaded
      refine ⟨s', a', hs', hrepr', ha', fun hnodup hfirst hchunks => ?_⟩
      obtain ⟨hchunk, hchunks⟩ := List.forall_mem_cons.1 hchunks
      refine hdistinct ?_ (mt hself.1 hchunk) hchunks
      rw [hids, List.nodup_cons]
      exact ⟨mt hrepeats.1 hfirst, hnodup⟩

/-- **Lazy loading repeats no identifier** as long as no chunk names itself as the one before it,
and a chunk that is rejected leaves the linked chunk as it is. Once the first chunk names itself,
and only then, a chunk can be offered that repeats its identifier. -/
theorem offerAll_distinct (hstart : StartsFrom cap last s) (chunks : List (RawChunk Item Gap)) :
    ∃ s', offerAll cap s chunks = .ok s' ∧
      ((∀ chunk ∈ last :: chunks, ¬ chunk.SelfLinked) → s'.Distinct) ∧
      (∀ chunk e t, s'.insertNewFirstChunk cap chunk = .ok (.error e, t) → t = s') ∧
      (s'.Distinct → ((∀ chunk r t, s'.insertNewFirstChunk cap chunk = .ok (r, t) → t.Distinct) ↔
        ¬ s'.SelfLinked)) := by
  obtain ⟨g, hrepr⟩ := hstart.repr
  obtain ⟨s', a', hs', hrepr', ha', hdistinct⟩ :=
    @offerAll_spec _ _ cap _ _ hrepr (Chain.loaded_last last g) chunks
  refine ⟨s', hs', fun hchunks => ?_, fun _ _ _ => hrepr'.rejected ha', fun hnow => ?_⟩
  · obtain ⟨hlast, hchunks⟩ := List.forall_mem_cons.1 hchunks
    refine (hrepr'.distinct_iff ha').2 (hdistinct (by simp) ?_ hchunks)
    simpa [Chain.SelfLinked, RawChunk.SelfLinked] using hlast
  · rw [hrepr'.distinct_iff ha'] at hnow
    rw [hrepr'.selfLinked_iff]
    constructor
    · intro hall hself
      obtain ⟨chunk, hloaded, hids, hmem⟩ := @Chain.SelfLinked.offer _ _ cap _ hself
      obtain ⟨r, t, ht, hreprt⟩ := @Repr.offer _ _ cap _ _ hrepr' chunk
      have hnodup := (hreprt.distinct_iff hloaded).1 (hall chunk r t ht)
      rw [hids] at hnodup
      exact (List.nodup_cons.1 hnodup).1 hmem
    · intro hself chunk r t ht
      obtain ⟨r', t', ht', hreprt⟩ := @Repr.offer _ _ cap _ _ hrepr' chunk
      cases ht.symm.trans ht'
      rcases @Chain.Loaded.offer _ _ cap _ ha' chunk with heq | ⟨hrepeats, hloaded, hids, -⟩
      · rw [heq] at hreprt
        exact (hreprt.distinct_iff ha').2 hnow
      · rw [hreprt.distinct_iff hloaded, hids, List.nodup_cons]
        exact ⟨mt hrepeats.1 hself, hnow⟩

theorem offerAll_distinct_two :
    ∃ s s', fromLastChunk 2 (some (⟨.items ['b'], some ⟨0⟩, ⟨1⟩, none⟩ : RawChunk Char Unit)) ⟨1⟩ =
      .ok (some s) ∧ offerAll 2 s [⟨.items ['a'], none, ⟨0⟩, some ⟨1⟩⟩] = .ok s' ∧ s'.Distinct := by
  have hstart : ∀ {s}, fromLastChunk 2 (some (⟨.items ['b'], some ⟨0⟩, ⟨1⟩, none⟩ : RawChunk Char Unit)) ⟨1⟩ = .ok (some s) →
      StartsFrom 2 ⟨.items ['b'], some ⟨0⟩, ⟨1⟩, none⟩ s := .fromLastChunk
  obtain ⟨s', hs', hdistinct, -, -⟩ := offerAll_distinct (hstart rfl) [⟨.items ['a'], none, ⟨0⟩, some ⟨1⟩⟩]
  refine ⟨_, s', rfl, hs', hdistinct ?_⟩
  simp [RawChunk.SelfLinked]

/-- **A last chunk that names itself** is followed by a second one with its identifier. -/
theorem offerAll_repeats_last :
    ∃ s s' chain, fromLastChunk 2 (some (⟨.items ['b'], some ⟨0⟩, ⟨0⟩, none⟩ : RawChunk Char Unit)) ⟨0⟩ = .ok (some s) ∧
      s.insertNewFirstChunk 2 ⟨.items ['a'], none, ⟨0⟩, some ⟨0⟩⟩ = .ok (.ok (), s') ∧
        s'.chunks = .ok (chain, s') ∧
      chain.map (·.2.data.identifier) = [⟨0⟩, ⟨0⟩] :=
  ⟨_, _, _, rfl, rfl, rfl, rfl⟩

end LinkedChunk

end HaranaMatrix.Linked
