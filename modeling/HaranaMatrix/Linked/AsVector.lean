import HaranaMatrix.Linked.Reader
import HaranaMatrix.Linked.VectorDiff

/-!
# A linked chunk as a vector

`AsVector` reads the updates of a linked chunk as diffs of its items (`linked_chunk/as_vector.rs`). A
client that applies them has, after each take, the items of the linked chunk.
-/

namespace HaranaMatrix.Linked

variable {Item Gap : Type}

/-- `AsVector`. The updates are those of the linked chunk, which it shares. -/
structure AsVector where
  token : ℕ
  mapper : UpdateToVectorDiff

namespace LinkedChunk

/-- `LinkedChunk::as_vector`. The updates that are buffered are drained. -/
def asVector (s : LinkedChunk Item Gap) : Except Fault (Option AsVector × LinkedChunk Item Gap) :=
  match s.updates with
  | none => .ok (none, s)
  | some inner => do
    let (token, inner) := inner.newReaderToken
    let (chunks, s) ← { s with updates := some inner }.chunks
    let (_, s) ← s.takeUpdates token
    .ok (some ⟨token, .new (chunks.map fun c => c.2.data)⟩, s)

end LinkedChunk

/-- `AsVector::take`: the diffs, the messages that are logged, and the new states. -/
def AsVector.take (v : AsVector) (s : LinkedChunk Item Gap) :
    Except Fault (List (VectorDiff Item) × List Skipped × AsVector × LinkedChunk Item Gap) := do
  let (updates, s) ← s.takeUpdates v.token
  let (diffs, skipped, mapper) ← v.mapper.map updates
  .ok (diffs, skipped, { v with mapper := mapper }, s)

namespace LinkedChunk

/-- A linked chunk, an `AsVector` of it, and the list of a client that started with the items at
`as_vector()` time and applies the diffs of every take. -/
inductive Watched (cap : ℕ) : LinkedChunk Item Gap → AsVector → List Item → Prop
  | asVector {s s' s'' : LinkedChunk Item Gap} {v : AsVector} {items : List (Position × Item)}
      (h : Reachable cap s) (hs : s.asVector = .ok (some v, s')) (hi : s'.items = .ok (items, s'')) :
      Watched cap s' v (items.map Prod.snd)
  | step {s s' : LinkedChunk Item Gap} {v : AsVector} {copy : List Item} {op : Op Item Gap}
      {r : Except OpError (Outcome Item Gap)} (h : Watched cap s v copy) (hop : s.Loadable op)
      (hs : s.step cap op = .ok (r, s')) : Watched cap s' v copy
  /-- another reader of the updates -/
  | other {s : LinkedChunk Item Gap} {v : AsVector} {copy : List Item}
      {inner inner' : UpdatesInner (Update Item Gap)} {e : UpdatesInner.Event (Update Item Gap)}
      {log : List (ℕ × List (Update Item Gap))} (h : Watched cap s v copy)
      (hu : s.updates = some inner) (he : e.IsRead) (hother : ¬ e.Concerns v.token)
      (hs : inner.step e = some (inner', log)) : Watched cap { s with updates := some inner' } v copy
  | take {s s' : LinkedChunk Item Gap} {v v' : AsVector} {copy copy' : List Item}
      {diffs : List (VectorDiff Item)} {skipped : List Skipped} (h : Watched cap s v copy)
      (ht : v.take s = .ok (diffs, skipped, v', s')) (hd : VectorDiff.applyAll copy diffs = some copy') :
      Watched cap s' v' copy'

variable {cap : ℕ} {s s' : LinkedChunk Item Gap} {a : Chain Item Gap} {v : AsVector} {copy : List Item}

/-- The unread updates lead the mapper and the list of the client to the chunks in memory. -/
def Synced (cap : ℕ) (s : LinkedChunk Item Gap) (v : AsVector) (copy : List Item) : Prop :=
  ∃ a q, Reads cap v.token s a q ∧ Pending copy v.mapper q (plain a.chunks)

lemma map_positionedItems (cs : List (ChunkData Item Gap)) :
    (cs.flatMap positionedItems).map Prod.snd = flatten (plain cs) := by
  induction cs with
  | nil => rfl
  | cons c cs ih =>
    have hc : (positionedItems c).map Prod.snd = c.content.toItems := by
      rw [positionedItems, List.map_map]
      exact List.zipIdx_map_fst 0 _
    simp [hc, ih]

lemma flatten_touch (a : Chain Item Gap) : flatten (plain a.touch.1.chunks) = flatten (plain a.chunks) := by
  obtain ⟨_ | ⟨c, cs⟩, g⟩ := a <;> rfl

lemma items_spec (h : Repr s a) :
    ∃ items, s.items = .ok (items, s.touch) ∧ items.map Prod.snd = flatten (plain a.chunks) := by
  obtain ⟨cs, -, hd, hchunks, -⟩ := chunks_spec h
  have hdata : (DList.nodes none cs none).map (fun c => c.2.data) = a.touch.1.chunks := by
    rw [DList.map_data_nodes, ← hd]
  refine ⟨_, by rw [items, hchunks, ok_bind], ?_⟩
  rw [← flatten_touch, ← map_positionedItems, ← hdata, List.flatMap_map]

lemma asVector_spec {inner : UpdatesInner (Update Item Gap)} (h : Reachable cap s)
    (hu : s.updates = some inner) :
    ∃ v s' items, s.asVector = .ok (some v, s') ∧ s'.items = .ok (items, s'.touch) ∧
      Synced cap s' v (items.map Prod.snd) := by
  obtain ⟨a, hreads⟩ := h.reads hu
  obtain ⟨cs, -, hd, hchunks, -⟩ := chunks_spec hreads.repr
  -- `chunks()` may create the first chunk; its update is drained
  have hload : LinkedChunk.Loadable { s with updates := some inner.newReaderToken.2 } .observe := trivial
  obtain ⟨y, hy, -, hreads'⟩ := hreads.step hload rfl
  cases hy
  obtain ⟨s', htake, hreads''⟩ := hreads'.take
  obtain ⟨items, hitems, heq⟩ := items_spec hreads''.repr
  have hdata : (DList.nodes none cs none).map (fun c => c.2.data) = a.touch.1.chunks := by
    rw [DList.map_data_nodes, ← hd]
  refine ⟨⟨inner.newReaderToken.1, .new a.touch.1.chunks⟩, s', items, ?_, hitems, a.touch.1, [], hreads'', ?_⟩
  · simp only [asVector, hu, hchunks, ok_bind, hdata]
    rw [htake, ok_bind]
  · have hnew : UpdateToVectorDiff.new a.touch.1.chunks = ⟨lengths (plain a.touch.1.chunks)⟩ := by
      simp [UpdateToVectorDiff.new, lengths, plain, Function.comp_def]
    rw [hnew, heq]
    exact pending_nil (List.nodup_append.1 hreads''.wf.nodup).2.1

lemma Synced.step (h : Synced cap s v copy) {op : Op Item Gap} (hop : s.Loadable op) {r}
    (hs : s.step cap op = .ok (r, s')) : Synced cap s' v copy := by
  obtain ⟨a, q, hreads, hpending⟩ := h
  obtain ⟨y, hy, -, hreads'⟩ := hreads.step hop hs
  refine ⟨_, _, hreads', ?_⟩
  rcases Chain.step_updates hreads.wf (hreads.repr.loadable hop) hy with
    ⟨base, limit, hsteps⟩ | ⟨base, limit, vs, hclear, hsteps⟩
  · rw [enqueue_steps hsteps]
    exact hpending.append hsteps
  · rw [hclear, enqueue_clear hsteps]
    exact (pending_clear copy v.mapper).append hsteps

/-- **A take brings the list of the client up to date.** -/
lemma Synced.take (h : Synced cap s v copy) :
    ∃ diffs v' s' items, v.take s = .ok (diffs, [], v', s') ∧
      VectorDiff.applyAll copy diffs = some (items.map Prod.snd) ∧ s'.items = .ok (items, s'.touch) ∧
      Synced cap s' v' (items.map Prod.snd) := by
  obtain ⟨a, q, hreads, hpending⟩ := h
  obtain ⟨s', htake, hreads'⟩ := hreads.take
  obtain ⟨diffs, hmap, hdiffs⟩ := hpending.map
  obtain ⟨items, hitems, heq⟩ := items_spec hreads'.repr
  refine ⟨diffs, ⟨v.token, ⟨lengths (plain a.chunks)⟩⟩, s', items, ?_, by rw [hdiffs, heq], hitems, a, [], hreads', ?_⟩
  · simp only [AsVector.take, htake, ok_bind, hmap]
  · rw [heq]
    exact pending_nil hpending.nodup

lemma Watched.synced (h : Watched cap s v copy) : Synced cap s v copy := by
  induction h with
  | @asVector s s' s'' v items h hs hi =>
    cases hu : s.updates with
    | none => simp [LinkedChunk.asVector, hu] at hs
    | some inner =>
      obtain ⟨v₁, s₁, items₁, hs₁, hi₁, hsynced⟩ := asVector_spec h hu
      cases hs.symm.trans hs₁
      cases hi.symm.trans hi₁
      exact hsynced
  | step _ hop hs ih => exact ih.step hop hs
  | other _ hu he hother hs ih =>
    obtain ⟨a, q, hreads, hpending⟩ := ih
    exact ⟨a, q, hreads.other hu he hother hs, hpending⟩
  | take _ ht hd ih =>
    obtain ⟨diffs, v', s', items, ht', hd', -, hsynced⟩ := ih.take
    cases ht.symm.trans ht'
    cases hd.symm.trans hd'
    exact hsynced

/-- **`AsVector` mirrors the linked chunk.** `as_vector()` is there for every reachable linked chunk
with an update history. From then on, after any operations and takes, a take neither panics nor logs
a skipped update, its diffs are in range, and they turn the list of the client into the items of the
linked chunk. -/
theorem asVector_mirrors (cap : ℕ) :
    (∀ s : LinkedChunk Item Gap, Reachable cap s → s.updates.isSome →
      ∃ v s' items s'', s.asVector = .ok (some v, s') ∧ s'.items = .ok (items, s'')) ∧
    ∀ (s : LinkedChunk Item Gap) v copy, Watched cap s v copy →
      ∃ diffs v' s' copy' items s'', v.take s = .ok (diffs, [], v', s') ∧
        VectorDiff.applyAll copy diffs = some copy' ∧ s'.items = .ok (items, s'') ∧
        items.map Prod.snd = copy' := by
  refine ⟨fun s h hu => ?_, fun s v copy h => ?_⟩
  · obtain ⟨inner, hinner⟩ := Option.isSome_iff_exists.1 hu
    obtain ⟨v, s', items, hs, hi, -⟩ := asVector_spec h hinner
    exact ⟨v, s', items, _, hs, hi⟩
  · obtain ⟨diffs, v', s', items, ht, hd, hi, -⟩ := h.synced.take
    exact ⟨diffs, v', s', _, items, _, ht, hd, hi, rfl⟩

theorem asVector_mirrors_three_items :
    ∃ v s₀ r s, (newWithUpdateHistory : LinkedChunk ℕ Char).asVector = .ok (some v, s₀) ∧
      s₀.step 2 (.pushItemsBack [1, 2, 3]) = .ok (r, s) ∧
      ∃ diffs v' s' copy' items s'', v.take s = .ok (diffs, [], v', s') ∧
        VectorDiff.applyAll [] diffs = some copy' ∧ s'.items = .ok (items, s'') ∧
        items.map Prod.snd = copy' := by
  have hwatched : ∀ {v : AsVector} {s₀ t s : LinkedChunk ℕ Char} {r},
      newWithUpdateHistory.asVector = .ok (some v, s₀) → s₀.items = .ok ([], t) →
      s₀.step 2 (.pushItemsBack [1, 2, 3]) = .ok (r, s) → Watched 2 s v [] := by
    intro v s₀ t s r hv hi hs
    have hop : s₀.Loadable (.pushItemsBack [1, 2, 3]) := trivial
    exact .step (.asVector .newWithUpdateHistory hv hi) hop hs
  exact ⟨_, _, _, _, rfl, rfl, (asVector_mirrors 2).2 _ _ _ (hwatched rfl rfl rfl)⟩

/-- A raw chunk whose identifier is above the generator. The next chunk gets the same identifier,
and the diffs put its item before the one that was loaded. -/
theorem asVector_replaceWith_unknown_identifier :
    ∃ v s₀ s₁ s₂ v' s₃ s₄, (newWithUpdateHistory : LinkedChunk Char Unit).asVector = .ok (some v, s₀) ∧
      s₀.step 1 (.replaceWith (some ⟨.items ['a'], none, ⟨1⟩, none⟩) .newFromScratch) = .ok (.ok .unit, s₁) ∧
      s₁.step 1 (.pushItemsBack ['b']) = .ok (.ok .unit, s₂) ∧
      v.take s₂ = .ok ([.clear, .append ['a'], .insert 0 'b'], [], v', s₃) ∧
      VectorDiff.applyAll [] [.clear, .append ['a'], .insert 0 'b'] = some ['b', 'a'] ∧
      s₃.items = .ok ([(⟨⟨1⟩, 0⟩, 'a'), (⟨⟨1⟩, 0⟩, 'b')], s₄) :=
  ⟨_, _, _, _, _, _, _, rfl, rfl, rfl, rfl, rfl, rfl⟩

end LinkedChunk

end HaranaMatrix.Linked
