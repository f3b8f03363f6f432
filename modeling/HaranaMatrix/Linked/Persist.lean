import HaranaMatrix.Linked.Replay
import HaranaMatrix.Linked.Load

/-!
# A linked chunk and its store

A linked chunk is edited while its main reader takes the updates and applies them to a store, in
batches of any size. The taken and the unread updates always lead the store to the chunks in memory,
so the store never refuses an update, and once all are applied it loads what is in memory. -/

namespace HaranaMatrix.Linked

variable {ItemId Item Gap : Type} [LinearOrder ItemId] [IndexableItem Item ItemId]

namespace RelationalLinkedChunk

variable {cap : ℕ} {L : LinkedChunkId} {store : RelationalLinkedChunk ItemId Item Gap}
  {e e' : Edit Item Gap} {us : List (Update Item Gap)}

/-- The store holds the chunks of `e` as those of `L`, and no other linked chunk. -/
structure Holds (store : RelationalLinkedChunk ItemId Item Gap) (L : LinkedChunkId) (e : Edit Item Gap) :
    Prop where
  stores : Stores store L e.chunks
  nodup : (ids e.chunks).Nodup
  alone : ∀ M ≠ L, Agree M .new store

section

variable (h : Holds store L e)
include h

lemma Holds.reaches (u : Update Item Gap) : Reaches L store u := by
  cases u with
  | replaceItem «at» item =>
    refine fun row hfind => .inl ?_
    by_contra hL
    have hrows := (h.alone _ hL).itemsChunks
    have hmem : row ∈ store.itemsChunks.filter (·.linkedChunkId == row.linkedChunkId) :=
      List.mem_filter.2 ⟨List.mem_of_find?_eq_some hfind, by simp⟩
    rw [hrows] at hmem
    cases hmem
  | _ => trivial

lemma Holds.spares (u : Update Item Gap) : Spares L store u := by
  have hreach := h.reaches u
  cases u with
  | replaceItem «at» item => exact fun row hfind => (hreach row hfind).imp_right And.left
  | _ => trivial

lemma Holds.step {u : Update Item Gap} (hs : StoreStep cap e u e') :
    ∃ store', store.applyUpdate L u = .ok (.ok (), store') ∧ Holds store' L e' := by
  have hnext : ∃ store', store.applyUpdate L u = .ok (.ok (), store') ∧ Stores store' L e'.chunks ∧
      (ids e'.chunks).Nodup := by
    cases hs with
    | step hs hd =>
      obtain ⟨store', happly, hstores⟩ := h.stores.step h.nodup hs
        (nodup_itemIds_of_sublist e'.flatten_chunks_sublist hd) (h.reaches u)
      exact ⟨store', happly, hstores, hs.nodup h.nodup⟩
    | clear =>
      obtain ⟨store', happly, hstores⟩ := stores_clear store L
      exact ⟨store', happly, hstores, List.nodup_nil⟩
  obtain ⟨store', happly, hstores, hn⟩ := hnext
  refine ⟨store', happly, hstores, hn, fun M hM => ?_⟩
  exact (h.alone M hM).trans ((applyUpdate_frame happly).2 (h.spares u) M hM)

/-- **A run of steps is replayed without an error.** -/
theorem Holds.replay (hs : Trace (StoreStep cap) e us e') :
    ∃ store', store.applyUpdates L us = .ok (.ok (), store') ∧ Holds store' L e' := by
  induction hs generalizing store with
  | nil => exact ⟨store, rfl, h⟩
  | cons hstep _ ih =>
    obtain ⟨store₁, happly, h₁⟩ := h.step hstep
    obtain ⟨store', hrest, h'⟩ := ih h₁
    refine ⟨store', ?_, h'⟩
    rw [applyUpdates, happly]
    exact hrest

end

end RelationalLinkedChunk

/-! ## Sessions -/

open RelationalLinkedChunk LinkedChunk

/-- A linked chunk with its history of updates, the updates that its main reader has taken and not
yet applied, and the store. The linked items always have distinct identifiers. -/
inductive Persisted (cap : ℕ) (L : LinkedChunkId) :
    LinkedChunk Item Gap → List (Update Item Gap) → RelationalLinkedChunk ItemId Item Gap → Prop
  | new : Persisted cap L .newWithUpdateHistory [] .new
  | step {s s' : LinkedChunk Item Gap} {taken : List (Update Item Gap)}
      {store : RelationalLinkedChunk ItemId Item Gap} {op : Op Item Gap}
      {r : Except OpError (Outcome Item Gap)} {cs : List (PlainChunk Item Gap)}
      (h : Persisted cap L s taken store) (hop : op.IsEdit ∨ op = .clear)
      (hs : s.step cap op = .ok (r, s')) (hloaded : s'.loaded = .ok cs)
      (hd : (itemIds (flatten cs)).Nodup) : Persisted cap L s' taken store
  /-- `ObservableUpdates::take` -/
  | take {s s' : LinkedChunk Item Gap} {taken us : List (Update Item Gap)}
      {store : RelationalLinkedChunk ItemId Item Gap} (h : Persisted cap L s taken store)
      (ht : s.takeUpdates UpdatesInner.mainReaderToken =
        .ok (us, s')) : Persisted cap L s' (taken ++ us) store
  /-- other readers of the updates -/
  | other {s : LinkedChunk Item Gap} {taken : List (Update Item Gap)}
      {store : RelationalLinkedChunk ItemId Item Gap} {inner inner' : UpdatesInner (Update Item Gap)}
      {e : UpdatesInner.Event (Update Item Gap)} {log : List (ℕ × List (Update Item Gap))}
      (h : Persisted cap L s taken store) (hu : s.updates = some inner) (he : e.IsRead)
      (hother : ¬ e.Concerns UpdatesInner.mainReaderToken) (hs : inner.step e = some (inner', log)) :
      Persisted cap L { s with updates := some inner' } taken store
  | apply {s : LinkedChunk Item Gap} {us taken : List (Update Item Gap)}
      {store store' : RelationalLinkedChunk ItemId Item Gap} (h : Persisted cap L s (us ++ taken) store)
      (ha : store.applyUpdates L us = .ok (.ok (), store')) : Persisted cap L s taken store'

variable {cap : ℕ} {L : LinkedChunkId} {s : LinkedChunk Item Gap} {taken : List (Update Item Gap)}
  {store : RelationalLinkedChunk ItemId Item Gap}

/-- **The updates on their way lead the store to the chunks in memory.** -/
theorem Persisted.follows (h : Persisted cap L s taken store) :
    ∃ e, Holds store L e ∧ Follows cap s taken e := by
  induction h with
  | new =>
    exact ⟨.settled [], ⟨⟨.nil, .nil, by simp [Edit.chunks]⟩, by simp [Edit.chunks], fun M _ => .refl M _⟩, follows_new⟩
  | step _ hop hs hloaded hd ih =>
    obtain ⟨e, hholds, hfollows⟩ := ih
    exact ⟨e, hholds, hfollows.step hop hs hloaded hd⟩
  | take _ ht ih =>
    obtain ⟨e, hholds, hfollows⟩ := ih
    exact ⟨e, hholds, hfollows.take ht⟩
  | other _ hu he hother hs ih =>
    obtain ⟨e, hholds, hfollows⟩ := ih
    exact ⟨e, hholds, hfollows.other hu he hother hs⟩
  | apply _ ha ih =>
    obtain ⟨e, hholds, a, q, cs, hreads, hready, hn, htaken, hqueue⟩ := ih
    obtain ⟨e₁, hus, hrest⟩ := htaken.of_append
    obtain ⟨store₁, ha₁, hholds₁⟩ := hholds.replay hus
    obtain ⟨-, rfl⟩ := Prod.mk.inj (Except.ok.inj (ha₁.symm.trans ha))
    exact ⟨e₁, hholds₁, a, q, cs, hreads, hready, hn, hrest, hqueue⟩

/-- **Replaying updates persists the linked chunk.** Taken updates are applied without an error,
however they are cut into batches. Once the rest is taken and applied, the store loads the chunks in
memory with their links, and the lazy loader rebuilds them from the last to the first, with a
generator whose next identifier no stored chunk has. -/
theorem replaying_persists (h : Persisted cap L s taken store) :
    (∀ us rest, taken = us ++ rest → ∃ store', store.applyUpdates L us = .ok (.ok (), store')) ∧
    ∃ us s' store' cs raws, s.takeUpdates UpdatesInner.mainReaderToken = .ok (us, s') ∧
      store.applyUpdates L (taken ++ us) = .ok (.ok (), store') ∧ s'.loaded = .ok cs ∧
      store'.loadAllChunks L = .ok raws ∧ raws.Perm (rawChunks none cs) ∧
      ∀ fuel ≥ cs.length, (cs = [] ∧ store'.reload cap L fuel = some none) ∨
        ∃ t, store'.reload cap L fuel = some (some t) ∧ t.loaded = .ok cs ∧
          ∀ id g, t.chunkIdentifierGenerator.next = .ok (id, g) → ∀ raw ∈ raws, raw.identifier ≠ id := by
  obtain ⟨e, hholds, a, q, cs, hreads, -, -, htaken, hqueue⟩ := h.follows
  refine ⟨?_, ?_⟩
  · rintro us rest rfl
    obtain ⟨e₁, hus, -⟩ := htaken.of_append
    obtain ⟨store', ha, -⟩ := hholds.replay hus
    exact ⟨store', ha⟩
  · obtain ⟨s', htake, hreads'⟩ := hreads.take
    obtain ⟨store', ha, hholds'⟩ := hholds.replay (htaken.append hqueue)
    obtain ⟨raws, hraws, hperm⟩ := hholds'.stores.loadAllChunks hholds'.nodup
    refine ⟨q, s', store', plain a.chunks, raws, htake, ha, loaded_eq hreads'.repr, hraws, hperm, ?_⟩
    intro fuel hfuel
    rcases hholds'.stores.reload hholds'.nodup hreads.wf.capacity hfuel with hnone | ⟨t, ht, hchunks, hle⟩
    · exact .inl hnone
    · refine .inr ⟨t, ht, hchunks, fun id g hnext raw hraw heq => ?_⟩
      have hid := (mem_rawChunks (hperm.mem_iff.1 hraw)).1
      cases next_ok hnext
      have := hle _ hid
      rw [heq] at this
      simp at this

theorem replaying_persists_three_items :
    ∃ r s us s' store' raws,
      (newWithUpdateHistory : LinkedChunk Char Unit).step 2 (.pushItemsBack ['x', 'y', 'z']) = .ok (r, s) ∧
      s.takeUpdates UpdatesInner.mainReaderToken = .ok (us, s') ∧
      (RelationalLinkedChunk.new : RelationalLinkedChunk Char Char Unit).applyUpdates (.room "a") us =
        .ok (.ok (), store') ∧
      store'.loadAllChunks (.room "a") = .ok raws ∧
      raws.Perm [⟨.items ['x', 'y'], none, ⟨0⟩, some ⟨1⟩⟩, ⟨.items ['z'], some ⟨0⟩, ⟨1⟩, none⟩] := by
  have key : ∀ {r s us s'} {cs : List (PlainChunk Char Unit)},
      (newWithUpdateHistory : LinkedChunk Char Unit).step 2 (.pushItemsBack ['x', 'y', 'z']) = .ok (r, s) →
      s.loaded = .ok cs → (itemIds (flatten cs)).Nodup →
      s.takeUpdates UpdatesInner.mainReaderToken = .ok (us, s') → s'.loaded = .ok cs →
      ∃ store' raws, (RelationalLinkedChunk.new : RelationalLinkedChunk Char Char Unit).applyUpdates (.room "a")
        us = .ok (.ok (), store') ∧ store'.loadAllChunks (.room "a") = .ok raws ∧
          raws.Perm (rawChunks none cs) := by
    intro r s us s' cs hs hloaded hd ht hloaded'
    have hop : (Op.pushItemsBack ['x', 'y', 'z'] : Op Char Unit).IsEdit := trivial
    have hp : Persisted 2 (.room "a") s [] (.new : RelationalLinkedChunk Char Char Unit) :=
      .step .new (.inl hop) hs hloaded hd
    obtain ⟨-, us₁, s₁, store', cs₁, raws, ht₁, ha, hl, hraws, hperm, -⟩ := replaying_persists hp
    obtain ⟨rfl, rfl⟩ := Prod.mk.inj (Except.ok.inj (ht₁.symm.trans ht))
    obtain rfl := Except.ok.inj (hl.symm.trans hloaded')
    exact ⟨store', raws, ha, hraws, hperm⟩
  obtain ⟨store', raws, ha, hraws, hperm⟩ := key rfl rfl (by decide) rfl rfl
  exact ⟨_, _, _, _, store', raws, rfl, rfl, ha, hraws, hperm⟩

end HaranaMatrix.Linked
