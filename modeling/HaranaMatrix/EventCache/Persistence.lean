import HaranaMatrix.Lib.Rows
import HaranaMatrix.Linked.Basic

/-!
# The metadata of a stored linked chunk

`load_linked_chunk_metadata` (`event_cache/persistence.rs`) gets the chunks of a linked chunk in any order. It walks back from
the last chunk to the first one, checks the links on its way, and then swaps every chunk into its place along the links.
-/

namespace HaranaMatrix.EventCache

open Linked List

structure InvalidLinkedChunkMetadata where
  details : String
deriving DecidableEq, Repr

/-- The chunk of the map with an identifier: the last one that was inserted. -/
def chunkMap (allChunks : List ChunkMetadata) (identifier : ChunkIdentifier) : Option ChunkMetadata :=
  allChunks.reverse.find? (·.identifier == identifier)

/-- `{:?}` of an optional index. -/
def debugIndex : Option ChunkIdentifier → String
  | none => "None"
  | some identifier => "Some(" ++ toString identifier.index ++ ")"

/-- The chain is rewound to its first chunk. A chunk that was seen is not walked over again, so
`fuel` is never used up. -/
def rewind (allChunks : List ChunkMetadata) :
    ℕ → List ChunkIdentifier → ChunkMetadata → Except Fault (Except InvalidLinkedChunkMetadata ChunkMetadata)
  | 0, _, _ => .error .stackOverflow
  | fuel + 1, seen, current =>
    if current.identifier ∈ seen then
      .ok (.error ⟨"cycle detected in linked chunk at " ++ toString current.identifier.index⟩)
    else
      let seen := current.identifier :: seen
      match current.previous with
      | none =>
        if seen.length ≠ allChunks.length then
          .ok (.error ⟨"linked chunk likely has multiple components: " ++ toString seen.length ++
            " chunks seen through the chain of predecessors, but " ++ toString allChunks.length ++ " expected"⟩)
        else .ok (.ok current)
      | some prevId =>
        match chunkMap allChunks prevId with
        | none =>
          .ok (.error ⟨"missing predecessor " ++ toString prevId.index ++ " chunk for " ++
            toString current.identifier.index⟩)
        | some predMeta =>
          if predMeta.next ≠ some current.identifier then
            .ok (.error ⟨"chunk " ++ toString predMeta.identifier.index ++ "'s next (" ++ debugIndex predMeta.next ++
              ") doesn't match the current chunk (" ++ toString current.identifier.index ++ ")"⟩)
          else rewind allChunks fuel seen predMeta

/-- `slice::swap` -/
def swapAt {α : Type} (xs : List α) (i j : ℕ) : List α :=
  match xs[i]?, xs[j]? with
  | some x, some y => (xs.set i y).set j x
  | _, _ => xs

/-- The loop that swaps `n` more chunks into their places, from the place `i` on. -/
def reorder : ℕ → ℕ → ChunkIdentifier → List ChunkMetadata → Except Fault (List ChunkMetadata)
  | 0, _, _, allChunks => .ok allChunks
  | n + 1, i, current, allChunks =>
    match allChunks.reverse.findIdx? (·.identifier == current) with
    | none => .error .assertion
    | some position =>
      let j := allChunks.length - 1 - position
      let allChunks := if i ≠ j then swapAt allChunks i j else allChunks
      match allChunks[i]? with
      | none => .error .assertion
      | some metadata => reorder n (i + 1) (metadata.next.getD current) allChunks

/-- `load_linked_chunk_metadata`, with what the store returned. -/
def loadLinkedChunkMetadata (allChunks : List ChunkMetadata) :
    Except Fault (Except InvalidLinkedChunkMetadata (Option (List ChunkMetadata))) :=
  if allChunks.isEmpty then .ok (.ok none)
  else
    match allChunks.filter (·.next.isNone) with
    | [] => .ok (.error ⟨"no last chunk found"⟩)
    | last :: otherLast :: _ =>
      .ok (.error ⟨"chunks " ++ toString last.identifier.index ++ " and " ++ toString otherLast.identifier.index ++
        " both claim to be last chunks"⟩)
    | [last] => do
      match ← rewind allChunks (allChunks.length + 1) [] last with
      | .error e => .ok (.error e)
      | .ok first =>
        let allChunks ← reorder allChunks.length 0 first.identifier allChunks
        .ok (.ok (some allChunks))

/-! ## Chains -/

/-- The chunks follow each other by their links, both ways, after the chunk `previous`. -/
def Links : Option ChunkIdentifier → List ChunkMetadata → Prop
  | _, [] => True
  | previous, m :: ms =>
    m.previous = previous ∧ m.next = ms.head?.map (·.identifier) ∧ Links (some m.identifier) ms

/-- **A well-linked chain**: the first chunk has no previous one, the last has no next one, and
neighbours name each other. -/
structure WellLinked (chunks : List ChunkMetadata) : Prop where
  distinct : (chunks.map (·.identifier)).Nodup
  links : Links none chunks

variable {allChunks : List ChunkMetadata} {current first m : ChunkMetadata}

lemma chunkMap_of_mem (hdistinct : (allChunks.map (·.identifier)).Nodup) (hm : m ∈ allChunks) :
    chunkMap allChunks m.identifier = some m := by
  have hmem : m.identifier ∈ allChunks.reverse.map (·.identifier) := by simpa using ⟨m, hm, rfl⟩
  have hnodup : (allChunks.reverse.map (·.identifier)).Nodup := by
    rw [map_reverse]
    exact nodup_reverse.2 hdistinct
  obtain ⟨m', hm', hfilter⟩ := Rows.exists_filter_eq_singleton hnodup hmem
  have hm'' : m ∈ allChunks.reverse.filter fun r => r.identifier == m.identifier :=
    mem_filter.2 ⟨mem_reverse.2 hm, by simp⟩
  rw [hfilter, mem_singleton] at hm''
  rw [chunkMap, Rows.find?_of_filter hfilter, hm'']

lemma mem_of_chunkMap {identifier : ChunkIdentifier} (h : chunkMap allChunks identifier = some m) :
    m ∈ allChunks ∧ m.identifier = identifier := by
  refine ⟨mem_reverse.1 (mem_of_find?_eq_some h), ?_⟩
  simpa using List.find?_some h

/-! ## The way back -/

section Rewind

variable {rest : List ChunkMetadata} {fuel : ℕ}

/-- The walk stands at `current`, after it has seen `rest`. -/
structure Walk (allChunks rest : List ChunkMetadata) (current : ChunkMetadata) : Prop where
  links : Links current.previous (current :: rest)
  distinct : (rest.map (·.identifier)).Nodup
  mem : ∀ m ∈ current :: rest, m ∈ allChunks

lemma Walk.length_le (h : Walk allChunks rest current) : rest.length ≤ allChunks.length := by
  have hsub : rest ⊆ allChunks := fun m hm => h.mem m (mem_cons_of_mem _ hm)
  exact (subperm_of_subset (.of_map _ h.distinct) hsub).length_le

/-- **The walk ends**, and when it finds no fault it has gone along a chain of all chunks. -/
lemma Walk.rewind (h : Walk allChunks rest current) (hfuel : allChunks.length < fuel + rest.length) :
    ∃ r, rewind allChunks fuel (rest.map (·.identifier)) current = .ok r ∧
      ∀ first, r = .ok first → ∃ path, (first :: path).Perm allChunks ∧ WellLinked (first :: path) := by
  induction fuel generalizing rest current with
  | zero =>
    have := h.length_le
    omega
  | succ fuel ih =>
    unfold EventCache.rewind
    split
    · exact ⟨_, rfl, nofun⟩
    next hnew =>
    have hdistinct : ((current :: rest).map (·.identifier)).Nodup := nodup_cons.2 ⟨hnew, h.distinct⟩
    dsimp only
    split
    · next hprevious =>
      split
      · exact ⟨_, rfl, nofun⟩
      next hlength =>
      refine ⟨_, rfl, fun first hfirst => ?_⟩
      cases hfirst
      have hlinks := h.links
      rw [hprevious] at hlinks
      refine ⟨rest, ?_, hdistinct, hlinks⟩
      refine (subperm_of_subset (.of_map _ hdistinct) h.mem).perm_of_length_le ?_
      simpa using (not_not.1 hlength).ge
    · next prevId hprevious =>
      split
      · exact ⟨_, rfl, nofun⟩
      next predMeta hpred =>
      obtain ⟨hmem, rfl⟩ := mem_of_chunkMap hpred
      split
      · exact ⟨_, rfl, nofun⟩
      next hnext =>
      have hwalk : Walk allChunks (current :: rest) predMeta := by
        refine ⟨⟨rfl, not_not.1 hnext, ?_⟩, hdistinct, ?_⟩
        · rw [← hprevious]
          exact h.links
        · exact forall_mem_cons.2 ⟨hmem, h.mem⟩
      exact ih hwalk (by simp only [length_cons]; omega)

lemma Links.of_append {previous : Option ChunkIdentifier} {pre : List ChunkMetadata}
    (h : Links previous (pre ++ rest)) :
    ∃ previous, Links previous rest := by
  induction pre generalizing previous with
  | nil => exact ⟨previous, h⟩
  | cons m pre ih => exact ih h.2.2

/-- **A well-linked chain is rewound to its first chunk.** -/
lemma rewind_wellLinked {pre : List ChunkMetadata} (h : WellLinked (pre ++ current :: rest))
    (hperm : (pre ++ current :: rest).Perm allChunks) (hfuel : pre.length < fuel) :
    ∃ first, (pre ++ [current]).head? = some first ∧
      EventCache.rewind allChunks fuel (rest.map (·.identifier)) current = .ok (.ok first) := by
  induction pre using List.reverseRecOn generalizing current rest fuel with
  | nil =>
    refine ⟨current, rfl, ?_⟩
    obtain ⟨fuel, rfl⟩ := Nat.exists_eq_add_one_of_ne_zero hfuel.ne'
    have hnew := (nodup_cons.1 h.distinct).1
    have hlength : rest.length + 1 = allChunks.length := hperm.length_eq
    have hprevious : current.previous = none := h.links.1
    simp [EventCache.rewind, hnew, hprevious, hlength]
  | append_singleton pre p ih =>
    obtain ⟨fuel, rfl⟩ := Nat.exists_eq_add_one_of_ne_zero (Nat.ne_zero_of_lt hfuel)
    rw [append_assoc, singleton_append] at h hperm
    have hdistinct : (allChunks.map (·.identifier)).Nodup := (hperm.map _).nodup_iff.1 h.distinct
    obtain ⟨previous, hlinks⟩ := h.links.of_append
    have hnext : p.next = some current.identifier := hlinks.2.1
    have hprevious : current.previous = some p.identifier := hlinks.2.2.1
    have hnew : current.identifier ∉ rest.map (·.identifier) := by
      have hsub := (sublist_append_right (pre ++ [p]) (current :: rest)).map (·.identifier)
      rw [append_assoc, singleton_append] at hsub
      exact (nodup_cons.1 (h.distinct.sublist hsub)).1
    have hfuel' : pre.length < fuel := by simpa using hfuel
    obtain ⟨first, hfirst, hrewind⟩ := ih h hperm hfuel'
    refine ⟨first, by rw [List.head?_append, hfirst]; rfl, ?_⟩
    have hp : chunkMap allChunks p.identifier = some p := chunkMap_of_mem hdistinct (hperm.mem_iff.1 (by simp))
    unfold EventCache.rewind
    simp only [hnew, if_false, hprevious, hp, hnext, ne_eq, not_true_eq_false]
    exact hrewind

end Rewind

/-! ## The swaps -/

section Reorder

lemma swapAt_append {α : Type} (P Q R : List α) (x y : α) :
    swapAt (P ++ x :: Q ++ y :: R) P.length (P.length + Q.length + 1) = P ++ y :: Q ++ x :: R := by
  have hx : (P ++ x :: Q ++ y :: R)[P.length]? = some x := by simp
  have hy : (P ++ x :: Q ++ y :: R)[P.length + Q.length + 1]? = some y := by
    simp [Nat.add_assoc]
  unfold swapAt
  simp [Nat.add_assoc]

lemma findIdx?_reverse {A B : List ChunkMetadata} (h : ∀ b ∈ B, b.identifier ≠ m.identifier) :
    (A ++ m :: B).reverse.findIdx? (·.identifier == m.identifier) = some B.length := by
  have hB : B.reverse.findIdx? (·.identifier == m.identifier) = none := by
    simpa [List.findIdx?_eq_none_iff] using h
  rw [reverse_append, reverse_cons, append_assoc, List.findIdx?_append, hB]
  simp [List.findIdx?_cons]

/-- **Every turn puts the next chunk of the chain in its place.** -/
lemma reorder_spec {done todo rest : List ChunkMetadata} {previous : Option ChunkIdentifier}
    {current : ChunkIdentifier}
    (hperm : rest.Perm todo) (hdistinct : ((done ++ todo).map (·.identifier)).Nodup)
    (hlinks : Links previous todo) (hcurrent : ∀ m ∈ todo.head?, m.identifier = current) :
    reorder todo.length done.length current (done ++ rest) = .ok (done ++ todo) := by
  induction todo generalizing done rest previous current with
  | nil => rw [hperm.eq_nil]; rfl
  | cons m todo ih =>
    obtain rfl : m.identifier = current := hcurrent m rfl
    obtain ⟨A, B, rfl⟩ := append_of_mem (hperm.mem_iff.2 mem_cons_self)
    have hrest : (A ++ B).Perm todo := (perm_middle.symm.trans hperm).cons_inv
    have hnew : m.identifier ∉ todo.map (·.identifier) := by
      rw [map_append, map_cons] at hdistinct
      exact (nodup_cons.1 (nodup_append.1 hdistinct).2.1).1
    -- The chunk stands behind `A`, and is swapped with the first one of it.
    have hplace : (done ++ (A ++ m :: B)).reverse.findIdx? (·.identifier == m.identifier) =
      some B.length := by
      rw [← append_assoc]
      refine findIdx?_reverse fun b hb heq => hnew ?_
      rw [← heq]
      exact mem_map_of_mem (hrest.mem_iff.1 (mem_append_right _ hb))
    have hj : (done ++ (A ++ m :: B)).length - 1 - B.length = done.length + A.length := by
      simp only [length_append, length_cons]
      omega
    obtain ⟨rest, hswap, hperm'⟩ : ∃ rest, (if done.length ≠ done.length + A.length then
        swapAt (done ++ (A ++ m :: B)) done.length (done.length + A.length) else done ++ (A ++ m :: B)) =
          done ++ m :: rest ∧ rest.Perm todo := by
      cases A with
      | nil => exact ⟨B, by simp, hrest⟩
      | cons a A =>
        refine ⟨A ++ a :: B, ?_, perm_middle.trans hrest⟩
        have := swapAt_append done A B a m
        simpa [Nat.add_assoc] using this
    rw [length_cons, reorder]
    simp only [hplace, hj, hswap]
    have hstep := @ih (done ++ [m]) rest (some m.identifier) (m.next.getD m.identifier) hperm' (by simpa using hdistinct)
      hlinks.2.2 ?_
    · simpa using hstep
    · intro m' hm'
      rw [hlinks.2.1, hm']
      rfl

end Reorder

/-! ## The metadata that is accepted -/

lemma Links.filter_last {previous : Option ChunkIdentifier} {pre : List ChunkMetadata} {last : ChunkMetadata}
    (h : Links previous (pre ++ [last])) : (pre ++ [last]).filter (·.next.isNone) = [last] := by
  induction pre generalizing previous with
  | nil =>
    have hnext : last.next = none := h.2.1
    simp [hnext]
  | cons m pre ih =>
    have hnext : m.next.isNone = false := by
      rw [h.2.1]
      cases pre <;> rfl
    rw [cons_append, filter_cons_of_neg (by simp [hnext]), ih h.2.2]

lemma reorder_wellLinked {path : List ChunkMetadata} (hperm : (first :: path).Perm allChunks)
    (h : WellLinked (first :: path)) :
    reorder allChunks.length 0 first.identifier allChunks = .ok (first :: path) := by
  have hreorder := @reorder_spec [] (first :: path) allChunks none first.identifier hperm.symm h.distinct h.links
    (by simp)
  rwa [hperm.length_eq] at hreorder

/-- **A well-linked chain is accepted**, in whatever order it is given. -/
lemma loadLinkedChunkMetadata_wellLinked {v : List ChunkMetadata} (hv : v ≠ []) (hperm : v.Perm allChunks)
    (h : WellLinked v) : loadLinkedChunkMetadata allChunks = .ok (.ok (some v)) := by
  obtain ⟨pre, last, rfl⟩ : ∃ pre last, v = pre ++ [last] := ⟨_, _, (dropLast_append_getLast hv).symm⟩
  have hfilter : allChunks.filter (·.next.isNone) = [last] := by
    refine perm_singleton.1 ?_
    rw [← h.links.filter_last]
    exact (hperm.filter _).symm
  have hlength : pre.length < allChunks.length + 1 := by
    rw [← hperm.length_eq]
    simp
  obtain ⟨first, hfirst, hrewind⟩ := rewind_wellLinked h hperm hlength
  obtain ⟨path, hpath⟩ : ∃ path, pre ++ [last] = first :: path := List.head?_eq_some_iff.1 hfirst
  have hne : allChunks.isEmpty = false := by
    cases allChunks with
    | nil => exact absurd hperm.eq_nil hv
    | cons m ms => rfl
  rw [hpath] at hperm h ⊢
  rw [map_nil] at hrewind
  simp only [loadLinkedChunkMetadata, hne, hfilter, hrewind, reorder_wellLinked hperm h, ok_bind]
  rfl

/-- **What is accepted is a well-linked chain.** -/
lemma exists_loadLinkedChunkMetadata (allChunks : List ChunkMetadata) :
    ∃ r, loadLinkedChunkMetadata allChunks = .ok r ∧ (r = .ok none ↔ allChunks = []) ∧
      ∀ v, r = .ok (some v) → v ≠ [] ∧ v.Perm allChunks ∧ WellLinked v := by
  unfold loadLinkedChunkMetadata
  split
  · next hempty => exact ⟨_, rfl, by simpa using hempty, nofun⟩
  next hempty =>
  have hne : allChunks ≠ [] := by simpa using hempty
  split
  · exact ⟨_, rfl, by simp [hne], nofun⟩
  · exact ⟨_, rfl, by simp [hne], nofun⟩
  next last hlast =>
  have hmem : last ∈ allChunks.filter (·.next.isNone) := by simp [hlast]
  rw [mem_filter, Option.isNone_iff_eq_none] at hmem
  have hwalk : Walk allChunks [] last := ⟨⟨rfl, hmem.2, trivial⟩, nodup_nil, by simpa using hmem.1⟩
  obtain ⟨r, hr, hpath⟩ := hwalk.rewind (Nat.lt_succ_self _)
  rw [map_nil] at hr
  rw [hr, ok_bind]
  cases r with
  | error e => exact ⟨_, rfl, by simp [hne], nofun⟩
  | ok first =>
    obtain ⟨path, hperm, hlinked⟩ := hpath first rfl
    dsimp only
    rw [reorder_wellLinked hperm hlinked]
    refine ⟨.ok (some (first :: path)), rfl, by simp [hne], ?_⟩
    rintro v ⟨⟩
    exact ⟨by simp, hperm, hlinked⟩

/-- **Exactly the well-linked chains are accepted, and sorted**: the walks end without a panic, no
chunk at all is no linked chunk, and chunks that are given in any order are put in the order of
their links, if they have one. -/
theorem loadLinkedChunkMetadata_spec (allChunks : List ChunkMetadata) :
    ∃ r, loadLinkedChunkMetadata allChunks = .ok r ∧ (r = .ok none ↔ allChunks = []) ∧
      ∀ v, r = .ok (some v) ↔ v ≠ [] ∧ v.Perm allChunks ∧ WellLinked v := by
  obtain ⟨r, hr, hnone, hsound⟩ := exists_loadLinkedChunkMetadata allChunks
  refine ⟨r, hr, hnone, fun v => ⟨hsound v, fun ⟨hv, hperm, h⟩ => ?_⟩⟩
  cases hr.symm.trans (loadLinkedChunkMetadata_wellLinked hv hperm h)
  rfl

example : loadLinkedChunkMetadata [⟨1, some ⟨4⟩, ⟨2⟩, none⟩, ⟨0, none, ⟨4⟩, some ⟨2⟩⟩] =
    .ok (.ok (some [⟨0, none, ⟨4⟩, some ⟨2⟩⟩, ⟨1, some ⟨4⟩, ⟨2⟩, none⟩])) := rfl

end HaranaMatrix.EventCache
