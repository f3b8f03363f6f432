import HaranaMatrix.Linked.Invariant

/-!
# What a reader of updates gets

A reader holds a token of the shared buffer. `Reads` ties its unread updates to the chunks: after
every operation they are the old ones and those of the operation, or only what follows a `Clear`. -/

namespace HaranaMatrix.Linked

open UpdatesInner

variable {Item Gap : Type}

/-! ## The queue of a reader -/

/-- The unread updates of a reader, once `us` are emitted. A `Clear` discards what is pending. -/
def enqueue (queue us : List (Update Item Gap)) : List (Update Item Gap) :=
  us.foldl (fun q u =>
    match u with
    | .clear => [.clear]
    | u => q ++ [u]) queue

section Enqueue

variable {base : Option ChunkIdentifier} {cap limit : ℕ} {e e' : Edit Item Gap} {u : Update Item Gap}
  {us : List (Update Item Gap)} {inner : UpdatesInner (Update Item Gap)} {t : ℕ}
  {q : List (Update Item Gap)}

lemma Step.ne_clear (h : Step base cap limit e u e') : u ≠ .clear := by
  rintro rfl
  -- only a new chunk is announced by a function
  generalize hu : (.clear : Update Item Gap) = u at h
  cases h with
  | newChunk _ _ _ content | newChunkDetached _ _ _ _ _ _ content => cases content <;> cases hu
  | _ => cases hu

lemma enqueue_steps (h : Steps base cap limit e us e') (q : List (Update Item Gap)) :
    enqueue q us = q ++ us := by
  induction h generalizing q with
  | nil => simp [enqueue]
  | @cons _ _ _ u us hstep _ ih =>
    have hone : enqueue q (u :: us) = enqueue (q ++ [u]) us := by
      have := hstep.ne_clear
      cases u <;> first | rfl | exact absurd rfl this
    rw [hone, ih]
    simp

lemma enqueue_clear (h : Steps base cap limit e us e') (q : List (Update Item Gap)) :
    enqueue q (.clear :: us) = .clear :: us :=
  enqueue_steps h [.clear]

lemma emitOne_spec (h : inner.Inv) (hq : inner.unread t = some q) (u : Update Item Gap) :
    (emitOne inner u).Inv ∧ (emitOne inner u).unread t = some (enqueue q [u]) := by
  cases u with
  | clear =>
    have hc := h.step (e := .clearPending) rfl
    exact ⟨hc.step (e := .push .clear) rfl, inner.clearPending.unread_push hc (unread_clearPending hq) _⟩
  | _ => exact ⟨h.step (e := .push _) rfl, unread_push h hq _⟩

/-- **What a reader has not read yet, after updates are emitted.** -/
lemma emit_spec (h : inner.Inv) (hq : inner.unread t = some q) (us : List (Update Item Gap)) :
    ∃ inner', emit (some inner) us = some inner' ∧ inner'.Inv ∧ inner'.unread t = some (enqueue q us) := by
  refine ⟨_, rfl, ?_⟩
  induction us generalizing inner q with
  | nil => exact ⟨h, hq⟩
  | cons u us ih =>
    obtain ⟨h₁, h₂⟩ := emitOne_spec h hq u
    exact ih h₁ h₂

lemma emit_inv {inner' : UpdatesInner (Update Item Gap)} (h : inner.Inv)
    (he : emit (some inner) us = some inner') : inner'.Inv := by
  cases he
  induction us generalizing inner with
  | nil => exact h
  | cons u us ih =>
    refine ih ?_
    cases u with
    | clear => exact (h.step (e := .clearPending) rfl).step (e := .push .clear) rfl
    | _ => exact h.step (e := .push _) rfl

end Enqueue

/-! ## The updates of any operation -/

namespace Chain

variable {cap : ℕ} {a : Chain Item Gap}

lemma newFirstChunk_steps (c : ChunkData Item Gap) (post : List (ChunkData Item Gap))
    (hid : c.identifier ∉ ids (plain post)) (hcap : c.content.numItems ≤ cap) :
    Steps c.lazyPrevious cap c.identifier.index (.settled (plain post))
      (newFirstChunkUpdates c (headId post)) (.settled (plain (c :: post))) := by
  obtain ⟨lazyPrevious, id, content⟩ := c
  rw [headId_eq]
  cases content with
  | gap gap =>
    exact .single (@Step.newChunk _ _ lazyPrevious cap id.index [] (plain post) id (.gap gap) rfl hid le_rfl)
  | items xs =>
    refine .cons (@Step.newChunk _ _ lazyPrevious cap id.index [] (plain post) id (.items []) rfl hid le_rfl) (.single ?_)
    exact Step.pushItems [] (plain post) id [] xs (by simpa using hcap)

lemma touch_of_lazyPrevious {first : ChunkData Item Gap} {rest : List (ChunkData Item Gap)}
    {p : ChunkIdentifier} (h : a.touch.1.chunks = first :: rest) (hl : first.lazyPrevious = some p) :
    a.touch = (a, []) := by
  obtain ⟨_ | ⟨c, cs⟩, g⟩ := a
  · obtain ⟨rfl, -⟩ := List.cons.inj h
    cases hl
  · rfl

lemma insertNewFirstChunk_updates (h : a.Wf cap) (chunk : RawChunk Item Gap)
    (hwf : (a.insertNewFirstChunk cap chunk).2.1.Wf cap) :
    ∃ base limit, Steps base cap limit (.settled (plain a.chunks)) (a.insertNewFirstChunk cap chunk).2.2
      (.settled (plain (a.insertNewFirstChunk cap chunk).2.1.chunks)) := by
  rcases insertNewFirstChunk_cases cap a chunk with ⟨-, heq | heq⟩ | ⟨first, rest, hchunks, hcap, -, -, hlazy, heq⟩
  · rw [heq]
    exact ⟨none, 0, .nil _⟩
  · rw [heq]
    exact ⟨_, _, (touch_emitted cap h.ready_base).steps⟩
  · have ht := touch_of_lazyPrevious hchunks hlazy
    rw [heq, ht] at hwf
    rw [ht] at hchunks
    rw [heq, ht]
    have hid := (List.nodup_cons.1 (List.nodup_append.1 hwf.nodup).2.1).1
    have := newFirstChunk_steps ⟨chunk.previous, chunk.identifier, chunk.content⟩
      ({ first with lazyPrevious := none } :: rest) hid (Nat.le_of_not_lt hcap)
    rw [hchunks]
    exact ⟨_, _, this⟩

lemma replaceWith_updates (a : Chain Item Gap) (chunk : Option (RawChunk Item Gap))
    (g : ChunkIdentifierGenerator) : (a.replaceWith cap chunk g).2 = (a, []) ∨
    ∃ base limit vs, (a.replaceWith cap chunk g).2.2 = .clear :: vs ∧
      Steps base cap limit (.settled []) vs (.settled (plain (a.replaceWith cap chunk g).2.1.chunks)) := by
  rcases replaceWith_cases cap a chunk g with ⟨-, heq⟩ | ⟨-, heq⟩ | ⟨c, -, hcap, -, heq⟩
  · exact .inl heq
  · rw [heq]
    exact .inr ⟨none, 0, [], rfl, .nil _⟩
  · rw [heq]
    exact .inr ⟨_, _, _, rfl, newFirstChunk_steps ⟨c.previous, c.identifier, c.content⟩ [] (by simp)
      (Nat.le_of_not_lt hcap)⟩

/-- **The updates of any operation** are a run of steps from the old chunks to the new ones, or a
`Clear` and a run of steps from no chunk at all. -/
theorem step_updates (h : a.Wf cap) {op : Op Item Gap} (hop : a.Loadable op) {y}
    (hs : a.step cap op = .ok y) :
    (∃ base limit, Steps base cap limit (.settled (plain a.chunks)) y.2.2 (.settled (plain y.2.1.chunks))) ∨
    ∃ base limit vs, y.2.2 = .clear :: vs ∧
      Steps base cap limit (.settled []) vs (.settled (plain y.2.1.chunks)) := by
  by_cases hedit : op.IsEdit
  · exact .inl ⟨_, _, (step_emitted hedit h.ready_base hs).steps⟩
  cases op with
  | clear =>
    cases hs
    exact .inr ⟨none, 0, [], rfl, .nil _⟩
  | insertNewFirstChunk chunk =>
    have hwf := step_wf h hop hs
    cases hs
    exact .inl (insertNewFirstChunk_updates h chunk hwf)
  | replaceWith chunk g =>
    cases hs
    refine (replaceWith_updates a chunk g).imp_left fun heq => ?_
    show ∃ base limit, Steps base cap limit _ (a.replaceWith cap chunk g).2.2
      (.settled (plain (a.replaceWith cap chunk g).2.1.chunks))
    rw [heq]
    exact ⟨none, 0, .nil _⟩
  | _ => exact absurd trivial hedit

end Chain

/-! ## A reader of a linked chunk -/

namespace LinkedChunk

variable {cap t t' : ℕ} {s s' : LinkedChunk Item Gap} {a : Chain Item Gap} {q : List (Update Item Gap)}

/-- `take_with_token`, on the buffer that a reader shares with the linked chunk. It panics when the
token is unknown. -/
def takeUpdates (s : LinkedChunk Item Gap) (token : ℕ) :
    Except Fault (List (Update Item Gap) × LinkedChunk Item Gap) :=
  match s.updates.bind fun inner => inner.takeWithToken token with
  | none => .error .assertion
  | some (updates, inner) => .ok (updates, { s with updates := some inner })

/-- **The chunks of a linked chunk, and the updates that the reader `t` has not read yet.** -/
structure Reads (cap : ℕ) (t : ℕ) (s : LinkedChunk Item Gap) (a : Chain Item Gap)
    (q : List (Update Item Gap)) : Prop where
  repr : Repr s a
  wf : a.Wf cap
  queue : ∃ inner, s.updates = some inner ∧ inner.Inv ∧ inner.unread t = some q

lemma Reads.step (h : Reads cap t s a q) {op : Op Item Gap} (hop : s.Loadable op) {r}
    (hs : s.step cap op = .ok (r, s')) :
    ∃ y, a.step cap op = .ok y ∧ y.1 = r ∧ Reads cap t s' y.2.1 (enqueue q y.2.2) := by
  obtain ⟨inner, hu, hi, hq⟩ := h.queue
  obtain ⟨y, hy, hres, hrepr, hupdates⟩ := (hs ▸ step_sim h.repr op).of_ok_left
  rw [hu] at hupdates
  obtain ⟨inner', he, hi', hq'⟩ := emit_spec hi hq y.2.2
  exact ⟨y, hy, hres.symm, hrepr, Chain.step_wf h.wf (h.repr.loadable hop) hy, inner',
    hupdates.trans he, hi', hq'⟩

lemma Reads.take (h : Reads cap t s a q) : ∃ s', s.takeUpdates t = .ok (q, s') ∧ Reads cap t s' a [] := by
  obtain ⟨inner, hu, hi, hq⟩ := h.queue
  obtain ⟨inner', ht, hi', hq', -⟩ := takeWithToken_spec hi hq
  refine ⟨{ s with updates := some inner' }, ?_, h.repr.setUpdates _, h.wf, inner', rfl, hi', hq'⟩
  simp [takeUpdates, hu, ht]

lemma Reads.other (h : Reads cap t s a q) {inner inner' : UpdatesInner (Update Item Gap)}
    {e : UpdatesInner.Event (Update Item Gap)} {log : List (ℕ × List (Update Item Gap))}
    (hu : s.updates = some inner) (he : e.IsRead) (hother : ¬ e.Concerns t)
    (hs : inner.step e = some (inner', log)) : Reads cap t { s with updates := some inner' } a q := by
  obtain ⟨inner₀, hu₀, hi, hq⟩ := h.queue
  obtain rfl : inner₀ = inner := Option.some.inj (hu₀.symm.trans hu)
  refine ⟨h.repr.setUpdates _, h.wf, inner', rfl, hi.step hs, ?_⟩
  exact unread_step hi hq he hother hs

lemma Reachable.inv (h : Reachable cap s) {inner : UpdatesInner (Update Item Gap)}
    (hu : s.updates = some inner) : inner.Inv := by
  induction h generalizing inner with
  | new => cases hu
  | newWithUpdateHistory =>
    cases hu
    exact inv_new
  | fromLastChunk hstore hs =>
    rw [fromLastChunk_updates hs] at hu
    cases hu
    exact inv_new
  | readUpdates _ hu₀ _ hs ih =>
    cases hu
    exact (ih hu₀).step hs
  | @step s s' op r h hop hs ih =>
    obtain ⟨a, hrepr, -⟩ := h.repr
    obtain ⟨y, -, -, -, hupdates⟩ := (hs ▸ step_sim hrepr op).of_ok_left
    cases hu₀ : s.updates with
    | none => simp [hu, hu₀, emit] at hupdates
    | some inner₀ =>
      rw [hu, hu₀] at hupdates
      exact emit_inv (ih hu₀) hupdates.symm

lemma Reachable.reads (h : Reachable cap s) {inner : UpdatesInner (Update Item Gap)}
    (hu : s.updates = some inner) :
    ∃ a, Reads cap inner.newReaderToken.1 { s with updates := some inner.newReaderToken.2 } a inner.updates := by
  obtain ⟨a, hrepr, hwf⟩ := h.repr
  exact ⟨a, hrepr.setUpdates _, hwf, _, rfl, (h.inv hu).step (e := .newReaderToken) rfl,
    unread_newReaderToken_self inner⟩

end LinkedChunk

end HaranaMatrix.Linked
