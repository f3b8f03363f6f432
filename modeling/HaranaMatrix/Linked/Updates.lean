import HaranaMatrix.Linked.Basic

/-!
# The updates buffer and its readers

One buffer of updates is shared by several readers, each with the index of its next update
(`linked_chunk/updates.rs`). A take first collects what every reader has read, so the indices move.

* `UpdatesInner` — the buffer, with the operations of the source;
* `Event`, `run` — any interleaving of pushes, new readers, takes, drops and clears;
* `received` — what a reader with a queue of its own would get, the abstract reader;
* `reader_receives_every_update_once` — the shared buffer gives each reader what its own queue would.
-/

namespace HaranaMatrix.Linked

open List

/-- `UpdatesInner`; a `ReaderToken` is a `usize`. The map of the readers is an association list,
with one entry for each token. The wakers are left out: no reader's updates depend on them. -/
structure UpdatesInner (U : Type) where
  updates : List U
  lastIndexPerReader : List (ℕ × ℕ)
  lastToken : ℕ

namespace UpdatesInner

variable {U : Type}

def mainReaderToken : ℕ := 0

def new : UpdatesInner U := ⟨[], [(mainReaderToken, 0)], mainReaderToken⟩

variable (s : UpdatesInner U)

def push (u : U) : UpdatesInner U := { s with updates := s.updates ++ [u] }

def clearPending : UpdatesInner U :=
  { s with updates := [], lastIndexPerReader := s.lastIndexPerReader.map fun x => (x.1, 0) }

def newReaderToken : ℕ × UpdatesInner U :=
  let lastToken := s.lastToken + 1
  (lastToken, { s with
    lastToken := lastToken
    lastIndexPerReader := (lastToken, 0) :: s.lastIndexPerReader.filter fun x => x.1 ≠ lastToken })

/-- The smallest index of a reader, or `0` when there is no reader. -/
def minIndex : ℕ := ((s.lastIndexPerReader.map Prod.snd).min?).getD 0

def garbageCollect : UpdatesInner U :=
  if 0 < s.minIndex then
    { s with
      updates := s.updates.drop s.minIndex
      lastIndexPerReader := s.lastIndexPerReader.map fun x => (x.1, x.2 - s.minIndex) }
  else s

/-- `take_with_token`; `none` when the token is unknown, or its index is beyond the buffer. -/
def takeWithToken (token : ℕ) : Option (List U × UpdatesInner U) :=
  let s := s.garbageCollect
  match s.lastIndexPerReader.lookup token with
  | none => none
  | some index =>
    if index ≤ s.updates.length then
      some (s.updates.drop index, { s with
        lastIndexPerReader := s.lastIndexPerReader.map fun x =>
          (x.1, if x.1 = token then s.updates.length else x.2) })
    else none

/-- `is_reader_up_to_date`; `none` when the token is unknown. -/
def isReaderUpToDate (token : ℕ) : Option Bool :=
  (s.lastIndexPerReader.lookup token).map fun index => index == s.updates.length

end UpdatesInner

/-- A subscriber holds a token of its own, never the one of the main reader. -/
structure UpdatesSubscriber where
  token : ℕ
  ne_main : token ≠ UpdatesInner.mainReaderToken

namespace UpdatesInner

variable {U : Type}

variable (s : UpdatesInner U)

/-- `UpdatesSubscriber::drop`. -/
def dropSubscriber (sub : UpdatesSubscriber) : UpdatesInner U :=
  { s with lastIndexPerReader := s.lastIndexPerReader.filter fun x => x.1 ≠ sub.token }

/-! ### Runs -/

/-- What can happen to the buffer. A garbage collection happens inside each take. -/
inductive Event (U : Type) where
  | push (u : U)
  | newReaderToken
  | takeWithToken (token : ℕ)
  | dropSubscriber (sub : UpdatesSubscriber)
  | clearPending

/-- The events of readers. The others come from the linked chunk. -/
def Event.IsRead : Event U → Prop
  | .newReaderToken | .takeWithToken _ | .dropSubscriber _ => True
  | .push _ | .clearPending => False

/-- The events of the reader `token` itself. -/
def Event.Concerns (token : ℕ) : Event U → Prop
  | .takeWithToken t => t = token
  | .dropSubscriber sub => sub.token = token
  | _ => False

/-- One event, with the updates it hands out and to whom. -/
def step : Event U → Option (UpdatesInner U × List (ℕ × List U))
  | .push u => some (s.push u, [])
  | .newReaderToken => some (s.newReaderToken.2, [])
  | .takeWithToken token => (s.takeWithToken token).map fun r => (r.2, [(token, r.1)])
  | .dropSubscriber sub => some (s.dropSubscriber sub, [])
  | .clearPending => some (s.clearPending, [])

/-- A sequence of events, with all the takes in order; `none` when one of them panics. -/
def run : UpdatesInner U → List (Event U) → Option (UpdatesInner U × List (ℕ × List U))
  | s, [] => some (s, [])
  | s, e :: es => do
    let (s, l) ← s.step e
    let (s, l') ← run s es
    some (s, l ++ l')

/-- The concatenation of the takes of one reader. -/
def takesOf (token : ℕ) (log : List (ℕ × List U)) : List U :=
  (log.filter fun x => x.1 = token).flatMap Prod.snd

/-- What a reader gets that has a queue of its own: each push enters the queue, a clear discards the
queue, and a take of this reader hands it out. -/
def received (token : ℕ) : List U → List (Event U) → List U
  | _, [] => []
  | queue, .push u :: es => received token (queue ++ [u]) es
  | _, .clearPending :: es => received token [] es
  | queue, .takeWithToken t :: es =>
    if t = token then queue ++ received token [] es else received token queue es
  | queue, .newReaderToken :: es => received token queue es
  | queue, .dropSubscriber _ :: es => received token queue es

/-- The pushed updates, in order. -/
def pushed (es : List (Event U)) : List U :=
  es.flatMap fun
    | .push u => [u]
    | _ => []

/-! ### The unread updates of a reader -/

/-- The part of the buffer that a reader has not read yet. -/
def unread (token : ℕ) : Option (List U) :=
  (s.lastIndexPerReader.lookup token).map fun index => s.updates.drop index

/-- Every index is within the buffer, and every token has been handed out. -/
structure Inv (s : UpdatesInner U) : Prop where
  index_le : ∀ x ∈ s.lastIndexPerReader, x.2 ≤ s.updates.length
  token_le : ∀ x ∈ s.lastIndexPerReader, x.1 ≤ s.lastToken

section Lookup

variable {l : List (ℕ × ℕ)} {t : ℕ}

lemma lookup_map (f : ℕ → ℕ → ℕ) (l : List (ℕ × ℕ)) (t : ℕ) :
    (l.map fun x => (x.1, f x.1 x.2)).lookup t = (l.lookup t).map (f t) := by
  induction l with
  | nil => rfl
  | cons x l ih =>
    obtain ⟨k, i⟩ := x
    by_cases hk : t = k
    · subst hk
      simp
    · have hb : (t == k) = false := by simpa using hk
      simp [lookup_cons, hb, ih]

lemma lookup_filter {k : ℕ} (hk : t ≠ k) (l : List (ℕ × ℕ)) :
    (l.filter fun x => x.1 ≠ k).lookup t = l.lookup t := by
  induction l with
  | nil => rfl
  | cons x l ih =>
    by_cases hx : x.1 = k
    · have hb : (t == x.1) = false := by simpa [hx] using hk
      rw [filter_cons_of_neg (by simpa using hx), ih, lookup_cons, hb]
    · rw [filter_cons_of_pos (by simpa using hx), lookup_cons, lookup_cons, ih]

lemma mem_of_lookup {i : ℕ} (h : l.lookup t = some i) : (t, i) ∈ l := by
  induction l with
  | nil => simp at h
  | cons x l ih =>
    rw [lookup_cons] at h
    split at h
    · rename_i hb
      have ht : t = x.1 := by simpa using hb
      have hi : x.2 = i := by simpa using h
      simp [ht, ← hi]
    · exact mem_cons_of_mem _ (ih h)

end Lookup

lemma minIndex_le : ∀ x ∈ s.lastIndexPerReader, s.minIndex ≤ x.2 := by
  intro x hx
  have hm : x.2 ∈ s.lastIndexPerReader.map Prod.snd := mem_map_of_mem hx
  unfold minIndex
  cases hmin : (s.lastIndexPerReader.map Prod.snd).min? with
  | none => exact Nat.zero_le _
  | some m => exact (List.min?_eq_some_iff.1 hmin).2 _ hm

/-! ### What each operation does to the unread updates -/

section Step

variable {s : UpdatesInner U} {t : ℕ} {q : List U}

lemma unread_garbageCollect (hq : s.unread t = some q) : s.garbageCollect.unread t = some q := by
  unfold garbageCollect
  split
  · obtain ⟨i, hi, rfl⟩ := Option.map_eq_some_iff.1 hq
    have hle := s.minIndex_le _ (mem_of_lookup hi)
    unfold unread
    simp only [lookup_map (fun _ i => i - s.minIndex), hi, Option.map_some, drop_drop]
    rw [Nat.add_sub_cancel' hle]
  · exact hq

lemma Inv.garbageCollect (h : s.Inv) : s.garbageCollect.Inv := by
  unfold UpdatesInner.garbageCollect
  split
  · refine ⟨fun x hx => ?_, fun x hx => ?_⟩
    · obtain ⟨y, hy, rfl⟩ := mem_map.1 hx
      have := h.index_le y hy
      simp only [length_drop]
      omega
    · obtain ⟨y, hy, rfl⟩ := mem_map.1 hx
      exact h.token_le y hy
  · exact h

lemma unread_push (h : s.Inv) (hq : s.unread t = some q) (u : U) : (s.push u).unread t = some (q ++ [u]) := by
  obtain ⟨i, hi, rfl⟩ := Option.map_eq_some_iff.1 hq
  have hle := h.index_le _ (mem_of_lookup hi)
  simp [unread, push, hi, drop_append_of_le_length hle]

lemma unread_newReaderToken (h : s.Inv) (hq : s.unread t = some q) :
    s.newReaderToken.2.unread t = some q := by
  obtain ⟨i, hi, rfl⟩ := Option.map_eq_some_iff.1 hq
  have ht : t ≠ s.lastToken + 1 := by
    have := h.token_le _ (mem_of_lookup hi)
    omega
  have hb : (t == s.lastToken + 1) = false := by simpa using ht
  simp only [unread, newReaderToken, lookup_cons, hb, lookup_filter ht, hi, Option.map_some]

lemma unread_newReaderToken_self (s : UpdatesInner U) :
    s.newReaderToken.2.unread s.newReaderToken.1 = some s.updates := by
  simp [unread, newReaderToken]

lemma unread_clearPending (hq : s.unread t = some q) : s.clearPending.unread t = some [] := by
  obtain ⟨i, hi, rfl⟩ := Option.map_eq_some_iff.1 hq
  simp [unread, clearPending, lookup_map (fun _ _ => 0), hi]

lemma unread_dropSubscriber {sub : UpdatesSubscriber} (ht : t ≠ sub.token) (hq : s.unread t = some q) :
    (s.dropSubscriber sub).unread t = some q := by
  simp only [unread, dropSubscriber, lookup_filter ht]
  exact hq

lemma takeWithToken_unknown (hq : s.unread t = none) : s.takeWithToken t = none := by
  have hl : s.lastIndexPerReader.lookup t = none := by simpa [unread] using hq
  have hnone : s.garbageCollect.lastIndexPerReader.lookup t = none := by
    unfold garbageCollect
    split
    · simp [lookup_map (fun _ i => i - s.minIndex), hl]
    · exact hl
  simp [takeWithToken, hnone]

lemma lookup_eq_none {l : List (ℕ × ℕ)} (h : t ∉ l.map Prod.fst) : l.lookup t = none := by
  cases hl : l.lookup t with
  | none => rfl
  | some i => exact absurd (mem_map_of_mem (f := Prod.fst) (mem_of_lookup hl)) h

lemma unread_of_mem (h : t ∈ s.lastIndexPerReader.map Prod.fst) : ∃ q, s.unread t = some q := by
  obtain ⟨x, hx, rfl⟩ := mem_map.1 h
  have : (s.lastIndexPerReader.lookup x.1).isSome := by
    rw [lookup_isSome_iff]
    exact ⟨x, hx, by simp⟩
  obtain ⟨i, hi⟩ := Option.isSome_iff_exists.1 this
  exact ⟨s.updates.drop i, by simp [unread, hi]⟩

/-- **A take hands out the unread updates, and leaves those of the other readers.** -/
theorem takeWithToken_spec (h : s.Inv) (hq : s.unread t = some q) :
    ∃ s', s.takeWithToken t = some (q, s') ∧ s'.Inv ∧ s'.unread t = some [] ∧
      ∀ t' q', t' ≠ t → s.unread t' = some q' → s'.unread t' = some q' := by
  have hg := h.garbageCollect
  obtain ⟨i, hi, hd⟩ := Option.map_eq_some_iff.1 (unread_garbageCollect hq)
  have hle := hg.index_le _ (mem_of_lookup hi)
  simp only [takeWithToken, hi, hd, if_pos hle]
  refine ⟨_, rfl, ⟨fun x hx => ?_, fun x hx => ?_⟩, ?_, fun t' q' ht' hq' => ?_⟩
  · obtain ⟨y, hy, rfl⟩ := mem_map.1 hx
    have := hg.index_le y hy
    simp only
    split <;> omega
  · obtain ⟨y, hy, rfl⟩ := mem_map.1 hx
    exact hg.token_le y hy
  · simp [unread, lookup_map (fun k i => if k = t then s.garbageCollect.updates.length else i), hi]
  · obtain ⟨j, hj, rfl⟩ := Option.map_eq_some_iff.1 (unread_garbageCollect hq')
    simp [unread, lookup_map (fun k i => if k = t then s.garbageCollect.updates.length else i), hj, ht']

lemma unread_step {s' : UpdatesInner U} {e : Event U} {l : List (ℕ × List U)} (h : s.Inv)
    (hq : s.unread t = some q) (he : e.IsRead) (hother : ¬ e.Concerns t) (hs : s.step e = some (s', l)) :
    s'.unread t = some q := by
  cases e with
  | push u | clearPending => exact absurd he id
  | newReaderToken =>
    cases hs
    exact unread_newReaderToken h hq
  | dropSubscriber sub =>
    cases hs
    exact unread_dropSubscriber (fun ht => hother ht.symm) hq
  | takeWithToken t' =>
    obtain ⟨⟨q', s''⟩, ht, heq⟩ := Option.map_eq_some_iff.1 hs
    cases heq
    cases hq' : s.unread t' with
    | none => simp [takeWithToken_unknown hq'] at ht
    | some q'' =>
      obtain ⟨s₁, h₁, -, -, h₂⟩ := takeWithToken_spec h hq'
      cases ht.symm.trans h₁
      exact h₂ t q (fun ht => hother ht.symm) hq

lemma isReaderUpToDate_eq (h : s.Inv) (hq : s.unread t = some []) : s.isReaderUpToDate t = some true := by
  obtain ⟨i, hi, hd⟩ := Option.map_eq_some_iff.1 hq
  have hle := h.index_le _ (mem_of_lookup hi)
  have hge := drop_eq_nil_iff.1 hd
  simp only at hle
  simp [isReaderUpToDate, hi, Nat.le_antisymm hle hge]

lemma inv_new : (new : UpdatesInner U).Inv := by
  constructor <;> simp [new, mainReaderToken]

lemma Inv.step {s' : UpdatesInner U} {e : Event U} {l : List (ℕ × List U)} (h : s.Inv)
    (hs : s.step e = some (s', l)) : s'.Inv := by
  cases e with
  | push u =>
    obtain ⟨rfl, rfl⟩ : s.push u = s' ∧ [] = l := by simpa [UpdatesInner.step] using hs
    refine ⟨fun x hx => ?_, h.token_le⟩
    have := h.index_le x hx
    simp only [push, length_append]
    omega
  | newReaderToken =>
    obtain ⟨rfl, rfl⟩ : s.newReaderToken.2 = s' ∧ [] = l := by simpa [UpdatesInner.step] using hs
    refine ⟨fun x hx => ?_, fun x hx => ?_⟩
    · rcases mem_cons.1 hx with rfl | hx
      · exact Nat.zero_le _
      · exact h.index_le x (mem_filter.1 hx).1
    · rcases mem_cons.1 hx with rfl | hx
      · exact le_rfl
      · exact (h.token_le x (mem_filter.1 hx).1).trans (Nat.le_succ _)
  | takeWithToken t =>
    obtain ⟨⟨q, s''⟩, ht, heq⟩ := Option.map_eq_some_iff.1 hs
    obtain ⟨rfl, rfl⟩ : s'' = s' ∧ [(t, q)] = l := by simpa using heq
    cases hq : s.unread t with
    | none => simp [takeWithToken_unknown hq] at ht
    | some q' =>
      obtain ⟨s1, h1, h2, -⟩ := takeWithToken_spec h hq
      obtain ⟨-, rfl⟩ : q' = q ∧ s1 = s'' := by simpa [ht] using h1.symm
      exact h2
  | dropSubscriber sub =>
    obtain ⟨rfl, rfl⟩ : s.dropSubscriber sub = s' ∧ [] = l := by simpa [UpdatesInner.step] using hs
    exact ⟨fun x hx => h.index_le x (mem_filter.1 hx).1, fun x hx => h.token_le x (mem_filter.1 hx).1⟩
  | clearPending =>
    obtain ⟨rfl, rfl⟩ : s.clearPending = s' ∧ [] = l := by simpa [UpdatesInner.step] using hs
    refine ⟨fun x hx => ?_, fun x hx => ?_⟩ <;> obtain ⟨y, hy, rfl⟩ := mem_map.1 hx
    · exact Nat.zero_le _
    · exact h.token_le y hy

end Step

/-! ### What a reader receives over a run -/

section Run

variable {s s' : UpdatesInner U} {t : ℕ} {q : List U} {e : Event U} {es : List (Event U)}
  {log l l' : List (ℕ × List U)}

lemma run_cons (hr : s.run (e :: es) = some (s', log)) :
    ∃ s₁ l l', s.step e = some (s₁, l) ∧ s₁.run es = some (s', l') ∧ log = l ++ l' := by
  simp only [run, Option.bind_eq_bind, Option.bind_eq_some_iff, Prod.exists] at hr
  obtain ⟨s₁, l, h1, s₂, l', h2, h3⟩ := hr
  obtain ⟨rfl, rfl⟩ : s₂ = s' ∧ l ++ l' = log := by simpa using h3
  exact ⟨s₁, l, l', h1, h2, rfl⟩

lemma Inv.run (h : s.Inv) (hr : s.run es = some (s', log)) : s'.Inv := by
  induction es generalizing s log with
  | nil =>
    obtain ⟨rfl, -⟩ : s = s' ∧ [] = log := by simpa [UpdatesInner.run] using hr
    exact h
  | cons e es ih =>
    obtain ⟨s₁, l, l', h1, h2, -⟩ := run_cons hr
    exact ih (h.step h1) h2

lemma takesOf_append : takesOf t (l ++ l') = takesOf t l ++ takesOf t l' := by
  simp [takesOf]

/-- **The shared buffer gives a reader what a queue of its own would give it.** -/
theorem takesOf_run (h : s.Inv) (hq : s.unread t = some q)
    (hdrop : ∀ sub, Event.dropSubscriber sub ∈ es → sub.token ≠ t)
    (hr : s.run es = some (s', log)) : takesOf t log = received t q es := by
  induction es generalizing s q log with
  | nil =>
    obtain ⟨-, rfl⟩ : s = s' ∧ [] = log := by simpa [UpdatesInner.run] using hr
    rfl
  | cons e es ih =>
    obtain ⟨s₁, l, l', h1, h2, rfl⟩ := run_cons hr
    have hd : ∀ sub, Event.dropSubscriber sub ∈ es → sub.token ≠ t := fun sub hsub =>
      hdrop sub (mem_cons_of_mem _ hsub)
    have hi := h.step h1
    rw [takesOf_append]
    cases e with
    | push u =>
      obtain ⟨rfl, rfl⟩ : s.push u = s₁ ∧ [] = l := by simpa [UpdatesInner.step] using h1
      exact ih hi (unread_push h hq u) hd h2
    | newReaderToken =>
      obtain ⟨rfl, rfl⟩ : s.newReaderToken.2 = s₁ ∧ [] = l := by simpa [UpdatesInner.step] using h1
      exact ih hi (unread_newReaderToken h hq) hd h2
    | dropSubscriber sub =>
      obtain ⟨rfl, rfl⟩ : s.dropSubscriber sub = s₁ ∧ [] = l := by
        simpa [UpdatesInner.step] using h1
      have ht := hdrop sub (by simp)
      exact ih hi (unread_dropSubscriber (Ne.symm ht) hq) hd h2
    | clearPending =>
      obtain ⟨rfl, rfl⟩ : s.clearPending = s₁ ∧ [] = l := by simpa [UpdatesInner.step] using h1
      exact ih hi (unread_clearPending hq) hd h2
    | takeWithToken t' =>
      obtain ⟨⟨q', s₂⟩, ht, heq⟩ := Option.map_eq_some_iff.1 h1
      obtain ⟨rfl, rfl⟩ : s₂ = s₁ ∧ [(t', q')] = l := by simpa using heq
      by_cases htt : t' = t
      · subst htt
        obtain ⟨s₃, h3, -, h4, -⟩ := takeWithToken_spec h hq
        obtain ⟨rfl, rfl⟩ : q = q' ∧ s₃ = s₂ := by simpa [ht] using h3.symm
        rw [ih hi h4 hd h2]
        simp [takesOf, received]
      · -- the take of another reader moves the indices, not what is unread
        have hsame : s₂.unread t = some q := by
          cases hq' : s.unread t' with
          | none => simp [takeWithToken_unknown hq'] at ht
          | some q'' =>
            obtain ⟨s₃, h3, -, -, h5⟩ := takeWithToken_spec h hq'
            obtain ⟨-, rfl⟩ : q'' = q' ∧ s₃ = s₂ := by simpa [ht] using h3.symm
            exact h5 t q (Ne.symm htt) hq
        rw [ih hi hsame hd h2]
        simp [takesOf, received, htt]

lemma received_of_no_take (h : Event.takeWithToken t ∉ es) : received t q es = [] := by
  induction es generalizing q with
  | nil => rfl
  | cons e es ih =>
    have hes : Event.takeWithToken t ∉ es := fun hm => h (mem_cons_of_mem _ hm)
    cases e with
    | takeWithToken t' =>
      have htt : t' ≠ t := fun ht => h (by simp [ht])
      simp only [received, if_neg htt]
      exact ih hes
    | _ => exact ih hes

lemma received_of_no_clear {es₁ es₂ : List (Event U)} (hc : Event.clearPending ∉ es₁)
    (h : Event.takeWithToken t ∉ es₂) : received t q (es₁ ++ .takeWithToken t :: es₂) = q ++ pushed es₁ := by
  induction es₁ generalizing q with
  | nil => simp [received, pushed, received_of_no_take h]
  | cons e es ih =>
    have hes : Event.clearPending ∉ es := fun hm => hc (mem_cons_of_mem _ hm)
    cases e with
    | push u => simpa [received, pushed] using ih (q := q ++ [u]) hes
    | clearPending => simp at hc
    | newReaderToken | dropSubscriber sub => simpa [received, pushed] using ih (q := q) hes
    | takeWithToken t' =>
      by_cases htt : t' = t
      · have := ih (q := []) hes
        simp only [cons_append, received, if_pos htt, this]
        simp [pushed]
      · simpa [received, htt, pushed] using ih (q := q) hes

/-- **Every reader sees every update exactly once.** After any run: no index exceeds the buffer, the
shift of a collection does not underflow and loses nothing that is unread, a live reader can take,
the main reader has received every push since the start, and a reader created now will receive the
updates that are still buffered and every later one, up to its last take. -/
theorem reader_receives_every_update_once {before : List (Event U)}
    (hr : (new : UpdatesInner U).run before = some (s, log)) :
    (∀ x ∈ s.lastIndexPerReader, x.2 ≤ s.updates.length) ∧
    (∀ x ∈ s.lastIndexPerReader, s.minIndex ≤ x.2) ∧
    (∀ t q, s.unread t = some q → s.garbageCollect.unread t = some q) ∧
    (∀ t, (s.takeWithToken t).isSome ↔ t ∈ s.lastIndexPerReader.map Prod.fst) ∧
    takesOf mainReaderToken log = received mainReaderToken [] before ∧
    ∀ after s' log', s.newReaderToken.2.run after = some (s', log') →
      (∀ sub, Event.dropSubscriber sub ∈ after → sub.token ≠ s.newReaderToken.1) →
      takesOf s.newReaderToken.1 log' = received s.newReaderToken.1 s.updates after ∧
      ∀ es₁ es₂, after = es₁ ++ .takeWithToken s.newReaderToken.1 :: es₂ →
        .clearPending ∉ es₁ → .takeWithToken s.newReaderToken.1 ∉ es₂ →
        takesOf s.newReaderToken.1 log' = s.updates ++ pushed es₁ := by
  have hi : s.Inv := inv_new.run hr
  refine ⟨hi.index_le, s.minIndex_le, fun t q hq => unread_garbageCollect hq, fun t => ?_, ?_, ?_⟩
  · constructor
    · intro ht
      by_contra hm
      have hl : s.unread t = none := by simp [unread, lookup_eq_none hm]
      simp [takeWithToken_unknown hl] at ht
    · intro ht
      obtain ⟨q, hq⟩ := unread_of_mem ht
      obtain ⟨s', h1, -⟩ := takeWithToken_spec hi hq
      simp [h1]
  · refine takesOf_run inv_new ?_ (fun sub _ => sub.ne_main) hr
    simp [unread, new]
  · intro after s' log' hr' hdrop
    have hnew : s.newReaderToken.2.Inv := hi.step (e := .newReaderToken) rfl
    have heq := takesOf_run hnew (unread_newReaderToken_self s) hdrop hr'
    refine ⟨heq, ?_⟩
    rintro es₁ es₂ rfl hc ht
    rw [heq, received_of_no_clear hc ht]

/-- A reader created while one update is buffered: it gets that one, the next, and what follows a
clear. -/
theorem reader_receives_every_update_once_late_reader :
    takesOf 1 [(1, [7, 8]), (1, [9])] =
      received 1 [7] [.push 8, .takeWithToken 1, .clearPending, .push 9, .takeWithToken 1] :=
  ((reader_receives_every_update_once
    (show (new : UpdatesInner ℕ).run [.push 7] = some (⟨[7], [(0, 0)], 0⟩, []) from rfl)).2.2.2.2.2
    [.push 8, .takeWithToken 1, .clearPending, .push 9, .takeWithToken 1] _ _ rfl
    (by intro sub hsub; simp at hsub)).1

end Run

end UpdatesInner

end HaranaMatrix.Linked
