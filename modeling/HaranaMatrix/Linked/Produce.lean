import HaranaMatrix.Lib.Sim
import HaranaMatrix.Linked.Edit

/-!
# Every operation emits a run of steps

The recursion of `push_items` is described once, by `PushRun`; what it keeps, and the steps it
emits, follow by induction. Each operation is then a short run of `Step`s from its old chunks to its
new ones. -/

namespace HaranaMatrix.Linked

open List

variable {Item Gap : Type}

/-! ## Plain chunks of a chain -/

def ChunkData.plain (c : ChunkData Item Gap) : PlainChunk Item Gap := ⟨c.identifier, c.content⟩

/-- The chunks, without their links. -/
def plain (cs : List (ChunkData Item Gap)) : List (PlainChunk Item Gap) := cs.map ChunkData.plain

section Plain

variable (c : ChunkData Item Gap) (cs ds : List (ChunkData Item Gap)) (l : Option ChunkIdentifier)

@[simp] lemma plain_nil : plain ([] : List (ChunkData Item Gap)) = [] := rfl
@[simp] lemma plain_cons : plain (c :: cs) = c.plain :: plain cs := rfl
@[simp] lemma plain_append : plain (cs ++ ds) = plain cs ++ plain ds := map_append
@[simp] lemma plain_mk (id : ChunkIdentifier) (content : ChunkContent Item Gap) :
    ChunkData.plain ⟨l, id, content⟩ = ⟨id, content⟩ := rfl
@[simp] lemma plain_identifier : c.plain.identifier = c.identifier := rfl
@[simp] lemma plain_content : c.plain.content = c.content := rfl

@[simp] lemma plain_passLazy : plain (passLazy l cs) = plain cs := by
  cases cs <;> rfl

@[simp] lemma ids_plain : ids (plain cs) = cs.map (·.identifier) := by
  simp [ids, plain]

lemma headId_eq : headId cs = (ids (plain cs)).head? := by
  cases cs <;> rfl

lemma lastId_eq : lastId cs = (ids (plain cs)).getLast? := by
  simp [lastId]

end Plain

/-! ## The recursion of `push_items` -/

variable {cap : ℕ} {next : Option ChunkIdentifier} {g : ChunkIdentifierGenerator}
  {c : ChunkData Item Gap} {items : List Item} {r : Pushed Item Gap}

/-- The runs of `push_items` that end. -/
inductive PushRun (cap : ℕ) (next : Option ChunkIdentifier) :
    ChunkIdentifierGenerator → ChunkData Item Gap → List Item → Pushed Item Gap → Prop
  /-- nothing to push -/
  | done (g : ChunkIdentifierGenerator) (c : ChunkData Item Gap) : PushRun cap next g c [] ⟨[], c, g, []⟩
  /-- all the items fit -/
  | fits (g : ChunkIdentifierGenerator) (c : ChunkData Item Gap) (xs items : List Item)
      (hc : c.content = .items xs) (hcap : xs.length + items.length ≤ cap) :
      PushRun cap next g c items ⟨[], { c with content := .items (xs ++ items) }, g,
        [.pushItems ⟨c.identifier, xs.length⟩ items]⟩
  /-- some of them fit, the others go to a new chunk -/
  | fills (g : ChunkIdentifierGenerator) (c : ChunkData Item Gap) (xs first rest : List Item)
      (r : Pushed Item Gap) (hc : c.content = .items xs) (hcap : xs.length + first.length ≤ cap)
      (hr : PushRun cap next ⟨g.value + 1⟩ ⟨none, ⟨g.value + 1⟩, .items []⟩ rest r) :
      PushRun cap next g c (first ++ rest) { r with
        done := { c with content := .items (xs ++ first) } :: r.done
        updates := .pushItems ⟨c.identifier, xs.length⟩ first ::
          .newItemsChunk (some c.identifier) ⟨g.value + 1⟩ next :: r.updates }
  /-- none of them fits -/
  | opens (g : ChunkIdentifierGenerator) (c : ChunkData Item Gap) (items : List Item)
      (r : Pushed Item Gap)
      (hr : PushRun cap next ⟨g.value + 1⟩ ⟨none, ⟨g.value + 1⟩, .items []⟩ items r) :
      PushRun cap next g c items { r with
        done := c :: r.done
        updates := .newItemsChunk (some c.identifier) ⟨g.value + 1⟩ next :: r.updates }

lemma next_ok {x : ChunkIdentifier × ChunkIdentifierGenerator} (h : g.next = .ok x) :
    x = (⟨g.value + 1⟩, ⟨g.value + 1⟩) := by
  unfold ChunkIdentifierGenerator.next at h
  split at h
  · cases h
  · cases h
    rfl

lemma pushRun_of_pushChunks {fuel : ℕ} (h : pushChunks cap next fuel g c items = .ok r) :
    PushRun cap next g c items r := by
  induction fuel generalizing g c items r with
  | zero => cases h
  | succ fuel ih =>
    unfold pushChunks at h
    split at h
    · next hlen =>
      cases h
      obtain rfl := length_eq_zero_iff.1 hlen
      exact .done g c
    next hlen =>
    split at h
    · next hc =>
      obtain ⟨x, hx, h⟩ := bind_eq_ok h
      obtain rfl := next_ok hx
      obtain ⟨r', hr, h⟩ := bind_eq_ok h
      cases h
      exact .opens g c items r' (ih hr)
    next xs hc =>
    simp only at h
    split at h
    · next hfit =>
      cases h
      exact .fits g c xs items hc (by omega)
    next hfit =>
    obtain ⟨x, hx, h⟩ := bind_eq_ok h
    obtain rfl := next_ok hx
    obtain ⟨r', hr, h⟩ := bind_eq_ok h
    cases h
    split
    · next hfree =>
      have := PushRun.fills g c xs (items.take (cap - xs.length)) _ r' hc
        (by simp only [length_take]; omega) (ih hr)
      rwa [take_append_drop] at this
    · next hfree =>
      have hzero : cap - xs.length = 0 := by omega
      have hc' : { c with content := .items (xs ++ items.take (cap - xs.length)) } = c := by
        rw [hzero, take_zero, append_nil, ← hc]
      rw [hc']
      rw [hzero, drop_zero] at hr
      exact .opens g c items r' (ih hr)

namespace PushRun

lemma le_generator (h : PushRun cap next g c items r) : g.value ≤ r.generator.value := by
  induction h with
  | done | fits => exact le_refl _
  | fills _ _ _ _ _ _ _ _ _ ih | opens _ _ _ _ _ ih => exact (Nat.le_succ _).trans ih

lemma chunks_eq (h : PushRun cap next g c items r) :
    ∃ content rest, r.chunks = { c with content := content } :: rest ∧
      ∀ d ∈ rest, d.lazyPrevious = none := by
  induction h with
  | done g c => exact ⟨c.content, [], rfl, by simp⟩
  | fits g c xs items => exact ⟨_, [], rfl, by simp⟩
  | fills _ _ xs first _ r _ _ _ ih | opens _ _ _ r _ ih =>
    obtain ⟨content, rest, heq, hrest⟩ := ih
    refine ⟨_, r.chunks, rfl, ?_⟩
    rw [heq]
    simpa using hrest

end PushRun

/-! ### The steps of a push -/

/-- The states `st pre cur rem` of a push: the chunks before the current one, the current one, and
the items still to push. -/
structure Pushable (base : Option ChunkIdentifier) (cap limit : ℕ) (post : List (PlainChunk Item Gap))
    (st : List (PlainChunk Item Gap) → PlainChunk Item Gap → List Item → Edit Item Gap) : Prop where
  push : ∀ pre id xs new rem, xs.length + new.length ≤ cap →
    Step base cap limit (st pre ⟨id, .items xs⟩ (new ++ rem)) (.pushItems ⟨id, xs.length⟩ new)
      (st pre ⟨id, .items (xs ++ new)⟩ rem)
  new : ∀ pre cur rem id content, content.numItems = 0 → id ∉ ids (pre ++ cur :: post) →
    id.index ≤ limit →
    Step base cap limit (st pre cur rem)
      (LinkedChunk.newChunkUpdate (some cur.identifier) id (ids post).head? content)
      (st (pre ++ [cur]) ⟨id, content⟩ rem)

section Pushable

variable (base : Option ChunkIdentifier) (cap limit : ℕ) (post : List (PlainChunk Item Gap))

lemma pushable_settled : Pushable base cap limit post fun pre cur _ => .settled (pre ++ cur :: post) where
  push pre id xs new _ hcap := .pushItems pre post id xs new hcap
  new pre cur _ id content hempty hfresh hlimit := by
    have := @Step.newChunk _ _ base cap limit (pre ++ [cur]) post id content hempty
      (by simpa using hfresh) hlimit
    simpa using this

lemma pushable_detached (rest : List Item) :
    Pushable base cap limit post fun pre cur _ => .detached pre cur post rest false where
  push pre id xs new _ hcap := .pushItemsDetached pre post id xs new rest hcap
  new pre cur _ id content hempty hfresh hlimit :=
    .newChunkDetached pre post cur rest false id content hempty hfresh hlimit

lemma pushable_reattaching : Pushable base cap limit post fun pre cur rem => .detached pre cur post rem true where
  push pre id xs new rem hcap := .pushItemsReattached pre post id xs new rem hcap
  new pre cur rem id content hempty hfresh hlimit :=
    .newChunkDetached pre post cur rem true id content hempty hfresh hlimit

end Pushable

lemma fresh_of_le {cs : List (PlainChunk Item Gap)} (hle : ∀ i ∈ ids cs, i.index ≤ g.value) :
    (⟨g.value + 1⟩ : ChunkIdentifier) ∉ ids cs := fun hmem => by
  have := hle _ hmem
  simp at this

lemma le_succ_of_le {pre post : List (PlainChunk Item Gap)} {cur : PlainChunk Item Gap}
    (content : ChunkContent Item Gap) (hle : ∀ i ∈ ids (pre ++ cur :: post), i.index ≤ g.value) :
    ∀ i ∈ ids (pre ++ [cur] ++ ⟨⟨g.value + 1⟩, content⟩ :: post), i.index ≤ g.value + 1 := by
  intro i hi
  simp only [ids_append, ids_cons, mem_append, mem_cons] at hi hle
  by_cases hid : i = ⟨g.value + 1⟩
  · rw [hid]
  · exact (hle i (by tauto)).trans (Nat.le_succ _)

/-- **A push is a run of steps**, in whatever state it happens. -/
theorem PushRun.steps {base : Option ChunkIdentifier} {limit : ℕ} {post : List (PlainChunk Item Gap)}
    {st : List (PlainChunk Item Gap) → PlainChunk Item Gap → List Item → Edit Item Gap}
    (hst : Pushable base cap limit post st) (h : PushRun cap (ids post).head? g c items r)
    (pre : List (PlainChunk Item Gap)) (hlimit : r.generator.value ≤ limit)
    (hle : ∀ i ∈ ids (pre ++ c.plain :: post), i.index ≤ g.value) :
    Steps base cap limit (st pre c.plain items) r.updates (st (pre ++ plain r.done) r.last.plain []) := by
  induction h generalizing pre with
  | done g c => simpa using Trace.nil _
  | fits g c xs items hc hcap =>
    have hp : c.plain = ⟨c.identifier, .items xs⟩ := by rw [ChunkData.plain, hc]
    have hstep := hst.push pre c.identifier xs items [] hcap
    simpa [hp] using Trace.single hstep
  | fills g c xs first rest r hc hcap hr ih =>
    have hp : c.plain = ⟨c.identifier, .items xs⟩ := by rw [ChunkData.plain, hc]
    have hpush := hst.push pre c.identifier xs first rest hcap
    have hnew := hst.new pre ⟨c.identifier, .items (xs ++ first)⟩ rest ⟨g.value + 1⟩ (.items []) rfl
      (fresh_of_le (by simpa using hle)) (hr.le_generator.trans hlimit)
    rw [← hp] at hpush
    refine .cons hpush (.cons hnew ?_)
    simpa using ih _ hlimit (le_succ_of_le (.items []) (by simpa using hle))
  | opens g c items r hr ih =>
    have hnew := hst.new pre c.plain items ⟨g.value + 1⟩ (.items []) rfl (fresh_of_le hle)
      (hr.le_generator.trans hlimit)
    refine .cons hnew ?_
    simpa using ih _ hlimit (le_succ_of_le (.items []) hle)

/-! ## `lazy_previous` -/

/-- Only the first chunk may have a `lazy_previous`, and it is `base`. -/
def LazyHead (base : Option ChunkIdentifier) : List (ChunkData Item Gap) → Prop
  | [] => base = none
  | c :: cs => c.lazyPrevious = base ∧ ∀ d ∈ cs, d.lazyPrevious = none

section LazyHead

variable {base : Option ChunkIdentifier} {pre post block : List (ChunkData Item Gap)} {d : ChunkData Item Gap}

lemma lazyHead_append (hpre : pre ≠ []) :
    LazyHead base (pre ++ post) ↔ LazyHead base pre ∧ ∀ d ∈ post, d.lazyPrevious = none := by
  cases pre with
  | nil => exact absurd rfl hpre
  | cons c pre => simp only [cons_append, LazyHead, forall_mem_append, and_assoc]

section

variable (h : LazyHead base (pre ++ c :: post))
include h

lemma LazyHead.replace (hblock : LazyHead c.lazyPrevious block)
    (hne : block ≠ []) : LazyHead base (pre ++ block ++ post) := by
  by_cases hpre : pre = []
  · subst hpre
    obtain ⟨hc, hpost⟩ := h
    rw [hc] at hblock
    exact (lazyHead_append hne).2 ⟨hblock, hpost⟩
  · obtain ⟨h₁, h₂⟩ := (lazyHead_append hpre).1 h
    rw [forall_mem_cons] at h₂
    rw [h₂.1] at hblock
    have hall : ∀ d ∈ block, d.lazyPrevious = none := by
      cases block with
      | nil => simp
      | cons e block => exact forall_mem_cons.2 hblock
    rw [append_assoc]
    exact (lazyHead_append hpre).2 ⟨h₁, forall_mem_append.2 ⟨hall, h₂.2⟩⟩

lemma LazyHead.setContent (content : ChunkContent Item Gap) :
    LazyHead base (pre ++ { c with content := content } :: post) := by
  have hblock : LazyHead c.lazyPrevious [{ c with content := content }] := ⟨rfl, by simp⟩
  simpa using h.replace hblock (by simp)

lemma LazyHead.remove (hne : pre ++ post ≠ []) : LazyHead base (pre ++ passLazy c.lazyPrevious post) := by
  cases post with
  | nil =>
    have hpre : pre ≠ [] := by simpa using hne
    simpa [passLazy] using ((lazyHead_append hpre).1 h).1
  | cons e post =>
    have hpost : ∀ d ∈ post, d.lazyPrevious = none := by
      by_cases hpre : pre = []
      · subst hpre
        exact fun d hd => h.2 d (by simp [hd])
      · exact fun d hd => ((lazyHead_append hpre).1 h).2 d (by simp [hd])
    have h' : LazyHead base (pre ++ c :: []) := by
      by_cases hpre : pre = []
      · subst hpre
        exact ⟨h.1, by simp⟩
      · refine (lazyHead_append hpre).2 ⟨((lazyHead_append hpre).1 h).1, ?_⟩
        simpa using ((lazyHead_append hpre).1 h).2 c (by simp)
    have hblock : LazyHead c.lazyPrevious (passLazy c.lazyPrevious (e :: post)) := ⟨rfl, hpost⟩
    simpa using h'.replace hblock (by simp [passLazy])

lemma LazyHead.insert (id : ChunkIdentifier) (content : ChunkContent Item Gap) :
    LazyHead base (pre ++ ⟨if pre = [] then c.lazyPrevious else none, id, content⟩ ::
      (if pre = [] then { c with lazyPrevious := none } else c) :: post) := by
  by_cases hpre : pre = []
  · subst hpre
    exact ⟨h.1, by simpa using h.2⟩
  · obtain ⟨h₁, h₂⟩ := (lazyHead_append hpre).1 h
    simp only [hpre]
    exact (lazyHead_append hpre).2 ⟨h₁, by simpa using h₂⟩

end

lemma PushRun.lazyHead (h : PushRun cap next g c items r) : LazyHead c.lazyPrevious r.chunks := by
  obtain ⟨content, rest, heq, hrest⟩ := h.chunks_eq
  rw [heq]
  exact ⟨rfl, hrest⟩

end LazyHead

/-! ## The steps of an operation -/

/-- `U` are the stored chunks before the first one in memory, and `base` what stands before them.
The generator is above the identifiers of all of them. -/
structure Ready (base : Option ChunkIdentifier) (U : List (PlainChunk Item Gap)) (a : Chain Item Gap) :
    Prop where
  lazy : LazyHead ((ids U).getLast?.or base) a.chunks
  le : ∀ i ∈ ids (U ++ plain a.chunks), i.index ≤ a.generator.value

/-- The updates `us` are a run of steps from the chunks of `a` to those of `a'`. -/
structure Emitted (base : Option ChunkIdentifier) (cap : ℕ) (U : List (PlainChunk Item Gap))
    (a : Chain Item Gap) (us : List (Update Item Gap)) (a' : Chain Item Gap) : Prop where
  steps : Steps base cap a'.generator.value (.settled (U ++ plain a.chunks)) us (.settled (U ++ plain a'.chunks))
  generator : a.generator.value ≤ a'.generator.value
  lazy : LazyHead ((ids U).getLast?.or base) a'.chunks

section Emitted

variable {base : Option ChunkIdentifier} {U : List (PlainChunk Item Gap)} {a a' a'' : Chain Item Gap}
  {us vs : List (Update Item Gap)}

lemma Steps.le_limit {limit : ℕ} {e e' : Edit Item Gap} (h : Steps base cap limit e us e')
    (hle : ∀ i ∈ ids e.chunks, i.index ≤ limit) : ∀ i ∈ ids e'.chunks, i.index ≤ limit :=
  h.invariant (I := fun e => ∀ i ∈ ids e.chunks, i.index ≤ limit) (fun _ _ _ hs => hs.le_limit) hle

lemma Emitted.ready (h : Ready base U a) (he : Emitted base cap U a us a') : Ready base U a' :=
  ⟨he.lazy, he.steps.le_limit fun i hi => (h.le i hi).trans he.generator⟩

lemma Emitted.refl (h : Ready base U a) : Emitted base cap U a [] a :=
  ⟨.nil _, le_refl _, h.lazy⟩

lemma Emitted.trans (h : Emitted base cap U a us a') (h' : Emitted base cap U a' vs a'') :
    Emitted base cap U a (us ++ vs) a'' :=
  ⟨(h.steps.mono_limit h'.generator).append h'.steps, h.generator.trans h'.generator, h'.lazy⟩

lemma touch_emitted (cap : ℕ) (h : Ready base U a) : Emitted base cap U a a.touch.2 a.touch.1 := by
  obtain ⟨chunks, g⟩ := a
  cases chunks with
  | cons c cs => exact .refl h
  | nil =>
    have hnone : (ids U).getLast?.or base = none := h.lazy
    obtain ⟨hU, rfl⟩ := Option.or_eq_none_iff.1 hnone
    obtain rfl : U = [] := by simpa [ids] using hU
    refine ⟨.single ?_, le_refl _, ⟨rfl, by simp⟩⟩
    exact Step.newChunk [] [] ChunkIdentifierGenerator.firstIdentifier (.items []) rfl (by simp) (Nat.zero_le _)

lemma touch_chunks_ne (a : Chain Item Gap) : a.touch.1.chunks ≠ [] := by
  obtain ⟨_ | ⟨c, cs⟩, g⟩ := a <;> simp [Chain.touch]

variable {pre post : List (ChunkData Item Gap)}

lemma PushRun.emitted (h : PushRun cap (headId post) a.generator c items r)
    (ha : Ready base U a) (heq : a.chunks = pre ++ c :: post) :
    Emitted base cap U a r.updates ⟨pre ++ r.chunks ++ post, r.generator⟩ := by
  have hle := ha.le
  have hlazy := ha.lazy
  rw [heq] at hle hlazy
  rw [headId_eq] at h
  refine ⟨?_, h.le_generator, hlazy.replace h.lazyHead (by simp [Pushed.chunks])⟩
  have := h.steps (pushable_settled base cap r.generator.value (plain post)) (U ++ plain pre) le_rfl
    (by simpa using hle)
  simpa [heq, Pushed.chunks] using this

lemma pushItemsBack_emitted (h : Ready base U a) {y} (hs : a.pushItemsBack cap items = .ok y) :
    Emitted base cap U a y.2.2 y.2.1 := by
  have ht := touch_emitted cap h
  simp only [Chain.pushItemsBack] at hs
  split at hs
  · cases hs
    exact ht
  · next pre c hsplit =>
    obtain ⟨r, hr, hs⟩ := bind_eq_ok hs
    cases hs
    have heq : a.touch.1.chunks = pre ++ c :: [] := by
      obtain ⟨d, hd, hpair⟩ := Option.map_eq_some_iff.1 hsplit
      cases hpair
      exact (dropLast_append_getLast? c hd).symm
    have hrun : PushRun cap (headId ([] : List (ChunkData Item Gap)))
      a.touch.1.generator c items r := pushRun_of_pushChunks hr
    exact ht.trans (by simpa using hrun.emitted (ht.ready h) heq)

lemma newChunk_steps (base : Option ChunkIdentifier) (cap : ℕ) (l : Option ChunkIdentifier)
    (content : ChunkContent Item Gap) (hempty : content.numItems = 0) {g' : ChunkIdentifierGenerator}
    {id : ChunkIdentifier} (hle : ∀ i ∈ ids (U ++ plain (pre ++ post)), i.index ≤ g.value)
    (hg : g.next = .ok (id, g')) :
    Steps base cap g'.value (.settled (U ++ plain (pre ++ post)))
      [LinkedChunk.newChunkUpdate ((lastId pre).or ((ids U).getLast?.or base)) id (headId post) content]
      (.settled (U ++ plain (pre ++ ⟨l, id, content⟩ :: post))) ∧ g.value ≤ g'.value := by
  cases next_ok hg
  refine ⟨.single ?_, Nat.le_succ _⟩
  have := @Step.newChunk _ _ base cap (g.value + 1) (U ++ plain pre) (plain post)
    ⟨g.value + 1⟩ content hempty (fresh_of_le (by simpa using hle)) le_rfl
  have hlast : (ids (U ++ plain pre)).getLast?.or base = (lastId pre).or ((ids U).getLast?.or base) := by
    rw [lastId_eq, ids_append, List.getLast?_append, Option.or_assoc]
  rw [hlast, ← headId_eq] at this
  simpa using this

lemma lastId_or (hpre : pre ≠ []) (x : Option ChunkIdentifier) : (lastId pre).or x = lastId pre := by
  rw [lastId, List.getLast?_eq_some_getLast hpre]
  rfl

lemma pushGapBack_emitted (h : Ready base U a) {content : Gap} {y} (hs : a.pushGapBack content = .ok y) :
    Emitted base cap U a y.2.2 y.2.1 := by
  have ht := touch_emitted cap h
  have hready := ht.ready h
  simp only [Chain.pushGapBack] at hs
  obtain ⟨x, hx, hs⟩ := bind_eq_ok hs
  cases hs
  refine ht.trans ?_
  have hle : ∀ i ∈ ids (U ++ plain (a.touch.1.chunks ++ [])), i.index ≤ a.touch.1.generator.value := by
    simpa using hready.le
  obtain ⟨hsteps, hgen⟩ := newChunk_steps base cap none (.gap content) rfl hle hx
  rw [lastId_or (touch_chunks_ne a)] at hsteps
  refine ⟨by simpa [LinkedChunk.newChunkUpdate, headId] using hsteps, hgen, ?_⟩
  exact (lazyHead_append (touch_chunks_ne a)).2 ⟨hready.lazy, by simp⟩

lemma Edit.plain_of_content {xs : List Item} (hc : c.content = .items xs) :
    c.plain = ⟨c.identifier, .items xs⟩ := by
  rw [ChunkData.plain, hc]

lemma detachLastItems_step (base : Option ChunkIdentifier) (cap limit : ℕ) (U : List (PlainChunk Item Gap))
    {cs : List (ChunkData Item Gap)} {xs : List Item} {position : Position} (heq : cs = pre ++ c :: post)
    (hc : c.content = .items xs) (hid : c.identifier = position.chunkIdentifier)
    (hindex : position.index < xs.length) :
    Step base cap limit (.settled (U ++ plain cs)) (.detachLastItems position)
      (.detached (U ++ plain pre) ⟨c.identifier, .items (xs.take position.index)⟩ (plain post) (xs.drop position.index)
        false) := by
  have := @Step.detachLastItems _ _ base cap limit (U ++ plain pre) (plain post) c.identifier xs position.index hindex
  simpa [heq, Edit.plain_of_content hc, hid] using this

section

variable (h : Ready base U a)
include h

lemma insertItemsAt_emitted {position : Position} {y}
    (hs : a.insertItemsAt cap position items = .ok y) : Emitted base cap U a y.2.2 y.2.1 := by
  have ht := touch_emitted cap h
  have hready := ht.ready h
  unfold Chain.insertItemsAt at hs
  simp only at hs
  split at hs
  · cases hs
    exact ht
  next pre c post hf =>
  obtain ⟨heq, hid, -⟩ := findSplit_some hf
  split at hs
  · cases hs
    exact ht
  next current hc =>
  split at hs
  · cases hs
    exact ht
  next hindex =>
  split at hs
  · obtain ⟨r, hr, hs⟩ := bind_eq_ok hs
    cases hs
    exact ht.trans ((pushRun_of_pushChunks hr).emitted hready heq)
  · next hne =>
    obtain ⟨r, hr, hs⟩ := bind_eq_ok hs
    obtain ⟨r', hr', hs⟩ := bind_eq_ok hs
    cases hs
    have h₁ := pushRun_of_pushChunks hr
    have h₂ := pushRun_of_pushChunks hr'
    rw [headId_eq] at h₁ h₂
    have hlazy := hready.lazy
    have hle := hready.le
    rw [heq] at hlazy hle
    -- the last items are detached, the new ones pushed, and the detached ones pushed again
    have hdetach := detachLastItems_step base cap r'.generator.value U heq hc hid (by omega)
    have hpush := h₁.steps (pushable_detached base cap r.generator.value (plain post)
      (current.drop position.index)) (U ++ plain pre) le_rfl (by simpa using hle)
    have hrepush := h₂.steps (pushable_reattaching base cap r'.generator.value (plain post))
      (U ++ plain pre ++ plain r.done) le_rfl
      (hpush.le_limit fun i hi => le_trans (hle i (by simpa [Edit.chunks] using hi)) h₁.le_generator)
    have hsteps := ((Trace.cons hdetach (hpush.mono_limit h₂.le_generator)).concat
      (.startReattachItems _ _ _ _)).append (hrepush.concat (.endReattachItems _ _ _))
    have hblock : LazyHead c.lazyPrevious (r.done ++ r'.chunks ++ []) :=
      h₁.lazyHead.replace h₂.lazyHead (by simp [Pushed.chunks])
    have hbody : Emitted base cap U a.touch.1
        (.detachLastItems position :: r.updates ++ .startReattachItems :: r'.updates ++ [.endReattachItems])
        ⟨pre ++ (r.done ++ r'.chunks) ++ post, r'.generator⟩ :=
      ⟨by simpa [Pushed.chunks] using hsteps, h₁.le_generator.trans h₂.le_generator,
        hlazy.replace (by simpa using hblock) (by simp [Pushed.chunks])⟩
    simpa using ht.trans hbody

lemma removeItemAt_emitted (position : Position) :
    Emitted base cap U a (a.removeItemAt position).2.2 (a.removeItemAt position).2.1 := by
  have ht := touch_emitted cap h
  have hready := ht.ready h
  unfold Chain.removeItemAt
  simp only
  split
  · exact ht
  next pre c post hf =>
  obtain ⟨heq, hid, -⟩ := findSplit_some hf
  split
  · exact ht
  next current hc =>
  split
  · exact ht
  next removedItem hitem =>
  have hlazy := hready.lazy
  rw [heq] at hlazy
  obtain ⟨hi, -⟩ := List.getElem?_eq_some_iff.1 hitem
  have hstep : Step base cap a.touch.1.generator.value (.settled (U ++ plain a.touch.1.chunks))
      (.removeItem position)
      (.settled (U ++ plain (pre ++ { c with content := .items (current.eraseIdx position.index) } :: post))) := by
    have := @Step.removeItem _ _ base cap a.touch.1.generator.value
      (U ++ plain pre) (plain post) c.identifier current position.index hi
    simpa [heq, Edit.plain_of_content hc, hid] using this
  split
  · next hempty =>
    refine ht.trans ⟨.cons hstep (.single ?_), le_rfl, hlazy.remove (by simp [hempty.2])⟩
    have := @Step.removeChunk _ _ base cap a.touch.1.generator.value
      (U ++ plain pre) (plain post) ⟨c.identifier, .items (current.eraseIdx position.index)⟩
      (by simpa using hempty.1)
    simpa using this
  · exact ht.trans ⟨.single hstep, le_rfl, hlazy.setContent _⟩

lemma replaceItemAt_emitted (position : Position) (item : Item) :
    Emitted base cap U a (a.replaceItemAt position item).2.2 (a.replaceItemAt position item).2.1 := by
  have ht := touch_emitted cap h
  have hready := ht.ready h
  unfold Chain.replaceItemAt
  simp only
  split
  · exact ht
  next pre c post hf =>
  obtain ⟨heq, hid, -⟩ := findSplit_some hf
  split
  · exact ht
  next current hc =>
  split
  · exact ht
  next hindex =>
  have hlazy := hready.lazy
  rw [heq] at hlazy
  refine ht.trans ⟨.single ?_, le_rfl, hlazy.setContent _⟩
  have := @Step.replaceItem _ _ base cap a.touch.1.generator.value
    (U ++ plain pre) (plain post) c.identifier current position.index item (by omega)
  simpa [heq, Edit.plain_of_content hc, hid] using this

lemma removeEmptyChunkAt_emitted (chunkIdentifier : ChunkIdentifier) :
    Emitted base cap U a (a.removeEmptyChunkAt chunkIdentifier).2.2 (a.removeEmptyChunkAt chunkIdentifier).2.1 := by
  have ht := touch_emitted cap h
  have hready := ht.ready h
  unfold Chain.removeEmptyChunkAt
  simp only
  split
  · exact ht
  next hmany =>
  split
  · exact ht
  next pre c post hf =>
  obtain ⟨heq, hid, -⟩ := findSplit_some hf
  split
  · exact ht
  next hempty =>
  have hlazy := hready.lazy
  rw [heq] at hlazy hmany
  have hne : pre ++ post ≠ [] := by
    intro hnil
    obtain ⟨rfl, rfl⟩ := append_eq_nil_iff.1 hnil
    simp at hmany
  refine ht.trans ⟨.single ?_, le_rfl, hlazy.remove hne⟩
  have := @Step.removeChunk _ _ base cap a.touch.1.generator.value
    (U ++ plain pre) (plain post) c.plain (by simpa using hempty)
  simpa [heq] using this

lemma insertGapAt_emitted {content : Gap} {position : Position} {y}
    (hs : a.insertGapAt cap content position = .ok y) : Emitted base cap U a y.2.2 y.2.1 := by
  have ht := touch_emitted cap h
  have hready := ht.ready h
  unfold Chain.insertGapAt at hs
  simp only at hs
  split at hs
  · cases hs
    exact ht
  next pre c post hf =>
  obtain ⟨heq, hid, -⟩ := findSplit_some hf
  have hlazy := hready.lazy
  have hle := hready.le
  rw [heq] at hlazy hle
  split at hs
  · cases hs
    exact ht
  next current hc =>
  split at hs
  · obtain ⟨x, hx, hs⟩ := bind_eq_ok hs
    cases hs
    refine ht.trans ?_
    obtain ⟨hsteps, hgen⟩ := newChunk_steps base cap none (.gap content) rfl hle hx
    have hprev : (lastId pre).or ((ids U).getLast?.or base) =
        (lastId pre).or (if pre = [] then c.lazyPrevious else none) := by
      split
      · next hpre =>
        subst hpre
        rw [hlazy.1]
      · next hpre => simp [lastId_or hpre]
    have hplain : (if pre = [] then { c with lazyPrevious := none } else c).plain = c.plain := by
      split <;> rfl
    have hident : (if pre = [] then { c with lazyPrevious := none } else c).identifier = c.identifier :=
      congrArg PlainChunk.identifier hplain
    refine ⟨?_, hgen, by simpa only [hc] using hlazy.insert x.1 (.gap content)⟩
    rw [hprev] at hsteps
    simp only [hident]
    simpa [heq, hplain, headId, LinkedChunk.newChunkUpdate] using hsteps
  next hzero =>
  split at hs
  · cases hs
    exact ht
  next hindex =>
  obtain ⟨x, hx, hs⟩ := bind_eq_ok hs
  obtain ⟨x', hx', hs⟩ := bind_eq_ok hs
  obtain ⟨r, hr, hs⟩ := bind_eq_ok hs
  cases hs
  cases next_ok hx
  cases next_ok hx'
  have h₁ := pushRun_of_pushChunks hr
  rw [headId_eq] at h₁
  have hgen := h₁.le_generator
  simp only at hgen
  have hle₁ : ∀ i ∈ ids (U ++ plain pre ++ ⟨c.identifier, .items (current.take position.index)⟩ ::
      plain post), i.index ≤ a.touch.1.generator.value := by simpa using hle
  have hle₂ := le_succ_of_le (.gap content) hle₁
  have hle₃ := le_succ_of_le (g := ⟨a.touch.1.generator.value + 1⟩) (.items []) hle₂
  -- the last items are detached, the gap and a new chunk come after the others, and the items go there
  have hdetach := detachLastItems_step base cap r.generator.value U heq hc hid (by omega)
  have hgap := @Step.newChunkDetached _ _ base cap r.generator.value _ _ _
    (current.drop position.index) false _ (.gap content) rfl (fresh_of_le hle₁)
    (by simp only; omega)
  have hstart := @Step.startReattachItems _ _ base cap r.generator.value
    (U ++ plain pre ++ [⟨c.identifier, .items (current.take position.index)⟩]) (plain post)
    ⟨⟨a.touch.1.generator.value + 1⟩, .gap content⟩ (current.drop position.index)
  have hnew := @Step.newChunkDetached _ _ base cap r.generator.value _ _ _
    (current.drop position.index) true _ (.items []) rfl (fresh_of_le hle₂) hgen
  have hpush := h₁.steps (pushable_reattaching base cap r.generator.value (plain post))
    (U ++ plain pre ++ [⟨c.identifier, .items (current.take position.index)⟩] ++
      [⟨⟨a.touch.1.generator.value + 1⟩, .gap content⟩]) le_rfl hle₃
  have hsteps := (Trace.cons hdetach (.cons hgap (.cons hstart (.cons hnew hpush)))).concat
    (.endReattachItems _ _ _)
  have hblock : LazyHead c.lazyPrevious ({ c with content := .items (current.take position.index) } ::
      ⟨none, ⟨a.touch.1.generator.value + 1⟩, .gap content⟩ :: r.chunks) := by
    refine ⟨rfl, forall_mem_cons.2 ⟨rfl, ?_⟩⟩
    obtain ⟨content', rest, hch, hrest⟩ := h₁.chunks_eq
    rw [hch]
    exact forall_mem_cons.2 ⟨rfl, hrest⟩
  have hbody : Emitted base cap U a.touch.1 (_ :: _) ⟨pre ++ ({ c with
      content := .items (current.take position.index) } ::
      ⟨none, ⟨a.touch.1.generator.value + 1⟩, .gap content⟩ :: r.chunks) ++ post, r.generator⟩ :=
    ⟨by simpa [Pushed.chunks] using hsteps, by simp only; omega, hlazy.replace hblock (by simp)⟩
  simpa [headId_eq, LinkedChunk.newChunkUpdate] using ht.trans hbody

lemma replaceGapAt_emitted {chunkIdentifier : ChunkIdentifier} {y}
    (hs : a.replaceGapAt cap items chunkIdentifier = .ok y) : Emitted base cap U a y.2.2 y.2.1 := by
  have ht := touch_emitted cap h
  have hready := ht.ready h
  unfold Chain.replaceGapAt at hs
  simp only at hs
  split at hs
  · cases hs
    exact ht
  next pre c post hf =>
  obtain ⟨heq, hid, -⟩ := findSplit_some hf
  have hlazy := hready.lazy
  have hle := hready.le
  rw [heq] at hlazy hle
  split at hs
  · cases hs
    exact ht
  next gap hc =>
  obtain ⟨x, hx, hs⟩ := bind_eq_ok hs
  obtain ⟨r, hr, hs⟩ := bind_eq_ok hs
  cases hs
  have h₁ := pushRun_of_pushChunks hr
  -- a new chunk after the gap, a push on it, and the gap is removed
  have hle' : ∀ i ∈ ids (U ++ plain ((pre ++ [c]) ++ post)), i.index ≤ a.touch.1.generator.value := by
    simpa using hle
  obtain ⟨hnew, hgen⟩ := newChunk_steps base cap none (.items []) rfl hle' hx
  have hlast : lastId (pre ++ [c]) = some c.identifier := by simp [lastId]
  rw [lastId_or (by simp), hlast] at hnew
  have hmid : Emitted base cap U a.touch.1 [.newItemsChunk (some c.identifier) x.1 (headId post)]
      ⟨(pre ++ [c]) ++ ⟨none, x.1, .items []⟩ :: post, x.2⟩ := by
    refine ⟨by simpa [heq, LinkedChunk.newChunkUpdate] using hnew, hgen, ?_⟩
    have hblock : LazyHead c.lazyPrevious [c, ⟨none, x.1, .items []⟩] := ⟨rfl, by simp⟩
    simpa using hlazy.replace hblock (by simp)
  have hpush := h₁.emitted (hmid.ready hready) rfl
  have hlazy' : LazyHead ((ids U).getLast?.or base) (pre ++ c :: (r.chunks ++ post)) := by
    simpa using hpush.lazy
  have hremove : Emitted base cap U ⟨pre ++ [c] ++ r.chunks ++ post, r.generator⟩
      [.removeChunk c.identifier]
      ⟨pre ++ passLazy c.lazyPrevious (r.chunks ++ post), r.generator⟩ := by
    refine ⟨.single ?_, le_rfl, hlazy'.remove (by simp [Pushed.chunks])⟩
    have := @Step.removeChunk _ _ base cap r.generator.value (U ++ plain pre)
      (plain (r.chunks ++ post)) c.plain (by rw [plain_content, hc]; rfl)
    simpa using this
  simpa using ht.trans ((hmid.trans hpush).trans hremove)

end

/-- The operations that edit the chunks in memory, and the one that looks at them. -/
def Op.IsEdit : Op Item Gap → Prop
  | .clear | .insertNewFirstChunk _ | .replaceWith _ _ => False
  | _ => True

/-- **Every edit emits a run of steps from its old chunks to its new ones.** -/
theorem step_emitted {op : Op Item Gap} (hop : op.IsEdit) (h : Ready base U a) {y}
    (hs : a.step cap op = .ok y) : Emitted base cap U a y.2.2 y.2.1 := by
  cases op with
  | pushItemsBack items =>
    obtain ⟨x, hx, rfl⟩ := map_eq_ok hs
    exact pushItemsBack_emitted h hx
  | pushGapBack content =>
    obtain ⟨x, hx, rfl⟩ := map_eq_ok hs
    exact pushGapBack_emitted h hx
  | insertItemsAt position items =>
    obtain ⟨x, hx, rfl⟩ := map_eq_ok hs
    exact insertItemsAt_emitted h hx
  | removeItemAt position =>
    cases hs
    exact removeItemAt_emitted h position
  | replaceItemAt position item =>
    cases hs
    exact replaceItemAt_emitted h position item
  | insertGapAt content position =>
    obtain ⟨x, hx, rfl⟩ := map_eq_ok hs
    exact insertGapAt_emitted h hx
  | removeEmptyChunkAt id =>
    cases hs
    exact removeEmptyChunkAt_emitted h id
  | replaceGapAt items id =>
    obtain ⟨x, hx, rfl⟩ := map_eq_ok hs
    exact replaceGapAt_emitted h hx
  | observe =>
    cases hs
    exact touch_emitted cap h
  | clear | insertNewFirstChunk | replaceWith => exact absurd hop id

end Emitted

end HaranaMatrix.Linked
