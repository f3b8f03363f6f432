import Mathlib

/-!
# Ring buffers

`RingBuffer` keeps its elements in a `VecDeque` and reads the bound at which it drops the oldest element
off the allocation of that `VecDeque`, not off its own `capacity`. Of the allocation only this is assumed:
it has room for the elements. `Std` chooses it, after every request to the `VecDeque`.
-/

namespace HaranaMatrix.Common

open List

variable {α : Type}

/-! ## `VecDeque` -/

/-- A `VecDeque`: its elements from front to back, and its allocated capacity. -/
structure VecDeque (α : Type) where
  items : List α
  capacity : ℕ
  le : items.length ≤ capacity
deriving Repr

/-- The requests to a `VecDeque` after which its capacity may be another. -/
inductive Request
  | withCapacity (capacity : ℕ)
  | pushBack
  | popFront
  | remove
  | drain
  | retain
  | clear
  | reserveExact (additional : ℕ)
  | clone
  | deserialize
deriving DecidableEq, Repr

/-- The capacity that the standard library leaves after a request, given the number of elements then
and the capacity before. -/
structure Std where
  capacity : Request → ℕ → ℕ → ℕ
  le : ∀ request len old, len ≤ capacity request len old

namespace VecDeque

variable (std : Std)

def alloc (request : Request) (old : ℕ) (items : List α) : VecDeque α :=
  ⟨items, std.capacity request items.length old, std.le _ _ _⟩

def withCapacity (capacity : ℕ) : VecDeque α := alloc std (.withCapacity capacity) 0 []

variable (d : VecDeque α)

def len : ℕ := d.items.length

def pushBack (value : α) : VecDeque α :=
  alloc std .pushBack d.capacity (d.items ++ [value])

def popFront : VecDeque α := alloc std .popFront d.capacity d.items.tail

def remove (index : ℕ) : VecDeque α :=
  alloc std .remove d.capacity (d.items.eraseIdx index)

/-- The elements outside `start..stop`. -/
def drain (start stop : ℕ) : VecDeque α :=
  alloc std .drain d.capacity (d.items.take start ++ d.items.drop stop)

def retain (predicate : α → Bool) : VecDeque α :=
  alloc std .retain d.capacity (d.items.filter predicate)

def clear : VecDeque α := alloc std .clear d.capacity []

def reserveExact (additional : ℕ) : VecDeque α :=
  alloc std (.reserveExact additional) d.capacity d.items

def clone : VecDeque α := alloc std .clone d.capacity d.items

def deserialize (items : List α) : VecDeque α := alloc std .deserialize 0 items

end VecDeque

/-! ## `RingBuffer` -/

structure RingBuffer (α : Type) where
  inner : VecDeque α
  capacity : ℕ+
deriving Repr

/-- The serialized forms: that of older versions does not have the capacity. -/
inductive SerializedRingBuffer (α : Type)
  | withCapacity (items : List α) (capacity : ℕ+)
  | legacy (items : List α)
deriving Repr

namespace RingBuffer

def legacyDefaultCapacity : ℕ+ := 10

variable (std : Std)

def fromParts (inner : VecDeque α) (capacity : ℕ+) : RingBuffer α :=
  let inner := (VecDeque.popFront std)^[inner.len - capacity] inner
  -- `checked_sub`
  let inner := if inner.len ≤ capacity then inner.reserveExact std (capacity - inner.len) else inner
  ⟨inner, capacity⟩

def new (size : ℕ+) : RingBuffer α := fromParts std (VecDeque.withCapacity std size) size

variable (rb : RingBuffer α)

def len : ℕ := rb.inner.len

def push (value : α) : RingBuffer α :=
  let inner := if rb.inner.len = rb.inner.capacity then rb.inner.popFront std else rb.inner
  { rb with inner := inner.pushBack std value }

def isEmpty : Bool := rb.inner.items.isEmpty

def retain (predicate : α → Bool) : RingBuffer α :=
  { rb with inner := rb.inner.retain std predicate }

def extend (items : List α) : RingBuffer α :=
  items.foldl (push std) rb

/-- `derive(Clone)` -/
def clone : RingBuffer α := { rb with inner := rb.inner.clone std }

/-- `derive(Serialize)` -/
def serialize : SerializedRingBuffer α := .withCapacity rb.inner.items rb.capacity

def deserialize : SerializedRingBuffer α → RingBuffer α
  | .withCapacity items capacity => fromParts std (VecDeque.deserialize std items) capacity
  | .legacy items =>
    let inner := VecDeque.deserialize std items
    fromParts std inner ⟨max inner.len legacyDefaultCapacity, lt_max_of_lt_right legacyDefaultCapacity.pos⟩

/-- The operations that change a ring buffer, or that make another one of it. -/
inductive Op (α : Type)
  | push (value : α)
  | pop
  | remove (index : ℕ)
  | retain (predicate : α → Bool)
  | drain (start stop : ℕ)
  | extend (items : List α)
  | clear
  | clone
  /-- serialize, then deserialize -/
  | reload

/-- What an operation returns. -/
inductive Outcome (α : Type)
  | unit
  | item (item : Option α)
  | items (items : List α)
deriving DecidableEq, Repr

/-- One operation. `drain` panics when its range is not one of the buffer. -/
def step : Op α → Option (RingBuffer α × Outcome α)
  | .push value => some (rb.push std value, .unit)
  | .pop => some ({ rb with inner := rb.inner.popFront std }, .item rb.inner.items.head?)
  | .remove index => some ({ rb with inner := rb.inner.remove std index }, .item rb.inner.items[index]?)
  | .retain predicate => some ({ rb with inner := rb.inner.retain std predicate }, .unit)
  | .drain start stop =>
    if start ≤ stop ∧ stop ≤ rb.inner.len then
      some ({ rb with inner := rb.inner.drain std start stop }, .items (rb.inner.items.extract start stop))
    else none
  | .extend items => some (rb.extend std items, .unit)
  | .clear => some ({ rb with inner := rb.inner.clear std }, .unit)
  | .clone => some (rb.clone std, .unit)
  | .reload => some (deserialize std rb.serialize, .unit)

/-- A sequence of operations, each with the choices of the standard library. -/
def run : List (Std × Op α) → RingBuffer α → Option (RingBuffer α × List (Outcome α))
  | [], rb => some (rb, [])
  | (std, op) :: ops, rb => do
    let (rb, outcome) ← rb.step std op
    let (rb, outcomes) ← run ops rb
    return (rb, outcome :: outcomes)

end RingBuffer

/-! ## The bounded queue -/

namespace Queue

/-- The oldest element is dropped exactly when `c` elements are held. -/
def push (c : ℕ) (q : List α) (value : α) : List α :=
  if q.length = c then q.tail ++ [value] else q ++ [value]

open RingBuffer

def step (c : ℕ) (q : List α) : Op α → Option (List α × Outcome α)
  | .push value => some (push c q value, .unit)
  | .pop => some (q.tail, .item q.head?)
  | .remove index => some (q.eraseIdx index, .item q[index]?)
  | .retain predicate => some (q.filter predicate, .unit)
  | .drain start stop =>
    if start ≤ stop ∧ stop ≤ q.length then some (q.take start ++ q.drop stop, .items (q.extract start stop))
    else none
  | .extend items => some (items.foldl (push c) q, .unit)
  | .clear => some ([], .unit)
  | .clone => some (q, .unit)
  | .reload => some (q, .unit)

def run (c : ℕ) : List (Op α) → List α → Option (List α × List (Outcome α))
  | [], q => some (q, [])
  | op :: ops, q => do
    let (q, outcome) ← step c q op
    let (q, outcomes) ← run c ops q
    return (q, outcome :: outcomes)

variable {c : ℕ} {q : List α}

lemma length_push_le (hc : 0 < c) (h : q.length ≤ c) (value : α) : (push c q value).length ≤ c := by
  unfold push
  split
  · rw [length_append, length_tail, length_singleton]
    omega
  · rw [length_append, length_singleton]
    omega

lemma length_foldl_push_le (hc : 0 < c) (h : q.length ≤ c) (items : List α) :
    (items.foldl (push c) q).length ≤ c := by
  induction items generalizing q with
  | nil => exact h
  | cons value items ih => exact ih (length_push_le hc h value)

lemma length_step_le (hc : 0 < c) (h : q.length ≤ c) {op : Op α} {q' : List α} {outcome : Outcome α}
    (hs : step c q op = some (q', outcome)) : q'.length ≤ c := by
  cases op with
  | push value =>
    cases hs
    exact length_push_le hc h value
  | extend items =>
    cases hs
    exact length_foldl_push_le hc h items
  | drain start stop =>
    simp only [step] at hs
    split at hs
    · cases hs
      rw [length_append, length_take, length_drop]
      omega
    · cases hs
  | pop =>
    cases hs
    rw [length_tail]
    omega
  | remove index =>
    cases hs
    exact (length_eraseIdx_le _ _).trans h
  | retain predicate =>
    cases hs
    exact (length_filter_le _ _).trans h
  | clear =>
    cases hs
    exact Nat.zero_le c
  | clone | reload =>
    cases hs
    exact h

end Queue

/-! ## Ring buffers as bounded queues -/

namespace RingBuffer

variable {std : Std} {rb : RingBuffer α}

/-- A push finds the `VecDeque` full exactly when the buffer holds as many elements as its
capacity. -/
def Fits (rb : RingBuffer α) : Prop :=
  (rb.inner.items ≠ [] ∧ rb.inner.len = rb.inner.capacity) ↔ rb.len = rb.capacity

def ExtendFits (std : Std) : List α → RingBuffer α → Prop
  | [], _ => True
  | value :: items, rb => rb.Fits ∧ ExtendFits std items (rb.push std value)

def OpFits (std : Std) (rb : RingBuffer α) : Op α → Prop
  | .push _ => rb.Fits
  | .extend items => ExtendFits std items rb
  | _ => True

/-- Every push of a sequence of operations finds the `VecDeque` full exactly when it should be. -/
def RunFits : List (Std × Op α) → RingBuffer α → Prop
  | [], _ => True
  | (std, op) :: ops, rb =>
    rb.OpFits std op ∧ ∀ rb' outcome, rb.step std op = some (rb', outcome) → RunFits ops rb'

@[simp] lemma push_capacity (value : α) : (rb.push std value).capacity = rb.capacity := rfl

lemma items_push (value : α) : (rb.push std value).inner.items =
    (if rb.inner.len = rb.inner.capacity then rb.inner.items.tail else rb.inner.items) ++ [value] := by
  unfold push
  split <;> rfl

lemma tail_eq_self {q : List α} : q.tail = q ↔ q = [] := by
  cases q with
  | nil => simp
  | cons a q => simp [ne_cons_self]

/-- **A push is one of the bounded queue exactly when it fits.** -/
theorem push_items_iff (std : Std) (rb : RingBuffer α) (value : α) :
    (rb.push std value).inner.items = Queue.push rb.capacity rb.inner.items value ↔ rb.Fits := by
  have hpos := rb.capacity.pos
  have hheld : rb.inner.items.length = rb.capacity → rb.inner.items ≠ [] := by
    rintro h hnil
    rw [hnil, length_nil] at h
    omega
  rw [items_push]
  unfold Queue.push Fits len VecDeque.len
  by_cases hfull : rb.inner.items.length = rb.inner.capacity
  · by_cases hc : rb.inner.items.length = rb.capacity
    · rw [if_pos hfull, if_pos hc]
      exact iff_of_true rfl (iff_of_true ⟨hheld hc, hfull⟩ hc)
    · rw [if_pos hfull, if_neg hc, append_cancel_right_eq, tail_eq_self]
      simp [hfull, hfull ▸ hc]
  · by_cases hc : rb.inner.items.length = rb.capacity
    · rw [if_neg hfull, if_pos hc, append_cancel_right_eq, eq_comm, tail_eq_self]
      exact iff_of_false (hheld hc) fun h => hfull (h.2 hc).2
    · rw [if_neg hfull, if_neg hc]
      exact iff_of_true rfl (iff_of_false (fun h => hfull h.2) hc)

lemma extend_items (items : List α) (h : ExtendFits std items rb) :
    (rb.extend std items).inner.items = items.foldl (Queue.push rb.capacity) rb.inner.items ∧
      (rb.extend std items).capacity = rb.capacity := by
  induction items generalizing rb with
  | nil => exact ⟨rfl, rfl⟩
  | cons value items ih =>
    obtain ⟨hfit, hrest⟩ := h
    obtain ⟨hitems, hcapacity⟩ := ih hrest
    rw [push_capacity, (push_items_iff std rb value).2 hfit] at hitems
    exact ⟨hitems, hcapacity⟩

lemma iterate_popFront_zero (inner : VecDeque α) {n : ℕ} (h : n = 0) :
    (VecDeque.popFront std)^[n] inner = inner := by
  subst h
  rfl

lemma fromParts_items {inner : VecDeque α} {capacity : ℕ+} (h : inner.len ≤ capacity) :
    (fromParts std inner capacity).inner.items = inner.items := by
  unfold fromParts
  rw [iterate_popFront_zero inner (Nat.sub_eq_zero_of_le h)]
  simp only [h, if_true]
  rfl

/-- **An operation that fits is one of the bounded queue.** -/
theorem step_items {op : Op α} (h : rb.len ≤ rb.capacity) (hfit : rb.OpFits std op) :
    (rb.step std op).map (fun x => (x.1.inner.items, x.2)) = Queue.step rb.capacity rb.inner.items op ∧
      ∀ rb' outcome, rb.step std op = some (rb', outcome) → rb'.capacity = rb.capacity := by
  cases op with
  | push value =>
    refine ⟨?_, fun rb' outcome hs => by cases hs; rfl⟩
    rw [step, Option.map_some, Queue.step, (push_items_iff std rb value).2 hfit]
  | extend items =>
    obtain ⟨hitems, hcapacity⟩ := extend_items items hfit
    refine ⟨?_, fun rb' outcome hs => by cases hs; exact hcapacity⟩
    rw [step, Option.map_some, Queue.step, hitems]
  | drain start stop =>
    by_cases hrange : start ≤ stop ∧ stop ≤ rb.inner.len
    · have hstep : rb.step std (.drain start stop) = some _ := if_pos hrange
      have hqueue : Queue.step rb.capacity rb.inner.items (.drain start stop) = some _ := if_pos hrange
      rw [hstep, hqueue]
      exact ⟨rfl, fun rb' outcome hs => by cases hs; rfl⟩
    · have hstep : rb.step std (.drain start stop) = none := if_neg hrange
      have hqueue : Queue.step rb.capacity rb.inner.items (.drain start stop) = none := if_neg hrange
      rw [hstep, hqueue]
      exact ⟨rfl, fun rb' outcome hs => by cases hs⟩
  | reload =>
    refine ⟨?_, fun rb' outcome hs => by cases hs; rfl⟩
    have hinner : (VecDeque.deserialize std rb.inner.items).len ≤ rb.capacity := h
    rw [step, Option.map_some, Queue.step, serialize, deserialize, fromParts_items hinner]
    rfl
  | pop | remove | retain | clear | clone => exact ⟨rfl, fun rb' outcome hs => by cases hs; rfl⟩

theorem run_items {ops : List (Std × Op α)} (h : rb.len ≤ rb.capacity) (hfit : RunFits ops rb) :
    (run ops rb).map (fun x => (x.1.inner.items, x.2)) =
        Queue.run rb.capacity (ops.map Prod.snd) rb.inner.items ∧
      ∀ rb' outcomes, run ops rb = some (rb', outcomes) → rb'.len ≤ rb.capacity := by
  induction ops generalizing rb with
  | nil => exact ⟨rfl, fun rb' outcomes hr => by cases hr; exact h⟩
  | cons x ops ih =>
    obtain ⟨std, op⟩ := x
    obtain ⟨hop, hrest⟩ := hfit
    obtain ⟨hstep, hcapacity⟩ := step_items h hop
    simp only [run, map_cons, Queue.run]
    cases hs : rb.step std op with
    | none =>
      rw [hs, Option.map_none] at hstep
      rw [← hstep]
      exact ⟨rfl, fun rb' outcomes hr => by cases hr⟩
    | some y =>
      obtain ⟨rb₁, outcome⟩ := y
      rw [hs, Option.map_some] at hstep
      have hle : rb₁.len ≤ rb₁.capacity := by
        rw [hcapacity _ _ hs]
        exact Queue.length_step_le rb.capacity.pos h hstep.symm
      obtain ⟨hrun, hlen⟩ := ih hle (hrest _ _ hs)
      rw [hcapacity _ _ hs] at hrun hlen
      rw [← hstep]
      simp only [Option.bind_eq_bind, Option.bind_some, ← hrun]
      cases hr : run ops rb₁ with
      | none => exact ⟨rfl, fun rb' outcomes hr => by cases hr⟩
      | some z =>
        refine ⟨rfl, fun rb' outcomes hz => ?_⟩
        cases hz
        exact hlen _ _ hr

lemma new_items (std : Std) (c : ℕ+) : (new std c : RingBuffer α).inner.items = [] :=
  fromParts_items (Nat.zero_le _)

/-! ### Exact allocations -/

/-- Allocations of exactly the requested size, that are kept until more room is needed. Nothing is
said about clones. -/
structure Exact (std : Std) : Prop where
  withCapacity : ∀ n old, std.capacity (.withCapacity n) 0 old = n
  reserveExact : ∀ n len old, std.capacity (.reserveExact n) len old = max old (len + n)
  deserialize : ∀ len old, std.capacity .deserialize len old = len
  keep : ∀ request ∈ [Request.pushBack, .popFront, .remove, .drain, .retain, .clear], ∀ len old, len ≤ old →
    std.capacity request len old = old

lemma fits_of_capacity (h : rb.inner.capacity = rb.capacity) : rb.Fits := by
  have hpos := rb.capacity.pos
  unfold Fits len
  rw [h]
  refine ⟨And.right, fun hlen => ⟨?_, hlen⟩⟩
  rintro hnil
  rw [VecDeque.len, hnil, length_nil] at hlen
  omega

section

variable (he : Exact std)
include he

lemma Exact.fromParts {inner : VecDeque α} {capacity : ℕ+} (hle : inner.len ≤ capacity)
    (hinner : inner.capacity ≤ capacity) : (fromParts std inner capacity).inner.capacity = capacity := by
  unfold RingBuffer.fromParts
  rw [iterate_popFront_zero inner (Nat.sub_eq_zero_of_le hle)]
  simp only [hle, if_true, VecDeque.reserveExact, VecDeque.alloc, he.reserveExact]
  unfold VecDeque.len at hle ⊢
  omega

lemma Exact.push (h : rb.inner.capacity = rb.capacity) (value : α) :
    (rb.push std value).inner.capacity = rb.capacity := by
  have hpos := rb.capacity.pos
  have hle := rb.inner.le
  have hkeep := he.keep .pushBack (by simp)
  unfold RingBuffer.push VecDeque.len
  split
  next hfull =>
    have hpop := he.keep .popFront (by simp) rb.inner.items.tail.length rb.inner.capacity
      (by rw [length_tail]; omega)
    simp only [VecDeque.pushBack, VecDeque.popFront, VecDeque.alloc, hpop]
    rw [hkeep _ _ (by rw [length_append, length_tail, length_singleton]; omega), h]
  next hroom =>
    simp only [VecDeque.pushBack, VecDeque.alloc]
    rw [hkeep _ _ (by rw [length_append, length_singleton]; omega), h]

lemma Exact.extend (items : List α) (h : rb.inner.capacity = rb.capacity) :
    ExtendFits std items rb ∧ (rb.extend std items).inner.capacity = rb.capacity := by
  induction items generalizing rb with
  | nil => exact ⟨trivial, h⟩
  | cons value items ih =>
    obtain ⟨hfits, hcapacity⟩ := ih (he.push h value)
    exact ⟨⟨fits_of_capacity h, hfits⟩, hcapacity⟩

lemma Exact.push_room (h : rb.inner.len < rb.inner.capacity) (value : α) :
    (rb.push std value).inner.items = rb.inner.items ++ [value] ∧
      (rb.push std value).inner.capacity = rb.inner.capacity := by
  unfold RingBuffer.push
  rw [if_neg h.ne]
  refine ⟨rfl, he.keep .pushBack (by simp) _ _ ?_⟩
  rw [length_append, length_singleton]
  exact h

lemma Exact.extend_room (items : List α) (h : rb.inner.len + items.length ≤ rb.inner.capacity) :
    (rb.extend std items).inner.items = rb.inner.items ++ items ∧
      (rb.extend std items).inner.capacity = rb.inner.capacity := by
  induction items generalizing rb with
  | nil => exact ⟨(append_nil _).symm, rfl⟩
  | cons value items ih =>
    rw [length_cons] at h
    obtain ⟨hitems, hcapacity⟩ := he.push_room (show rb.inner.len < rb.inner.capacity by omega) value
    have hroom : (rb.push std value).inner.len + items.length ≤ (rb.push std value).inner.capacity := by
      rw [VecDeque.len, hitems, hcapacity, length_append, length_singleton]
      unfold VecDeque.len at h
      omega
    obtain ⟨hall, hkept⟩ := ih hroom
    refine ⟨?_, hkept.trans hcapacity⟩
    rw [hitems, append_assoc] at hall
    exact hall

lemma Exact.retain_capacity (predicate : α → Bool) :
    (rb.retain std predicate).inner.capacity = rb.inner.capacity :=
  he.keep .retain (by simp) _ _ ((length_filter_le _ _).trans rb.inner.le)

lemma Exact.step {op : Op α} (hop : op ≠ .clone) (h : rb.inner.capacity = rb.capacity) :
    rb.OpFits std op ∧ ∀ rb' outcome, rb.step std op = some (rb', outcome) →
      rb'.inner.capacity = rb'.capacity := by
  have hle := rb.inner.le
  cases op with
  | clone => exact absurd rfl hop
  | push value =>
    refine ⟨fits_of_capacity h, fun rb' outcome hs => ?_⟩
    cases hs
    exact he.push h value
  | extend items =>
    obtain ⟨hfits, hcapacity⟩ := he.extend items h
    refine ⟨hfits, fun rb' outcome hs => ?_⟩
    cases hs
    rw [hcapacity, (extend_items items hfits).2]
  | reload =>
    refine ⟨trivial, fun rb' outcome hs => ?_⟩
    cases hs
    exact he.fromParts (h ▸ hle) ((he.deserialize _ 0).trans_le (h ▸ hle))
  | drain start stop =>
    refine ⟨trivial, fun rb' outcome hs => ?_⟩
    simp only [RingBuffer.step] at hs
    split at hs
    · cases hs
      refine (he.keep .drain (by simp) _ _ ?_).trans h
      rw [length_append, length_take, length_drop]
      omega
    · cases hs
  | pop =>
    refine ⟨trivial, fun rb' outcome hs => ?_⟩
    cases hs
    refine (he.keep .popFront (by simp) _ _ ?_).trans h
    rw [length_tail]
    omega
  | remove index =>
    refine ⟨trivial, fun rb' outcome hs => ?_⟩
    cases hs
    exact (he.keep .remove (by simp) _ _ ((length_eraseIdx_le _ _).trans hle)).trans h
  | retain predicate =>
    refine ⟨trivial, fun rb' outcome hs => ?_⟩
    cases hs
    exact (he.keep .retain (by simp) _ _ ((length_filter_le _ _).trans hle)).trans h
  | clear =>
    refine ⟨trivial, fun rb' outcome hs => ?_⟩
    cases hs
    exact (he.keep .clear (by simp) _ _ (Nat.zero_le _)).trans h

end

lemma Exact.run {ops : List (Std × Op α)} (hops : ∀ x ∈ ops, Exact x.1 ∧ x.2 ≠ .clone)
    (h : rb.inner.capacity = rb.capacity) : RunFits ops rb := by
  induction ops generalizing rb with
  | nil => trivial
  | cons x ops ih =>
    obtain ⟨⟨he, hop⟩, hops⟩ := forall_mem_cons.1 hops
    obtain ⟨hfits, hnext⟩ := he.step hop h
    exact ⟨hfits, fun rb' outcome hs => ih hops (hnext rb' outcome hs)⟩

/-- **A ring buffer is a bounded first-in first-out queue** along every sequence of operations whose
pushes fit: it has the elements and the outcomes of the queue of its capacity, and never more
elements than that. They fit if there is no clone and allocations are exact. A single push does what
the queue does exactly when it fits. -/
theorem bounded_fifo (std : Std) (c : ℕ+) :
    (∀ ops : List (Std × Op α), RunFits ops (new std c) →
      (run ops (new std c)).map (fun x => (x.1.inner.items, x.2)) = Queue.run c (ops.map Prod.snd) [] ∧
      ∀ rb outcomes, run ops (new std c) = some (rb, outcomes) → rb.len ≤ c) ∧
    (Exact std → ∀ ops : List (Std × Op α), (∀ x ∈ ops, Exact x.1 ∧ x.2 ≠ .clone) → RunFits ops (new std c)) ∧
    ∀ (rb : RingBuffer α) (value : α), rb.capacity = c →
      ((rb.push std value).inner.items = Queue.push c rb.inner.items value ↔ rb.Fits) := by
  refine ⟨fun ops hfit => ?_, fun he ops hops => ?_, fun rb value hc => hc ▸ push_items_iff std rb value⟩
  · have hle : (new std c : RingBuffer α).len ≤ (new std c : RingBuffer α).capacity := by
      unfold len VecDeque.len
      rw [new_items]
      exact Nat.zero_le _
    have hrun := run_items hle hfit
    rw [new_items] at hrun
    exact hrun
  · exact Exact.run hops (he.fromParts (Nat.zero_le _) (he.withCapacity c 0).le)

/-- What `VecDeque` does: exact allocations, amortized growth, and clones without spare capacity. -/
def vecDequeStd : Std where
  capacity
    | .withCapacity n, len, _ => max len n
    | .reserveExact n, len, old => max old (len + n)
    | .clone, len, _ => len
    | .deserialize, len, _ => len
    | _, len, old => if len ≤ old then old else max len (max (2 * old) 4)
  le request len old := by
    cases request with
    | withCapacity | reserveExact | clone | deserialize => simp only; omega
    | pushBack | popFront | remove | drain | retain | clear => simp only; split <;> omega

lemma exact_vecDequeStd : Exact vecDequeStd where
  withCapacity n old := Nat.zero_max n
  reserveExact n len old := rfl
  deserialize len old := rfl
  keep request hrequest len old hle := by
    simp only [mem_cons, not_mem_nil, or_false] at hrequest
    rcases hrequest with rfl | rfl | rfl | rfl | rfl | rfl <;> exact if_pos hle

theorem bounded_fifo_three_pushes :
    ((run [(vecDequeStd, .push 'a'), (vecDequeStd, .push 'b'), (vecDequeStd, .reload),
      (vecDequeStd, .push 'c')]
      (new vecDequeStd 2)).map fun x => x.1.inner.items) = some ['b', 'c'] := by
  have h := bounded_fifo (α := Char) vecDequeStd 2
  have hrun := (h.1 _ (h.2.1 exact_vecDequeStd
    [(vecDequeStd, .push 'a'), (vecDequeStd, .push 'b'), (vecDequeStd, .reload), (vecDequeStd, .push 'c')]
    (by simp [exact_vecDequeStd]))).1
  have hitems := congrArg (Option.map Prod.fst) hrun
  exact hitems

/-- **A clone drops elements too early.** A buffer of three elements holds one; its clone has room
for no more, and a push to the clone drops the element. -/
theorem clone_evicts_early :
    ((run [(vecDequeStd, .push 'a'), (vecDequeStd, .clone), (vecDequeStd, .push 'b')] (new vecDequeStd 3)).map
      fun x => x.1.inner.items) = some ['b'] ∧
    (Queue.run 3 [.push 'a', .clone, .push 'b'] []).map Prod.fst = some ['a', 'b'] := by
  exact ⟨rfl, rfl⟩

end RingBuffer

end HaranaMatrix.Common
