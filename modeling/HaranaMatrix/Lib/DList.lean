import Mathlib

/-!
# Doubly linked lists in a heap

A heap maps addresses to nodes with a `previous` and a `next` pointer.

* `Seg h a cs b` — the cells `cs` are chained from left to right, the first one points back to `a`
  and the last one points on to `b`;
* `Rep h cs ls` — the heap consists of one chain `cs` and of the loose nodes `ls`, and of nothing
  else: no cell is lost, and no address is used twice;
* `linkAfter`, `linkBefore` and `unlink` — the three pointer surgeries, each with its effect on `Rep`;
* `walkNext`, `walkPrevious` and `findPrevious` — the traversals, with their value on a chain.
-/

namespace HaranaMatrix.DList

open List

abbrev Ptr : Type := ℕ

/-- A heap cell: the two pointers of a linked list, and what the cell holds. -/
structure Node (α : Type) where
  previous : Option Ptr
  next : Option Ptr
  data : α

/-- The allocated cells. Addresses from `fresh` on have never been handed out. -/
structure Heap (α : Type) where
  cells : Ptr → Option (Node α)
  fresh : Ptr

variable {α : Type}

variable {cs : List (Ptr × α)} {a b : Option Ptr} {h : Heap α} {x : Ptr × Node α} {p : Ptr} {n : Node α}

namespace Heap

def empty : Heap α := ⟨fun _ => none, 0⟩

variable (h)

def set (p : Ptr) (n : Node α) : Heap α :=
  { h with cells := Function.update h.cells p (some n) }

/-- A new cell with no neighbours. -/
def alloc (d : α) : Ptr × Heap α :=
  (h.fresh, ⟨Function.update h.cells h.fresh (some ⟨none, none, d⟩), h.fresh + 1⟩)

def free (p : Ptr) : Heap α :=
  { h with cells := Function.update h.cells p none }

/-- Writing through a pointer; `none` when nothing is allocated there. -/
def modify (p : Ptr) (f : Node α → Node α) : Option (Heap α) :=
  (h.cells p).map fun n => h.set p (f n)

@[simp] lemma set_self (p : Ptr) (n : Node α) : (h.set p n).cells p = some n := by
  simp [set]

@[simp] lemma set_of_ne {p q : Ptr} (n : Node α) (hq : q ≠ p) : (h.set p n).cells q = h.cells q := by
  simp [set, hq]

variable {h}

lemma modify_eq (hp : h.cells p = some n) (f : Node α → Node α) : h.modify p f = some (h.set p (f n)) := by
  simp [modify, hp]

end Heap

/-! ## Chained cells -/

/-- The address of the first cell of `cs`, or `b` when there is none. -/
def headPtr : List (Ptr × α) → Option Ptr → Option Ptr
  | [], b => b
  | c :: _, _ => some c.1

/-- The address of the last cell of `cs`, or `a` when there is none. -/
@[simp] def lastPtr : List (Ptr × α) → Option Ptr → Option Ptr
  | [], a => a
  | c :: cs, _ => lastPtr cs (some c.1)

/-- The cells `cs` are chained, between the neighbours `a` and `b`. -/
def Seg (h : Heap α) : Option Ptr → List (Ptr × α) → Option Ptr → Prop
  | _, [], _ => True
  | a, c :: cs, b => h.cells c.1 = some ⟨a, headPtr cs b, c.2⟩ ∧ Seg h (some c.1) cs b

@[simp] lemma headPtr_nil (b : Option Ptr) : headPtr ([] : List (Ptr × α)) b = b := rfl

@[simp] lemma headPtr_cons (c : Ptr × α) (cs : List (Ptr × α)) (b : Option Ptr) :
    headPtr (c :: cs) b = some c.1 := rfl

@[simp] lemma headPtr_append (cs ds : List (Ptr × α)) (b : Option Ptr) :
    headPtr (cs ++ ds) b = headPtr cs (headPtr ds b) := by
  cases cs <;> rfl

@[simp] lemma lastPtr_append (cs ds : List (Ptr × α)) (a : Option Ptr) :
    lastPtr (cs ++ ds) a = lastPtr ds (lastPtr cs a) := by
  induction cs generalizing a with
  | nil => rfl
  | cons c cs ih => exact ih _

lemma lastPtr_eq (cs : List (Ptr × α)) (a : Option Ptr) :
    lastPtr cs a = ((cs.map Prod.fst).getLast?).or a := by
  induction cs using List.reverseRecOn with
  | nil => simp [lastPtr]
  | append_singleton cs c _ => simp [lastPtr]

lemma headPtr_eq (cs : List (Ptr × α)) (b : Option Ptr) : headPtr cs b = ((cs.map Prod.fst).head?).or b := by
  cases cs <;> simp [headPtr]

lemma lastPtr_eq_none (h : lastPtr cs none = none) : cs = [] := by
  rw [lastPtr_eq] at h
  simpa using h

theorem seg_append {cs ds : List (Ptr × α)} :
    Seg h a (cs ++ ds) b ↔ Seg h a cs (headPtr ds b) ∧ Seg h (lastPtr cs a) ds b := by
  induction cs generalizing a with
  | nil => simp [Seg, lastPtr]
  | cons c cs ih => simp [Seg, lastPtr, ih, and_assoc]

lemma seg_congr {h h' : Heap α}
    (heq : ∀ p ∈ cs.map Prod.fst, h'.cells p = h.cells p) (hs : Seg h a cs b) : Seg h' a cs b := by
  induction cs generalizing a with
  | nil => trivial
  | cons c cs ih =>
    refine ⟨?_, ih (fun p hp => heq p (by simp_all)) hs.2⟩
    rw [heq c.1 (by simp)]
    exact hs.1

lemma seg_set (n : Node α) (hp : p ∉ cs.map Prod.fst) (hs : Seg h a cs b) : Seg (h.set p n) a cs b :=
  seg_congr (fun _ hq => Heap.set_of_ne h n (fun hqp => hp (hqp ▸ hq))) hs

lemma seg_set_last {d : α} (hp : p ∉ cs.map Prod.fst) (hs : Seg h a (cs ++ [(p, d)]) b) (b' : Option Ptr) :
    Seg (h.set p ⟨lastPtr cs a, b', d⟩) a (cs ++ [(p, d)]) b' := by
  rw [seg_append] at hs ⊢
  exact ⟨seg_set _ hp hs.1, by simp [headPtr], trivial⟩

lemma seg_set_head {d : α} (hp : p ∉ cs.map Prod.fst) (hs : Seg h a ((p, d) :: cs) b) (a' : Option Ptr) :
    Seg (h.set p ⟨a', headPtr cs b, d⟩) a' ((p, d) :: cs) b :=
  ⟨by simp, seg_set _ hp hs.2⟩

/-- The addresses of a chain and of the loose nodes beside it. -/
def ptrs (cs : List (Ptr × α)) (ls : List (Ptr × Node α)) : List Ptr :=
  cs.map Prod.fst ++ ls.map Prod.fst

/-- The allocated addresses are those of `ps`, each of them once. -/
structure Owns (h : Heap α) (ps : List Ptr) : Prop where
  nodup : ps.Nodup
  dom : ∀ p, (h.cells p).isSome ↔ p ∈ ps
  lt_fresh : ∀ p ∈ ps, p < h.fresh

lemma Owns.perm {ps qs : List Ptr} (ho : Owns h ps) (hp : ps.Perm qs) : Owns h qs :=
  ⟨hp.nodup_iff.1 ho.nodup, fun p => (ho.dom p).trans hp.mem_iff, fun p hq => ho.lt_fresh p (hp.mem_iff.2 hq)⟩

lemma Owns.set {ps : List Ptr} (ho : Owns h ps) (hp : p ∈ ps) (n : Node α) : Owns (h.set p n) ps := by
  refine ⟨ho.nodup, fun q => ?_, ho.lt_fresh⟩
  by_cases hq : q = p
  · subst hq
    simp [hp]
  · rw [Heap.set_of_ne h n hq]
    exact ho.dom q

/-- **The heap is one chain `cs`, and the loose nodes `ls`.** -/
structure Rep (h : Heap α) (cs : List (Ptr × α)) (ls : List (Ptr × Node α)) : Prop where
  seg : Seg h none cs none
  loose : ∀ x ∈ ls, h.cells x.1 = some x.2
  owns : Owns h (ptrs cs ls)

lemma rep_empty : Rep (Heap.empty : Heap α) [] [] :=
  ⟨trivial, by simp, by constructor <;> simp [ptrs, Heap.empty]⟩

section Surgery

variable {h : Heap α} {pre post : List (Ptr × α)} {ls : List (Ptr × Node α)} {p new : Ptr} {d dn : α}

lemma Rep.cell (hr : Rep h (pre ++ (p, d) :: post) ls) :
    h.cells p = some ⟨lastPtr pre none, headPtr post none, d⟩ :=
  (seg_append.1 hr.seg).2.1

lemma Rep.notMem (hr : Rep h (pre ++ (p, d) :: post) ls) :
    p ∉ pre.map Prod.fst ∧ p ∉ post.map Prod.fst ∧ p ∉ ls.map Prod.fst := by
  have hn := hr.owns.nodup
  simp only [ptrs, map_append, map_cons, append_assoc, cons_append] at hn
  have := (nodup_middle.1 hn)
  simp only [nodup_cons, mem_append, not_or] at this
  exact this.1

/-! ### Allocation, and writing to one cell -/

theorem Rep.alloc (hr : Rep h cs ls) (d : α) :
    Rep (h.alloc d).2 cs (((h.alloc d).1, ⟨none, none, d⟩) :: ls) := by
  have hfresh : h.fresh ∉ ptrs cs ls := fun hm => lt_irrefl _ (hr.owns.lt_fresh _ hm)
  have hne : ∀ q ∈ ptrs cs ls, (h.alloc d).2.cells q = h.cells q := by
    intro q hq
    have : q ≠ h.fresh := fun hqf => hfresh (hqf ▸ hq)
    simp [Heap.alloc, this]
  refine ⟨seg_congr (fun q hq => hne q (by simp [ptrs] at hq ⊢; tauto)) hr.seg, ?_, ?_⟩
  · intro x hx
    rcases mem_cons.1 hx with rfl | hx
    · simp [Heap.alloc]
    · rw [hne x.1 (by simp only [ptrs, mem_append, mem_map]; exact Or.inr ⟨x, hx, rfl⟩)]
      exact hr.loose x hx
  · have hp : (h.fresh :: ptrs cs ls).Perm (ptrs cs ((h.fresh, ⟨none, none, d⟩) :: ls)) :=
      perm_middle.symm
    refine Owns.perm ⟨nodup_cons.2 ⟨hfresh, hr.owns.nodup⟩, fun q => ?_, fun q hq => ?_⟩ hp
    · by_cases hq : q = h.fresh
      · subst hq
        simp [Heap.alloc]
      · have := hr.owns.dom q
        simp [Heap.alloc, hq, this]
    · rcases mem_cons.1 hq with rfl | hq
      · exact Nat.lt_succ_self _
      · exact Nat.lt_succ_of_lt (hr.owns.lt_fresh q hq)

theorem Rep.setData (hr : Rep h (pre ++ (p, d) :: post) ls) (d' : α) :
    Rep (h.set p ⟨lastPtr pre none, headPtr post none, d'⟩) (pre ++ (p, d') :: post) ls := by
  obtain ⟨h1, h2, h3⟩ := hr.notMem
  obtain ⟨hs1, hs2⟩ := seg_append.1 hr.seg
  have hne : ∀ {q : Ptr} {l : List Ptr}, p ∉ l → q ∈ l → q ≠ p := fun hp hq hqp => hp (hqp ▸ hq)
  refine ⟨seg_append.2 ⟨?_, ?_, ?_⟩, ?_, ?_⟩
  · exact seg_congr (fun q hq => Heap.set_of_ne _ _ (hne h1 hq)) hs1
  · simp
  · exact seg_congr (fun q hq => Heap.set_of_ne _ _ (hne h2 hq)) hs2.2
  · intro x hx
    rw [Heap.set_of_ne _ _ (hne h3 (mem_map_of_mem hx))]
    exact hr.loose x hx
  · have ho := hr.owns
    have hpt : ptrs (pre ++ (p, d) :: post) ls = ptrs (pre ++ (p, d') :: post) ls := by simp [ptrs]
    rw [hpt] at ho
    exact ho.set (by simp [ptrs]) _

theorem Rep.setLoose (hr : Rep h cs ((p, n) :: ls)) (n' : Node α) : Rep (h.set p n') cs ((p, n') :: ls) := by
  have hn := hr.owns.nodup
  have hnm := (nodup_cons.1 (nodup_middle.1 hn)).1
  simp only [mem_append, not_or] at hnm
  refine ⟨seg_congr (fun q hq => Heap.set_of_ne _ _ ?_) hr.seg, ?_, ?_⟩
  · rintro rfl
    exact hnm.1 hq
  · intro x hx
    rcases mem_cons.1 hx with rfl | hx
    · simp
    · rw [Heap.set_of_ne]
      · exact hr.loose x (mem_cons_of_mem _ hx)
      · intro hxp
        exact hnm.2 (hxp ▸ mem_map_of_mem hx)
  · have ho := hr.owns
    exact ho.set (by simp [ptrs]) _

theorem Rep.free (hr : Rep h cs ((p, n) :: ls)) : Rep (h.free p) cs ls := by
  have hn := hr.owns.nodup
  obtain ⟨hnm, hnd⟩ := nodup_cons.1 (nodup_middle.1 hn)
  have hne : ∀ q ∈ ptrs cs ls, (h.free p).cells q = h.cells q := by
    intro q hq
    have : q ≠ p := fun hqp => hnm (hqp ▸ hq)
    simp [Heap.free, this]
  refine ⟨seg_congr (fun q hq => hne q (by simp [ptrs] at hq ⊢; tauto)) hr.seg, ?_, hnd, ?_, ?_⟩
  · intro x hx
    rw [hne x.1 (by simp only [ptrs, mem_append, mem_map]; exact Or.inr ⟨x, hx, rfl⟩)]
    exact hr.loose x (mem_cons_of_mem _ hx)
  · intro q
    by_cases hq : q = p
    · subst hq
      simpa [Heap.free, ptrs] using hnm
    · have := hr.owns.dom q
      simpa [Heap.free, hq, ptrs] using this
  · intro q hq
    exact hr.owns.lt_fresh q (by simp [ptrs] at hq ⊢; tauto)

lemma cells_freeAll (ns : List (Ptr × Node α)) (q : Ptr) :
    (ns.foldl (fun h c => h.free c.1) h).cells q = if q ∈ ns.map Prod.fst then none else h.cells q := by
  induction ns generalizing h with
  | nil => simp
  | cons c ns ih =>
    rw [foldl_cons, ih]
    simp only [map_cons, mem_cons]
    by_cases hq : q = c.1
    · simp [Heap.free, hq]
    · have hiff : (q = c.1 ∨ q ∈ ns.map Prod.fst) ↔ q ∈ ns.map Prod.fst := or_iff_right hq
      simp only [Heap.free, Function.update_of_ne hq, hiff]

lemma fresh_freeAll (ns : List (Ptr × Node α)) : (ns.foldl (fun h c => h.free c.1) h).fresh = h.fresh := by
  induction ns generalizing h with
  | nil => rfl
  | cons c ns ih => rw [foldl_cons, ih]; rfl

/-- **Freeing every cell of the chain** leaves the loose nodes. -/
theorem Rep.freeAll (hr : Rep h cs ls) (ns : List (Ptr × Node α))
    (hns : ∀ q, q ∈ ns.map Prod.fst ↔ q ∈ cs.map Prod.fst) :
      Rep (ns.foldl (fun h c => h.free c.1) h) [] ls := by
  have hdisj := nodup_append.1 hr.owns.nodup
  have hls : ∀ q ∈ ls.map Prod.fst, q ∉ ns.map Prod.fst := fun q hq hq' =>
    hdisj.2.2 q ((hns q).1 hq') q hq rfl
  refine ⟨trivial, fun x hx => ?_, ?_⟩
  · rw [cells_freeAll, if_neg (hls _ (mem_map_of_mem hx))]
    exact hr.loose x hx
  · refine ⟨hdisj.2.1, fun q => ?_, fun q hq => ?_⟩
    · rw [cells_freeAll]
      have hdom := hr.owns.dom q
      simp only [ptrs, mem_append] at hdom
      by_cases hq : q ∈ ns.map Prod.fst
      · have hql : q ∉ ls.map Prod.fst := fun h => hls q h hq
        simp only [hq, if_true, ptrs, map_nil, nil_append, hql, iff_false]
        simp
      · have hqc : q ∉ cs.map Prod.fst := fun h => hq ((hns q).2 h)
        simp only [hq, if_false, ptrs, map_nil, nil_append, hdom, hqc, false_or]
    · rw [fresh_freeAll]
      exact hr.owns.lt_fresh q (by simp only [ptrs, mem_append]; exact Or.inr hq)

theorem Rep.single (hr : Rep h [] ((p, ⟨none, none, d⟩) :: ls)) : Rep h [(p, d)] ls :=
  ⟨⟨hr.loose (p, ⟨none, none, d⟩) (by simp), trivial⟩, fun x hx => hr.loose x (mem_cons_of_mem _ hx), hr.owns⟩

end Surgery

/-! ## The pointer surgeries -/

/-- Linking the cell `new` after the cell `p`. -/
def linkAfter (h : Heap α) (p new : Ptr) : Option (Heap α) := do
  let n ← h.cells p
  let h ← match n.next with
    | some q => do
      let h ← h.modify q fun c => { c with previous := some new }
      h.modify new fun c => { c with next := n.next }
    | none => some h
  let h ← h.modify p fun c => { c with next := some new }
  h.modify new fun c => { c with previous := some p }

/-- Linking the cell `new` before the cell `p`. -/
def linkBefore (h : Heap α) (p new : Ptr) : Option (Heap α) := do
  let n ← h.cells p
  let h ← match n.previous with
    | some q => do
      let h ← h.modify q fun c => { c with next := some new }
      h.modify new fun c => { c with previous := n.previous }
    | none => some h
  let h ← h.modify p fun c => { c with previous := some new }
  h.modify new fun c => { c with next := some p }

/-- Letting the cell `q`, if there is one, point on to `b`. -/
def setNext (h : Heap α) (q b : Option Ptr) : Option (Heap α) :=
  match q with
  | some q => h.modify q fun c => { c with next := b }
  | none => some h

/-- Letting the cell `q`, if there is one, point back to `a`. -/
def setPrevious (h : Heap α) (q a : Option Ptr) : Option (Heap α) :=
  match q with
  | some q => h.modify q fun c => { c with previous := a }
  | none => some h

/-- Letting the neighbours of the cell `p` point past it; its own pointers stay. -/
def unlink (h : Heap α) (p : Ptr) : Option (Heap α) := do
  let n ← h.cells p
  let h ← setNext h n.previous n.next
  setPrevious h n.next n.previous

section Surgery

variable {h : Heap α} {pre post : List (Ptr × α)} {ls : List (Ptr × Node α)} {p new : Ptr} {d dn : α}

lemma ptrs_insert (cs ds : List (Ptr × α)) (ls : List (Ptr × Node α)) (p : Ptr) (d : α) (n : Node α) :
    (ptrs (cs ++ ds) ((p, n) :: ls)).Perm (ptrs (cs ++ (p, d) :: ds) ls) := by
  simp only [ptrs, map_append, map_cons, append_assoc, cons_append]
  rw [← append_assoc]
  exact perm_middle.trans (by simpa using perm_middle.symm)

lemma Rep.loose_notMem (hr : Rep h cs ((p, n) :: ls)) : p ∉ cs.map Prod.fst ∧ p ∉ ls.map Prod.fst := by
  have hn := hr.owns.nodup
  have hnm := (nodup_cons.1 (nodup_middle.1 hn)).1
  simpa only [mem_append, not_or] using hnm

lemma Rep.loose_disjoint (hr : Rep h cs ls) (hx : x ∈ ls) :
    x.1 ∉ cs.map Prod.fst := fun hm =>
  (nodup_append.1 hr.owns.nodup).2.2 x.1 hm x.1 (mem_map_of_mem hx) rfl

lemma ne_of_notMem {p q : Ptr} {l : List Ptr} (hp : p ∉ l) (hq : q ∈ l) : q ≠ p :=
  fun hqp => hp (hqp ▸ hq)

/-- **Linking a loose cell after a cell of the chain.** -/
theorem Rep.linkAfter (hr : Rep h (pre ++ (p, d) :: post) ((new, ⟨none, none, dn⟩) :: ls)) :
    ∃ h', linkAfter h p new = some h' ∧ Rep h' (pre ++ (p, d) :: (new, dn) :: post) ls := by
  obtain ⟨hp1, hp2, -⟩ := hr.notMem
  obtain ⟨hn1, hn2⟩ := hr.loose_notMem
  simp only [map_append, map_cons, mem_append, mem_cons, not_or] at hn1
  obtain ⟨hnpre, hnp, hnpost⟩ := hn1
  obtain ⟨hs1, -, hs3⟩ := seg_append.1 hr.seg
  have hnew : h.cells new = some ⟨none, none, dn⟩ := hr.loose (new, _) (by simp)
  have hown := hr.owns
  have hpm : p ∈ ptrs (pre ++ (p, d) :: post) ((new, ⟨none, none, dn⟩) :: ls) := by simp [ptrs]
  have hnm : new ∈ ptrs (pre ++ (p, d) :: post) ((new, ⟨none, none, dn⟩) :: ls) := by simp [ptrs]
  have hperm := ptrs_insert (pre ++ [(p, d)]) post ls new dn ⟨none, none, dn⟩
  simp only [append_assoc, singleton_append] at hperm
  have hloose : ∀ x ∈ ls, x.1 ≠ p ∧ x.1 ≠ new ∧ x.1 ∉ post.map Prod.fst := by
    intro x hx
    have hd := hr.loose_disjoint (mem_cons_of_mem _ hx)
    simp only [map_append, map_cons, mem_append, mem_cons, not_or] at hd
    exact ⟨hd.2.1, ne_of_notMem hn2 (mem_map_of_mem hx), hd.2.2⟩
  cases post with
  | nil =>
    refine ⟨(h.set p ⟨lastPtr pre none, some new, d⟩).set new ⟨some p, none, dn⟩, ?_, ?_, ?_, ?_⟩
    · simp [DList.linkAfter, hr.cell, headPtr, Heap.modify, hnp, hnew]
    · refine seg_append.2 ⟨seg_set _ hnpre (seg_set _ hp1 hs1), ?_, ?_, trivial⟩
      · simp [headPtr, Ne.symm hnp]
      · simp [headPtr]
    · intro x hx
      obtain ⟨hx1, hx2, -⟩ := hloose x hx
      rw [Heap.set_of_ne _ _ hx2, Heap.set_of_ne _ _ hx1]
      exact hr.loose x (mem_cons_of_mem _ hx)
    · exact ((hown.set hpm _).set hnm _).perm hperm
  | cons c post =>
    obtain ⟨q, e⟩ := c
    have hcq : h.cells q = some ⟨some p, headPtr post none, e⟩ := hs3.1
    simp only [map_cons, mem_cons, not_or] at hp2 hnpost
    have hr' : Rep h ((pre ++ [(p, d)]) ++ (q, e) :: post) ((new, ⟨none, none, dn⟩) :: ls) := by
      simpa using hr
    obtain ⟨hq1, hq2, -⟩ := hr'.notMem
    simp only [map_append, mem_append, not_or] at hq1
    have hqm : q ∈ ptrs (pre ++ (p, d) :: (q, e) :: post) ((new, ⟨none, none, dn⟩) :: ls) := by
      simp [ptrs]
    refine ⟨(((h.set q ⟨some new, headPtr post none, e⟩).set new ⟨none, some q, dn⟩).set p
      ⟨lastPtr pre none, some new, d⟩).set new ⟨some p, some q, dn⟩, ?_, ?_, ?_, ?_⟩
    · simp [DList.linkAfter, hr.cell, headPtr, Heap.modify, hcq, hnew, hnpost.1, hnp, Ne.symm hnp, hp2.1]
    · refine seg_append.2 ⟨?_, ?_, ?_, ?_⟩
      · exact seg_set _ hnpre (seg_set _ hp1 (seg_set _ hnpre (seg_set _ hq1.1 hs1)))
      · simp [headPtr, Ne.symm hnp]
      · simp [headPtr]
      · exact seg_set _ (by simp [hnpost]) (seg_set _ (by simp [hp2]) (seg_set _ (by simp [hnpost])
          (seg_set_head hq2 hs3 (some new))))
    · intro x hx
      obtain ⟨hx1, hx2, hx3⟩ := hloose x hx
      have hx4 : x.1 ≠ q := fun hxq => hx3 (by simp [hxq])
      rw [Heap.set_of_ne _ _ hx2, Heap.set_of_ne _ _ hx1, Heap.set_of_ne _ _ hx2, Heap.set_of_ne _ _ hx4]
      exact hr.loose x (mem_cons_of_mem _ hx)
    · exact ((((hown.set hqm _).set hnm _).set hpm _).set hnm _).perm hperm

lemma linkBefore_eq_linkAfter {q : Ptr} {a b : Option Ptr} {e : α} {n : Node α}
    (hq : h.cells q = some ⟨a, some p, e⟩)
    (hp : h.cells p = some ⟨some q, b, d⟩) (hnew : h.cells new = some n) (hqp : q ≠ p)
    (hqn : q ≠ new) (hpn : p ≠ new) :
    linkBefore h p new = linkAfter h q new := by
  simp only [linkBefore, linkAfter, hp, hq, hnew, Option.bind_eq_bind, Option.bind_some,
    Heap.modify, Option.map_some,
    Heap.set_of_ne, ne_eq, hqp, hqn, hpn, Ne.symm hqp, Ne.symm hqn, Ne.symm hpn, not_false_eq_true, Heap.set_self]
  simp only [Heap.set, Function.update_idem, Function.update_comm hqn, Function.update_comm hpn,
    Function.update_comm hqp]

/-- **Linking a loose cell before a cell of the chain.** -/
theorem Rep.linkBefore (hr : Rep h (pre ++ (p, d) :: post) ((new, ⟨none, none, dn⟩) :: ls)) :
    ∃ h', linkBefore h p new = some h' ∧ Rep h' (pre ++ (new, dn) :: (p, d) :: post) ls := by
  obtain ⟨hp1, hp2, -⟩ := hr.notMem
  obtain ⟨hn1, hn2⟩ := hr.loose_notMem
  simp only [map_append, map_cons, mem_append, mem_cons, not_or] at hn1
  obtain ⟨hnpre, hnp, hnpost⟩ := hn1
  have hnew : h.cells new = some ⟨none, none, dn⟩ := hr.loose (new, _) (by simp)
  rcases eq_nil_or_concat' pre with rfl | ⟨pre, ⟨q, e⟩, rfl⟩
  · refine ⟨(h.set p ⟨some new, headPtr post none, d⟩).set new ⟨none, some p, dn⟩, ?_, ?_, ?_, ?_⟩
    · simp [DList.linkBefore, hr.cell, lastPtr, Heap.modify, hnp, hnew]
    · refine ⟨by simp [headPtr], ?_⟩
      exact seg_set _ (by simp [hnp, hnpost]) (seg_set_head hp2 (seg_append.1 hr.seg).2 (some new))
    · intro x hx
      have hxp := hr.loose_disjoint (mem_cons_of_mem _ hx)
      simp only [nil_append, map_cons, mem_cons, not_or] at hxp
      rw [Heap.set_of_ne _ _ (ne_of_notMem hn2 (mem_map_of_mem hx)), Heap.set_of_ne _ _ hxp.1]
      exact hr.loose x (mem_cons_of_mem _ hx)
    · exact ((hr.owns.set (by simp [ptrs]) _).set (by simp [ptrs]) _).perm
        (ptrs_insert [] ((p, d) :: post) ls new dn ⟨none, none, dn⟩)
  · -- The cell before it is there, so `new` is linked after that one.
    have hr' : Rep h (pre ++ (q, e) :: ((p, d) :: post)) ((new, ⟨none, none, dn⟩) :: ls) := by simpa using hr
    obtain ⟨-, hq2, -⟩ := hr'.notMem
    simp only [map_append, map_cons, map_nil, mem_append, mem_cons, not_or] at hnpre hq2
    obtain ⟨h', hlink, hrep⟩ := hr'.linkAfter
    refine ⟨h', ?_, by simpa using hrep⟩
    rw [linkBefore_eq_linkAfter hr'.cell (by simpa [lastPtr] using hr.cell) hnew hq2.1 (Ne.symm hnpre.2.1) (Ne.symm hnp),
      hlink]

/-- **Taking a cell out of the chain**: it becomes loose, with its old pointers. -/
theorem Rep.unlink (hr : Rep h (pre ++ (p, d) :: post) ls) :
    ∃ h', unlink h p = some h' ∧
      Rep h' (pre ++ post) ((p, ⟨lastPtr pre none, headPtr post none, d⟩) :: ls) := by
  obtain ⟨hp1, hp2, hp3⟩ := hr.notMem
  obtain ⟨hs1, -, hs3⟩ := seg_append.1 hr.seg
  have hown := hr.owns
  have hperm := (ptrs_insert pre post ls p d ⟨lastPtr pre none, headPtr post none, d⟩).symm
  have hloose : ∀ x ∈ ls, x.1 ∉ pre.map Prod.fst ∧ x.1 ∉ post.map Prod.fst := by
    intro x hx
    have hd := hr.loose_disjoint hx
    simp only [map_append, map_cons, mem_append, mem_cons, not_or] at hd
    exact ⟨hd.1, hd.2.2⟩
  have hdisj : ∀ q ∈ pre.map Prod.fst, q ∉ post.map Prod.fst := by
    intro q hq hq'
    have hnd := (nodup_append.1 hown.nodup).1
    simp only [map_append, map_cons] at hnd
    exact (nodup_append.1 hnd).2.2 q hq q (mem_cons_of_mem _ hq') rfl
  -- the left neighbour is patched first, then the right one
  obtain ⟨h1, hh1, hseg1, hcells1, hown1⟩ : ∃ h1 : Heap α,
      setNext h (lastPtr pre none) (headPtr post none) = some h1 ∧ Seg h1 none pre (headPtr post none) ∧
      (∀ q, q ∉ pre.map Prod.fst → h1.cells q = h.cells q) ∧
      Owns h1 (ptrs (pre ++ (p, d) :: post) ls) := by
    rcases eq_nil_or_concat' pre with rfl | ⟨pre, ⟨q, e⟩, rfl⟩
    · exact ⟨h, rfl, trivial, fun _ _ => rfl, hown⟩
    · have hr' : Rep h (pre ++ (q, e) :: ((p, d) :: post)) ls := by simpa using hr
      refine ⟨h.set q ⟨lastPtr pre none, headPtr post none, e⟩, ?_, ?_, ?_, ?_⟩
      · simp [setNext, lastPtr, Heap.modify, hr'.cell]
      · exact seg_set_last hr'.notMem.1 hs1 _
      · intro x hx
        exact Heap.set_of_ne _ _ (fun hxq => hx (by simp [hxq]))
      · exact hown.set (by simp [ptrs]) _
  have hseg2 : Seg h1 (some p) post none :=
    seg_congr (fun q hq => hcells1 q (fun hq' => hdisj q hq' hq)) hs3
  obtain ⟨h2, hh2, hseg3, hcells2, hown2⟩ : ∃ h2 : Heap α,
      setPrevious h1 (headPtr post none) (lastPtr pre none) = some h2 ∧ Seg h2 (lastPtr pre none) post none ∧
      (∀ q, q ∉ post.map Prod.fst → h2.cells q = h1.cells q) ∧
      Owns h2 (ptrs (pre ++ (p, d) :: post) ls) := by
    cases post with
    | nil => exact ⟨h1, rfl, trivial, fun _ _ => rfl, hown1⟩
    | cons c post =>
      obtain ⟨q, e⟩ := c
      have hr' : Rep h ((pre ++ [(p, d)]) ++ (q, e) :: post) ls := by simpa using hr
      have hcq : h1.cells q = some ⟨some p, headPtr post none, e⟩ := hseg2.1
      refine ⟨h1.set q ⟨lastPtr pre none, headPtr post none, e⟩, ?_, ?_, ?_, ?_⟩
      · simp [setPrevious, headPtr, Heap.modify, hcq]
      · exact seg_set_head hr'.notMem.2.1 hseg2 _
      · intro x hx
        exact Heap.set_of_ne _ _ (fun hxq => hx (by simp [hxq]))
      · exact hown1.set (by simp [ptrs]) _
  refine ⟨h2, ?_, seg_append.2 ⟨?_, hseg3⟩, ?_, hown2.perm hperm⟩
  · unfold DList.unlink
    rw [hr.cell]
    simp only [Option.bind_eq_bind, Option.bind_some, hh1, hh2]
  · exact seg_congr (fun q hq => hcells2 q (hdisj q hq)) hseg1
  · intro x hx
    rcases mem_cons.1 hx with rfl | hx
    · rw [hcells2 p hp2, hcells1 p hp1]
      exact hr.cell
    · rw [hcells2 _ (hloose x hx).2, hcells1 _ (hloose x hx).1]
      exact hr.loose x hx

end Surgery

/-! ## Traversals

Each of them takes the number of cells it may visit, so that a cyclic heap gives `none`. -/

/-- The cells met from `p` on along `next`. -/
def walkNext (h : Heap α) : ℕ → Option Ptr → Option (List (Ptr × Node α))
  | _, none => some []
  | 0, some _ => none
  | k + 1, some p => do
    let n ← h.cells p
    let r ← walkNext h k n.next
    some ((p, n) :: r)

/-- The cells met from `p` on along `previous`. -/
def walkPrevious (h : Heap α) : ℕ → Option Ptr → Option (List (Ptr × Node α))
  | _, none => some []
  | 0, some _ => none
  | k + 1, some p => do
    let n ← h.cells p
    let r ← walkPrevious h k n.previous
    some ((p, n) :: r)

/-- The first cell met from `p` on along `previous` whose data pass the test. -/
def findPrevious (h : Heap α) (P : α → Bool) : ℕ → Option Ptr → Option (Option Ptr)
  | _, none => some none
  | 0, some _ => none
  | k + 1, some p => do
    let n ← h.cells p
    if P n.data then some (some p) else findPrevious h P k n.previous

/-- The nodes of the chain `cs` between the neighbours `a` and `b`. -/
def nodes : Option Ptr → List (Ptr × α) → Option Ptr → List (Ptr × Node α)
  | _, [], _ => []
  | a, c :: cs, b => (c.1, ⟨a, headPtr cs b, c.2⟩) :: nodes (some c.1) cs b

lemma nodes_append (a b : Option Ptr) (cs ds : List (Ptr × α)) :
    nodes a (cs ++ ds) b = nodes a cs (headPtr ds b) ++ nodes (lastPtr cs a) ds b := by
  induction cs generalizing a with
  | nil => rfl
  | cons c cs ih => simp [nodes, lastPtr, ih]

lemma map_nodes (a b : Option Ptr) (cs : List (Ptr × α)) :
    (nodes a cs b).map (fun x => (x.1, x.2.data)) = cs := by
  induction cs generalizing a with
  | nil => rfl
  | cons c cs ih => simp [nodes, ih]

lemma map_data_nodes (a b : Option Ptr) (cs : List (Ptr × α)) :
    (nodes a cs b).map (fun x => x.2.data) = cs.map Prod.snd := by
  conv_rhs => rw [← map_nodes a b cs]
  simp

lemma map_fst_nodes (a b : Option Ptr) (cs : List (Ptr × α)) :
    (nodes a cs b).map Prod.fst = cs.map Prod.fst := by
  induction cs generalizing a with
  | nil => rfl
  | cons c cs ih => simp [nodes, ih]

lemma nodes_next {i : ℕ} (hi : (nodes a cs b)[i]? = some x) :
    x.2.next = ((cs.map Prod.fst)[i + 1]?).or b := by
  induction cs generalizing a i with
  | nil => simp [nodes] at hi
  | cons c cs ih =>
    cases i with
    | zero =>
      obtain rfl := Option.some.inj hi
      cases cs <;> rfl
    | succ i => simpa using ih hi

lemma nodes_previous {i : ℕ} (hi : (nodes a cs b)[i]? = some x) :
    x.2.previous = if i = 0 then a else (cs.map Prod.fst)[i - 1]? := by
  induction cs generalizing a i with
  | nil => simp [nodes] at hi
  | cons c cs ih =>
    cases i with
    | zero =>
      obtain rfl := Option.some.inj hi
      rfl
    | succ i =>
      rw [ih hi]
      cases i <;> simp

lemma mem_nodes (hs : Seg h a cs b) (hx : x ∈ nodes a cs b) : h.cells x.1 = some x.2 := by
  induction cs generalizing a with
  | nil => simp [nodes] at hx
  | cons c cs ih =>
    rcases mem_cons.1 hx with rfl | hx
    · exact hs.1
    · exact ih hs.2 hx

theorem Rep.cells_iff (hr : Rep h cs []) (p : Ptr) (n : Node α) :
    h.cells p = some n ↔ (p, n) ∈ nodes none cs none := by
  refine ⟨fun hp => ?_, fun hx => mem_nodes hr.seg hx⟩
  have hmem : p ∈ (nodes none cs none).map Prod.fst := by
    rw [map_fst_nodes]
    simpa [ptrs] using (hr.owns.dom p).1 (by simp [hp])
  obtain ⟨x, hx, rfl⟩ := mem_map.1 hmem
  have := mem_nodes hr.seg hx
  rw [hp] at this
  rwa [Option.some.inj this]

section Walk

variable {h : Heap α} {cs : List (Ptr × α)} {a b : Option Ptr} {k : ℕ}

theorem walkNext_seg (hs : Seg h a cs none) (hk : cs.length ≤ k) :
    walkNext h k (headPtr cs none) = some (nodes a cs none) := by
  induction cs generalizing a k with
  | nil => cases k <;> rfl
  | cons c cs ih =>
    obtain _ | k := k
    · simp at hk
    show walkNext h (k + 1) (some c.1) = _
    simp only [walkNext, hs.1, Option.bind_eq_bind, Option.bind_some, nodes]
    rw [ih hs.2 (by simpa using hk)]
    rfl

theorem walkPrevious_seg (hs : Seg h none cs b) (hk : cs.length ≤ k) :
    walkPrevious h k (lastPtr cs none) = some (nodes none cs b).reverse := by
  induction cs using List.reverseRecOn generalizing b k with
  | nil => cases k <;> rfl
  | append_singleton cs c ih =>
    obtain ⟨hs1, hs2, -⟩ := seg_append.1 hs
    obtain _ | k := k
    · simp at hk
    simp only [lastPtr_append, lastPtr, walkPrevious, hs2, Option.bind_eq_bind, Option.bind_some,
      nodes_append, nodes]
    rw [ih hs1 (by simpa using hk)]
    simp [headPtr]

/-- A search skips what fails the test. -/
theorem findPrevious_append {P : α → Bool} {post : List (Ptr × α)} (hs : Seg h none (cs ++ post) b)
    (hP : ∀ c ∈ post, P c.2 = false) :
    findPrevious h P (k + post.length) (lastPtr (cs ++ post) none) =
      findPrevious h P k (lastPtr cs none) := by
  induction post using List.reverseRecOn generalizing b with
  | nil => rw [append_nil, length_nil, Nat.add_zero]
  | append_singleton post c ih =>
    rw [← append_assoc] at hs ⊢
    obtain ⟨hs1, hs2, -⟩ := seg_append.1 hs
    rw [length_append, length_singleton, ← Nat.add_assoc]
    simp only [lastPtr_append, lastPtr, findPrevious, hs2, Option.bind_eq_bind, Option.bind_some]
    rw [hP c (by simp)]
    simpa using ih hs1 fun x hx => hP x (by simp [hx])

theorem findPrevious_none {P : α → Bool} (hs : Seg h none cs b) (hk : cs.length ≤ k)
    (hP : ∀ c ∈ cs, P c.2 = false) : findPrevious h P k (lastPtr cs none) = some none := by
  obtain ⟨k, rfl⟩ := Nat.exists_eq_add_of_le' hk
  rw [← nil_append cs] at hs ⊢
  refine (findPrevious_append hs hP).trans ?_
  cases k <;> rfl

theorem findPrevious_some {P : α → Bool} {pre post : List (Ptr × α)} {d : α}
    (hs : Seg h none (pre ++ (p, d) :: post) b) (hk : (pre ++ (p, d) :: post).length ≤ k)
    (hd : P d = true) (hP : ∀ c ∈ post, P c.2 = false) :
    findPrevious h P k (lastPtr (pre ++ (p, d) :: post) none) = some (some p) := by
  rw [append_cons] at hs ⊢
  obtain ⟨k, rfl⟩ : ∃ k', k = k' + 1 + post.length := ⟨k - 1 - post.length, by simp at hk; omega⟩
  rw [findPrevious_append hs hP]
  obtain ⟨-, hs, -⟩ := seg_append.1 (seg_append.1 hs).1
  simp [lastPtr, findPrevious, hs, hd]

lemma Owns.length_le {ps : List Ptr} (ho : Owns h ps) : ps.length ≤ h.fresh := by
  have hsub : ps ⊆ List.range h.fresh := fun p hp => mem_range.2 (ho.lt_fresh p hp)
  simpa using (subperm_of_subset ho.nodup hsub).length_le

lemma Rep.length_le {ls : List (Ptr × Node α)} (hr : Rep h cs ls) : cs.length ≤ h.fresh := by
  have := hr.owns.length_le
  simp only [ptrs, length_append, length_map] at this
  omega

end Walk

end HaranaMatrix.DList
