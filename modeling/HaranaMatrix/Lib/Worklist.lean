import Mathlib

/-!
# Closures by a worklist

Each record points to a key, and may have a key itself. A worklist starts with the records that
point to one key. It then takes keys off its stack: a key that was seen is skipped, and for any
other key the records that point to it are collected and their keys are put on the stack. When the
stack is empty, the records that are reached are collected, each of them once, although keys may be
put on the stack many times and the records may point to each other in circles. -/

namespace Worklist

open List

variable {κ ρ : Type} [DecidableEq κ] (stored : List ρ) (target key : ρ → Option κ)

/-- The records that point to a key. -/
def pointingTo (k : κ) : List ρ := stored.filter fun r => target r = some k

/-- The records that point to one of these keys. -/
def pointingToAny (ks : List κ) : List ρ := stored.filter fun r => ∃ k ∈ ks, target r = some k

/-- The records that are reached from a key by one or more steps. -/
inductive Reach (start : κ) : ρ → Prop
  | first {r : ρ} (hr : r ∈ stored) (ht : target r = some start) : Reach start r
  | next {r r' : ρ} {k : κ} (h : Reach start r) (hk : key r =
    some k) (hr : r' ∈ stored) (ht : target r' = some k) :
      Reach start r'

/-- **The invariant of the worklist.** -/
structure Inv (start : κ) (seen stack : List κ) (collected : List ρ) : Prop where
  perm : collected.Perm (pointingToAny stored target seen)
  start_mem : start ∈ seen
  reached : ∀ k, k ∈ seen ∨ k ∈ stack → k = start ∨ ∃ r, Reach stored target key start r ∧ key r = some k
  covered : ∀ r ∈ collected, ∀ k, key r = some k → k ∈ seen ∨ k ∈ stack

variable {stored target key} {start k : κ} {seen stack stack' : List κ} {collected rows : List ρ}

lemma mem_pointingTo {r : ρ} : r ∈ pointingTo stored target k ↔ r ∈ stored ∧ target r = some k := by
  simp [pointingTo]

lemma pointingToAny_singleton : pointingToAny stored target [k] = pointingTo stored target k := by
  simp [pointingToAny, pointingTo]

lemma pointingToAny_cons (hk : k ∉ seen) :
    (pointingToAny stored target seen ++ pointingTo stored target k).Perm (pointingToAny stored target (k :: seen)) := by
  unfold pointingToAny pointingTo
  induction stored with
  | nil => exact List.Perm.refl _
  | cons r stored ih =>
    by_cases hr : target r = some k
    · have hnot : ¬ ∃ k ∈ seen, target r = some k := by
        rintro ⟨k', hk', heq⟩
        exact hk (Option.some.inj (hr.symm.trans heq) ▸ hk')
      rw [filter_cons_of_neg (by simpa using hnot), filter_cons_of_pos (by simpa using hr),
        filter_cons_of_pos (by simp [hr])]
      exact perm_middle.trans (ih.cons r)
    · by_cases hs : ∃ k ∈ seen, target r = some k
      · have hor : ∃ k' ∈ k :: seen, target r = some k' := by
          obtain ⟨k', hk', heq⟩ := hs
          exact ⟨k', mem_cons_of_mem _ hk', heq⟩
        rw [filter_cons_of_pos (by simpa using hs), filter_cons_of_neg (by simpa using hr),
          filter_cons_of_pos (by simpa using hor)]
        exact ih.cons r
      · have hor : ¬ ∃ k' ∈ k :: seen, target r = some k' := by
          rintro ⟨k', hk', heq⟩
          rcases mem_cons.1 hk' with rfl | hk'
          · exact hr heq
          · exact hs ⟨k', hk', heq⟩
        rw [filter_cons_of_neg (by simpa using hs), filter_cons_of_neg (by simpa using hr),
          filter_cons_of_neg (by simpa using hor)]
        exact ih

namespace Inv

lemma length_le (h : Inv stored target key start seen stack collected) :
    collected.length ≤ stored.length := by
  rw [h.perm.length_eq]
  exact length_filter_le _ _

lemma init (hrows : rows.Perm (pointingTo stored target start))
    (hstack : ∀ k, k ∈ stack ↔ ∃ r ∈ rows, key r = some k) :
      Inv stored target key start [start] stack rows := by
  refine ⟨by rwa [pointingToAny_singleton], mem_singleton_self _, ?_, ?_⟩
  · rintro k (hk | hk)
    · exact .inl (mem_singleton.1 hk)
    · obtain ⟨r, hr, hkey⟩ := (hstack k).1 hk
      obtain ⟨hmem, ht⟩ := mem_pointingTo.1 (hrows.mem_iff.1 hr)
      exact .inr ⟨r, .first hmem ht, hkey⟩
  · exact fun r hr k hkey => .inr ((hstack k).2 ⟨r, hr, hkey⟩)

section

variable (h : Inv stored target key start seen (k :: stack) collected)
include h

lemma skip (hk : k ∈ seen) : Inv stored target key start seen stack collected := by
  refine ⟨h.perm, h.start_mem, fun k' hk' => h.reached k' (hk'.imp_right (mem_cons_of_mem _)), ?_⟩
  intro r hr k' hkey
  rcases h.covered r hr k' hkey with hs | hs
  · exact .inl hs
  · rcases mem_cons.1 hs with rfl | hs
    · exact .inl hk
    · exact .inr hs

lemma expand (hk : k ∉ seen) (hrows : rows.Perm (pointingTo stored target k))
    (hstack : ∀ k', k' ∈ stack' ↔ (∃ r ∈ rows, key r = some k') ∨ k' ∈ stack) :
    Inv stored target key start (k :: seen) stack' (collected ++ rows) := by
  have hkr := h.reached k (.inr mem_cons_self)
  refine ⟨(h.perm.append hrows).trans (pointingToAny_cons hk), mem_cons_of_mem _ h.start_mem, ?_, ?_⟩
  · rintro k' (hk' | hk')
    · rcases mem_cons.1 hk' with rfl | hk'
      · exact hkr
      · exact h.reached k' (.inl hk')
    · rcases (hstack k').1 hk' with ⟨r, hr, hkey⟩ | hk'
      · obtain ⟨hmem, ht⟩ := mem_pointingTo.1 (hrows.mem_iff.1 hr)
        refine .inr ⟨r, ?_, hkey⟩
        rcases hkr with rfl | ⟨r₀, hr₀, hk₀⟩
        · exact .first hmem ht
        · exact .next hr₀ hk₀ hmem ht
      · exact h.reached k' (.inr (mem_cons_of_mem _ hk'))
  · intro r hr k' hkey
    rcases mem_append.1 hr with hr | hr
    · rcases h.covered r hr k' hkey with hs | hs
      · exact .inl (mem_cons_of_mem _ hs)
      · rcases mem_cons.1 hs with rfl | hs
        · exact .inl mem_cons_self
        · exact .inr ((hstack k').2 (.inr hs))
    · exact .inr ((hstack k').2 (.inl ⟨r, hr, hkey⟩))

end

lemma mem_iff_reach (h : Inv stored target key start seen [] collected) {r : ρ} :
    r ∈ collected ↔ Reach stored target key start r := by
  have hmem : ∀ r, r ∈ collected ↔ r ∈ stored ∧ ∃ k ∈ seen, target r = some k := fun r => by
    rw [h.perm.mem_iff, pointingToAny, mem_filter, decide_eq_true_eq]
  constructor
  · intro hr
    obtain ⟨hstored, k, hk, ht⟩ := (hmem r).1 hr
    rcases h.reached k (.inl hk) with rfl | ⟨r₀, hr₀, hk₀⟩
    · exact .first hstored ht
    · exact .next hr₀ hk₀ hstored ht
  · intro hr
    induction hr with
    | first hstored ht => exact (hmem _).2 ⟨hstored, start, h.start_mem, ht⟩
    | @next r r' k _ hk hstored ht ih =>
      have hseen : k ∈ seen := by simpa using h.covered r ih k hk
      exact (hmem r').2 ⟨hstored, k, hseen, ht⟩

open scoped Classical in
/-- **The worklist has collected the records that are reached, each of them once.** -/
theorem done (h : Inv stored target key start seen [] collected) :
    collected.Perm (stored.filter fun r => Reach stored target key start r) := by
  refine h.perm.trans (List.Perm.of_eq (filter_congr fun r hr => ?_))
  have hmem : r ∈ collected ↔ ∃ k ∈ seen, target r = some k := by
    rw [h.perm.mem_iff, pointingToAny, mem_filter, decide_eq_true_eq, and_iff_right hr]
  rw [decide_eq_decide, ← hmem, h.mem_iff_reach]

end Inv

end Worklist
