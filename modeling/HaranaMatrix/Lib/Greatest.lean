import Mathlib

/-!
# Keeping the greatest element

A pass over a list that keeps an element with a greater key. With different keys the element is the
greatest one, in whatever order they come. -/

namespace HaranaMatrix

variable {α κ : Type} [LinearOrder κ]

/-- One step: the new element is kept if its key is greater. -/
def keepGreater (key : α → κ) (best : Option α) (x : α) : Option α :=
  match best with
  | some b => if key b < key x then some x else some b
  | none => some x

def greatest (key : α → κ) (l : List α) : Option α := l.foldl (keepGreater key) none

variable {key : α → κ} {l : List α}

lemma greatest_concat (l : List α) (x : α) :
    greatest key (l ++ [x]) = keepGreater key (greatest key l) x := by
  rw [greatest, List.foldl_append]
  rfl

@[simp] lemma greatest_nil : greatest key ([] : List α) = none := rfl

lemma greatest_eq_none_iff : greatest key l = none ↔ l = [] := by
  induction l using List.reverseRecOn with
  | nil => simp
  | append_singleton l x _ =>
    rw [greatest_concat]
    cases greatest key l with
    | none => simp [keepGreater]
    | some b => by_cases h : key b < key x <;> simp [keepGreater, h]

lemma exists_greatest {x : α} (hx : x ∈ l) : ∃ b, greatest key l = some b :=
  Option.ne_none_iff_exists'.1 fun h => List.ne_nil_of_mem hx (greatest_eq_none_iff.1 h)

theorem greatest_spec {b : α} (h : greatest key l = some b) : b ∈ l ∧ ∀ x ∈ l, key x ≤ key b := by
  induction l using List.reverseRecOn generalizing b with
  | nil => cases h
  | append_singleton l x ih =>
    rw [greatest_concat] at h
    cases hbest : greatest key l with
    | none =>
      obtain rfl := greatest_eq_none_iff.1 hbest
      obtain rfl : x = b := by simpa [keepGreater] using h
      simp
    | some c =>
      obtain ⟨hc, hle⟩ := ih hbest
      rw [hbest] at h
      by_cases hlt : key c < key x
      · obtain rfl : x = b := by simpa [keepGreater, hlt] using h
        refine ⟨by simp, fun y hy => ?_⟩
        rcases List.mem_append.1 hy with hy | hy
        · exact (hle y hy).trans hlt.le
        · rw [List.mem_singleton.1 hy]
      · obtain rfl : c = b := by simpa [keepGreater, hlt] using h
        refine ⟨by simp [hc], fun y hy => ?_⟩
        rcases List.mem_append.1 hy with hy | hy
        · exact hle y hy
        · rw [List.mem_singleton.1 hy]
          exact not_lt.1 hlt

lemma foldl_choose_mem {choose : α → α → α} (h : ∀ a b, choose a b = a ∨ choose a b = b) (a : α)
    (l : List α) :
    l.foldl choose a ∈ a :: l := by
  induction l generalizing a with
  | nil => exact List.mem_singleton_self a
  | cons b l ih =>
    rw [List.foldl_cons]
    rcases h a b with hab | hab <;> rw [hab]
    · rcases List.mem_cons.1 (ih a) with heq | hmem
      · rw [heq]
        exact List.mem_cons_self
      · exact List.mem_cons_of_mem _ (List.mem_cons_of_mem _ hmem)
    · exact List.mem_cons_of_mem _ (ih b)

end HaranaMatrix
