import Mathlib

/-!
# Labelled runs

`Trace step s es t` — from `s`, steps labelled `es` lead to `t`. An invariant of a step is an invariant
of a run, and a program that follows each step along a relation follows a whole run.
-/

namespace HaranaMatrix

variable {σ τ ε φ : Type}

/-- From `s`, the steps labelled `es` lead to `t`. -/
inductive Trace (step : σ → ε → σ → Prop) : σ → List ε → σ → Prop
  | nil (s : σ) : Trace step s [] s
  | cons {s t u : σ} {e : ε} {es : List ε} (h : step s e t) (hs : Trace step t es u) :
      Trace step s (e :: es) u

namespace Trace

variable {step : σ → ε → σ → Prop} {s t u : σ} {e : ε} {es fs : List ε}

lemma single (h : step s e t) : Trace step s [e] t := .cons h (.nil t)

lemma append (h : Trace step s es t) (h' : Trace step t fs u) : Trace step s (es ++ fs) u := by
  induction h with
  | nil s => exact h'
  | cons h _ ih => exact .cons h (ih h')

lemma concat (h : Trace step s es t) (h' : step t e u) : Trace step s (es ++ [e]) u :=
  h.append (single h')

lemma of_append (h : Trace step s (es ++ fs) u) : ∃ t, Trace step s es t ∧ Trace step t fs u := by
  induction es generalizing s with
  | nil => exact ⟨s, .nil s, h⟩
  | cons e es ih =>
    cases h with
    | cons h hs =>
      obtain ⟨t, h₁, h₂⟩ := ih hs
      exact ⟨t, .cons h h₁, h₂⟩

/-- **What every step preserves, a run preserves.** -/
theorem invariant {I : σ → Prop} (hI : ∀ s e t, step s e t → I s → I t) (h : Trace step s es t)
    (hs : I s) : I t := by
  induction h with
  | nil s => exact hs
  | cons h _ ih => exact ih (hI _ _ _ h hs)

lemma mono {step' : σ → ε → σ → Prop} (hstep : ∀ s e t, e ∈ es → step s e t → step' s e t)
    (h : Trace step s es t) : Trace step' s es t := by
  induction h with
  | nil s => exact .nil s
  | cons h _ ih =>
    exact .cons (hstep _ _ _ (by simp) h) (ih fun s e t he => hstep s e t (List.mem_cons_of_mem _ he))

/-- **A program that follows every step follows a run.** -/
theorem follows {f : τ → ε → Except φ τ} {R : τ → σ → Prop}
    (hf : ∀ x s e t, step s e t → R x s → ∃ y, f x e = .ok y ∧ R y t) {x : τ} (h : Trace step s es t)
    (hx : R x s) : ∃ y, es.foldlM f x = .ok y ∧ R y t := by
  induction h generalizing x with
  | nil s => exact ⟨x, rfl, hx⟩
  | cons h _ ih =>
    obtain ⟨y, hy, hR⟩ := hf _ _ _ _ h hx
    obtain ⟨z, hz, hR'⟩ := ih hR
    refine ⟨z, ?_, hR'⟩
    rw [List.foldlM_cons, hy]
    exact hz

end Trace

end HaranaMatrix
