import Mathlib

/-!
# Lockstep simulation of fallible computations

`Sim R x y` — the computations `x` and `y` fail with the same error, or both return and their values
are related by `R`. The rules follow the shape of a program: a step on both sides, or a step of one
side that is known to return.
-/

namespace HaranaMatrix

variable {ε α β γ δ : Type}

@[simp] lemma ok_bind (a : α) (f : α → Except ε β) : (Except.ok a >>= f) = f a := rfl

@[simp] lemma error_bind (e : ε) (f : α → Except ε β) : (Except.error e >>= f) = .error e := rfl

lemma bind_eq_ok {x : Except ε α} {f : α → Except ε β} {b : β} (h : x >>= f = .ok b) :
    ∃ a, x = .ok a ∧ f a = .ok b := by
  cases x with
  | error e => cases h
  | ok a => exact ⟨a, rfl, h⟩

lemma map_eq_ok {x : Except ε α} {f : α → β} {b : β} (h : x.map f = .ok b) : ∃ a, x = .ok a ∧ f a = b := by
  cases x with
  | error e => cases h
  | ok a => exact ⟨a, rfl, Except.ok.inj h⟩

lemma mapError_eq_ok {δ : Type} {x : Except ε α} {f : ε → δ} {a : α} (h : x.mapError f = .ok a) :
    x = .ok a := by
  cases x with
  | error e => cases h
  | ok b => rw [Except.ok.inj h]

/-- Both computations fail with the same error, or both return related values. -/
inductive Sim (R : α → β → Prop) : Except ε α → Except ε β → Prop
  | error (e : ε) : Sim R (.error e) (.error e)
  | ok {a : α} {b : β} (h : R a b) : Sim R (.ok a) (.ok b)

namespace Sim

variable {R : α → β → Prop} {S : γ → δ → Prop} {x : Except ε α} {y : Except ε β}

/-- **A step on both sides.** -/
theorem bind {f : α → Except ε γ} {g : β → Except ε δ} (h : Sim R x y)
    (hfg : ∀ a b, R a b → Sim S (f a) (g b)) : Sim S (x >>= f) (y >>= g) := by
  cases h with
  | error e => exact .error e
  | ok h => exact hfg _ _ h

lemma bind_left {a : α} {f : α → Except ε γ} {z : Except ε δ} (hx : x = .ok a)
    (h : Sim S (f a) z) : Sim S (x >>= f) z := by
  subst hx
  exact h

lemma map {f : α → γ} {g : β → δ} (h : Sim R x y) (hfg : ∀ a b, R a b → S (f a) (g b)) :
    Sim S (x.map f) (y.map g) := by
  cases h with
  | error e => exact .error e
  | ok h => exact .ok (hfg _ _ h)

lemma bind_right {g : β → δ} {S : α → δ → Prop} (h : Sim R x y) (hg : ∀ a b, R a b → S a (g b)) :
    Sim S x (y >>= fun b => .ok (g b)) := by
  cases h with
  | error e => exact .error e
  | ok h => exact .ok (hg _ _ h)

lemma of_ok_left {a : α} (h : Sim R (.ok a) y) : ∃ b, y = .ok b ∧ R a b := by
  cases h with
  | ok h => exact ⟨_, rfl, h⟩

lemma of_ok_right {b : β} (h : Sim R x (.ok b)) : ∃ a, x = .ok a ∧ R a b := by
  cases h with
  | ok h => exact ⟨_, rfl, h⟩

lemma of_error_right {e : ε} (h : Sim R x (.error e)) : x = .error e := by
  cases h with
  | error e => rfl

end Sim

/-! ## Computations that return -/

/-- `x` returns a value with `P`, or fails with the one error `e`. -/
def Yields (e : ε) (P : α → Prop) (x : Except ε α) : Prop := (∃ a, x = .ok a ∧ P a) ∨ x = .error e

namespace Yields

variable {e : ε} {P : α → Prop} {Q : β → Prop} {x : Except ε α}

lemma ok {a : α} (h : P a) : Yields e P (.ok a) := .inl ⟨a, rfl, h⟩

lemma bind {f : α → Except ε β} (hx : Yields e P x) (hf : ∀ a, P a → Yields e Q (f a)) :
    Yields e Q (x >>= f) := by
  rcases hx with ⟨a, rfl, ha⟩ | rfl
  · exact hf a ha
  · exact .inr rfl

lemma map {f : α → β} (hx : Yields e (fun a => Q (f a)) x) : Yields e Q (x.map f) := by
  rcases hx with ⟨a, rfl, ha⟩ | rfl
  · exact .inl ⟨_, rfl, ha⟩
  · exact .inr rfl

lemma of_ok {a : α} (h : Yields e P x) (hx : x = .ok a) : P a := by
  rcases h with ⟨b, hb, hP⟩ | herr
  · rw [hx] at hb
    cases hb
    exact hP
  · rw [hx] at herr
    cases herr

lemma mono {P' : α → Prop} (hx : Yields e P x) (h : ∀ a, P a → P' a) : Yields e P' x :=
  hx.imp_left fun ⟨a, ha, hP⟩ => ⟨a, ha, h a hP⟩

lemma of_sim {R : α → β → Prop} {y : Except ε β} (hy : Yields e Q y) (h : Sim R x y) :
    Yields e (fun a => ∃ b, R a b ∧ Q b) x := by
  rcases hy with ⟨b, rfl, hb⟩ | rfl
  · obtain ⟨a, rfl, hR⟩ := h.of_ok_right
    exact .ok ⟨b, hR, hb⟩
  · exact .inr h.of_error_right

lemma mapError {δ : Type} {f : ε → δ} (hx : Yields e P x) : Yields (f e) P (x.mapError f) := by
  rcases hx with ⟨a, rfl, ha⟩ | rfl
  · exact .inl ⟨a, rfl, ha⟩
  · exact .inr rfl

end Yields

end HaranaMatrix
