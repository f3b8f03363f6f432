import Mathlib

/-!
# Computations that fail and keep their state

What an `EStateM` computation changed before it failed stays changed. `Ensures x s Q E` — run from `s`, the computation
`x` ends with a result and a state in `Q`, or fails in a state in `E`.
-/

namespace HaranaMatrix

variable {ε σ α β : Type}

/-- A result satisfies `Q`, and the state of a failure `E`. -/
def Ensures (x : EStateM ε σ α) (s : σ) (Q : α → σ → Prop) (E : σ → Prop) : Prop :=
  match x s with
  | .ok a t => Q a t
  | .error _ t => E t

/-- The outcome as a result, so that other computations go on after a failure. -/
def attempt (x : EStateM ε σ α) : EStateM ε σ (Except ε α) := fun s =>
  match x s with
  | .ok a t => .ok (.ok a) t
  | .error e t => .ok (.error e) t

/-- A result that was computed elsewhere. -/
def ofExcept : Except ε α → EStateM ε σ α
  | .ok a => pure a
  | .error e => throw e

/-- The state in which a computation ends, either way. -/
def finalState (x : EStateM ε σ α) (s : σ) : σ :=
  match x s with
  | .ok _ t => t
  | .error _ t => t

namespace Ensures

variable {x : EStateM ε σ α} {f : α → EStateM ε σ β} {s : σ} {Q Q' : α → σ → Prop}
  {R : β → σ → Prop} {E E' : σ → Prop}

lemma of_ok {a : α} {t : σ} (h : Ensures x s Q E) (hx : x s = .ok a t) : Q a t := by
  unfold Ensures at h
  rwa [hx] at h

lemma finalState {I : σ → Prop} (h : Ensures x s (fun _ => I) I) : I (HaranaMatrix.finalState x s) := by
  unfold Ensures at h
  unfold HaranaMatrix.finalState
  cases hx : x s <;> simpa only [hx] using h

lemma mono (h : Ensures x s Q E) (hQ : ∀ a t, Q a t → Q' a t) (hE : ∀ t, E t → E' t) : Ensures x s Q' E' := by
  unfold Ensures at h ⊢
  split at h
  · exact hQ _ _ h
  · exact hE _ h

/-- **Sequencing.** The second computation starts from any result of the first. -/
lemma bind (h : Ensures x s Q E) (hf : ∀ a t, Q a t → Ensures (f a) t R E) : Ensures (x >>= f) s R E := by
  unfold Ensures at h ⊢
  simp only [Bind.bind, EStateM.bind]
  split at h
  · next a t hx =>
    rw [hx]
    exact hf a t h
  · next e t hx =>
    rw [hx]
    exact h

lemma bindTo (h : Ensures x s Q E) (hE : ∀ t, E t → E' t) (hf : ∀ a t, Q a t → Ensures (f a) t R E') :
    Ensures (x >>= f) s R E' := (h.mono (fun _ _ h => h) hE).bind hf

lemma ret {a : α} (h : Q a s) : Ensures (pure a : EStateM ε σ α) s Q E := h

lemma fail {e : ε} (h : E s) : Ensures (throw e : EStateM ε σ α) s Q E := h

lemma get_bind {f : σ → EStateM ε σ β} (h : Ensures (f s) s R E) : Ensures (get >>= f) s R E := h

lemma update {g : σ → σ} {Q : Unit → σ → Prop} (h : Q () (g s)) :
    Ensures (modify g : EStateM ε σ Unit) s Q E := h

lemma update_bind {g : σ → σ} {f : Unit → EStateM ε σ β} (h : Ensures (f ()) (g s) R E) :
    Ensures (modify g >>= f) s R E := h

lemma attempt {Q : Except ε α → σ → Prop}
    (h : Ensures x s (fun a t => Q (.ok a) t) fun t => ∀ e, Q (.error e) t) :
    Ensures (HaranaMatrix.attempt x) s Q E := by
  unfold Ensures HaranaMatrix.attempt at *
  cases hx : x s with
  | ok a t => simpa only [hx] using h
  | error e t =>
    rw [hx] at h
    exact h e

lemma ofExcept {r : Except ε α} (hok : ∀ a, r = .ok a → Q a s) (herr : ∀ e, r = .error e → E s) :
    Ensures (HaranaMatrix.ofExcept r) s Q E := by
  cases r with
  | ok a => exact hok a rfl
  | error e => exact herr e rfl

/-- **Loops.** What every round preserves, the loop preserves. -/
lemma loop {I : σ → Prop} {g : α → EStateM ε σ Unit} {xs : List α}
    (h : ∀ a ∈ xs, ∀ s, I s → Ensures (g a) s (fun _ => I) E) (hs : I s) :
      Ensures (forM xs g) s (fun _ => I) E := by
  induction xs generalizing s with
  | nil => exact hs
  | cons a xs ih =>
    exact (h a List.mem_cons_self s hs).bind fun _ t ht => ih (fun b hb => h b (List.mem_cons_of_mem _ hb)) ht

lemma mapM {I : σ → Prop} {P : β → Prop} {g : α → EStateM ε σ β} {xs : List α}
    (h : ∀ a ∈ xs, ∀ s, I s → Ensures (g a) s (fun b t => P b ∧ I t) E) (hs : I s) :
    Ensures (xs.mapM g) s (fun bs t => (∀ b ∈ bs, P b) ∧ I t) E := by
  induction xs generalizing s with
  | nil => exact ⟨by simp, hs⟩
  | cons a xs ih =>
    rw [List.mapM_cons]
    refine (h a List.mem_cons_self s hs).bind fun b t ht => ?_
    refine (ih (fun b hb => h b (List.mem_cons_of_mem _ hb)) ht.2).bind fun bs u hu => ?_
    refine Ensures.ret ⟨fun c hc => ?_, hu.2⟩
    rcases List.mem_cons.1 hc with rfl | hc
    · exact ht.1
    · exact hu.1 c hc

end Ensures

end HaranaMatrix
