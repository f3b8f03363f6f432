import HaranaMatrix.Lib.Sim

/-!
# Programs that look keys up

A `Query` ends with a result, or asks for the value of a key and goes on with the answer. It is run
against a full table, or against the part of a table that is known so far: a key that is not known
is answered as if it were absent, and is a *miss*. A run whose misses are all absent from the table
is a run against the table. -/

namespace HaranaMatrix

variable {K V ε α β : Type}

inductive Query (K V ε α : Type)
  | done (r : Except ε α)
  | ask (k : K) (next : Option V → Query K V ε α)

namespace Query

protected def bind : Query K V ε α → (α → Query K V ε β) → Query K V ε β
  | .done (.ok a), f => f a
  | .done (.error e), _ => .done (.error e)
  | .ask k next, f => .ask k fun v => (next v).bind f

instance : Monad (Query K V ε) where
  pure a := .done (.ok a)
  bind := Query.bind

/-- The value of a key. -/
def lookup (k : K) : Query K V ε (Option V) := .ask k fun v => .done (.ok v)

def fail (e : ε) : Query K V ε α := .done (.error e)

/-- A computation that asks for nothing. -/
def lift (x : Except ε α) : Query K V ε α := .done x

/-- The result against a table. -/
def run (f : K → Option V) : Query K V ε α → Except ε α
  | .done r => r
  | .ask k next => (next (f k)).run f

/-- The result against what is known, and the keys that were asked for and are not. -/
def runKnown (known : K → Option (Option V)) : Query K V ε α → Except ε α × List K
  | .done r => (r, [])
  | .ask k next =>
    match known k with
    | some v => (next v).runKnown known
    | none => (((next none).runKnown known).1, k :: ((next none).runKnown known).2)

section Run

variable {f : K → Option V} {known : K → Option (Option V)} {p : Query K V ε α}

@[simp] lemma run_done (r : Except ε α) : run f (.done r) = r := rfl
@[simp] lemma run_pure (a : α) : run f (pure a : Query K V ε α) = .ok a := rfl
@[simp] lemma run_lookup (k : K) : run f (lookup k : Query K V ε _) = .ok (f k) := rfl
@[simp] lemma run_fail (e : ε) : run f (fail e : Query K V ε α) = .error e := rfl
@[simp] lemma run_lift (x : Except ε α) : run f (lift x) = x := rfl

@[simp] lemma run_bind (p : Query K V ε α) (g : α → Query K V ε β) :
    run f (p >>= g) = run f p >>= fun a => run f (g a) := by
  induction p with
  | done r => cases r <;> rfl
  | ask k next ih => exact ih (f k)

/-- What is known is what the table has. -/
def Consistent (known : K → Option (Option V)) (f : K → Option V) : Prop := ∀ k v, known k = some v → v = f k

/-- **A run whose misses are absent from the table is a run against the table.** -/
theorem run_eq_of_absent (hc : Consistent known f) (h : ∀ k ∈ (p.runKnown known).2, f k = none) :
    p.run f = (p.runKnown known).1 := by
  induction p with
  | done r => rfl
  | ask k next ih =>
    rw [run]
    simp only [runKnown] at h ⊢
    cases hk : known k with
    | some v =>
      simp only [hk] at h
      rw [← hc k v hk]
      exact ih v h
    | none =>
      simp only [hk] at h
      rw [h k (by simp)]
      exact ih none fun k' hk' => h k' (by simp [hk'])

lemma misses_unknown : ∀ k ∈ (p.runKnown known).2, known k = none := by
  induction p with
  | done r => simp [runKnown]
  | ask k next ih =>
    intro k' hk'
    simp only [runKnown] at hk'
    cases hk : known k with
    | some v =>
      simp only [hk] at hk'
      exact ih v k' hk'
    | none =>
      simp only [hk] at hk'
      rcases List.mem_cons.1 hk' with rfl | hk'
      · exact hk
      · exact ih none k' hk'

end Run

/-! ## What a program asks for -/

/-- Whatever the answers are, the program asks only for keys with `P`. -/
inductive Only (P : K → Prop) : Query K V ε α → Prop
  | done (r : Except ε α) : Only P (.done r)
  | ask {k : K} {next : Option V → Query K V ε α} (hk : P k) (h : ∀ v, Only P (next v)) : Only P (.ask k next)

/-- Whatever the answers are, the program fails. -/
inductive Fails : Query K V ε α → Prop
  | error (e : ε) : Fails (.done (.error e))
  | ask {k : K} {next : Option V → Query K V ε α} (h : ∀ v, Fails (next v)) : Fails (.ask k next)

/-- Whatever the answers are: the program asks only for keys with `Q`, and for those without `P` the
answer that the key is absent makes it fail. -/
inductive Guarded (P Q : K → Prop) : Query K V ε α → Prop
  | done (r : Except ε α) : Guarded P Q (.done r)
  | ask {k : K} {next : Option V → Query K V ε α} (hQ : Q k) (hP : P k ∨ Fails (next none))
      (h : ∀ v, Guarded P Q (next v)) : Guarded P Q (.ask k next)

section Asks

variable {P Q : K → Prop} {known : K → Option (Option V)} {p : Query K V ε α} {g : α → Query K V ε β}

lemma Only.bind (hp : Only P p) (hg : ∀ a, Only P (g a)) : Only P (p >>= g) := by
  induction hp with
  | done r =>
    cases r with
    | ok a => exact hg a
    | error e => exact .done _
  | ask hk _ ih => exact .ask hk ih

lemma only_pure (a : α) : Only P (pure a : Query K V ε α) := .done _
lemma only_fail (e : ε) : Only P (fail e : Query K V ε α) := .done _
lemma only_lift (x : Except ε α) : Only P (lift x : Query K V ε α) := .done x
lemma only_lookup {k : K} (hk : P k) : Only P (lookup k : Query K V ε (Option V)) := .ask hk fun _ => .done _

lemma only_lift_bind {x : Except ε α} (h : ∀ a, x = .ok a → Only P (g a)) :
    Only P ((lift x : Query K V ε α) >>= g) := by
  cases x with
  | ok a => exact h a rfl
  | error e => exact .done _

lemma Only.misses (hp : Only P p) : ∀ k ∈ (p.runKnown known).2, P k := by
  induction hp with
  | done r => simp [runKnown]
  | @ask k next hk _ ih =>
    intro k' hk'
    simp only [runKnown] at hk'
    cases hknown : known k with
    | some v =>
      simp only [hknown] at hk'
      exact ih v k' hk'
    | none =>
      simp only [hknown] at hk'
      rcases List.mem_cons.1 hk' with rfl | hk'
      · exact hk
      · exact ih none k' hk'

lemma Fails.bind (hp : Fails p) : Fails (p >>= g) := by
  induction hp with
  | error e => exact .error e
  | ask _ ih => exact .ask ih

lemma Fails.runKnown (hp : Fails p) (known : K → Option (Option V)) :
    ∃ e, (p.runKnown known).1 = .error e := by
  induction hp with
  | error e => exact ⟨e, rfl⟩
  | @ask k next _ ih =>
    simp only [Query.runKnown]
    cases known k with
    | some v => exact ih v
    | none => exact ih none

lemma Only.guarded (hp : Only P p) (h : ∀ k, P k → Q k) : Guarded P Q p := by
  induction hp with
  | done r => exact .done r
  | ask hk _ ih => exact .ask (h _ hk) (.inl hk) ih

lemma Guarded.only (hp : Guarded P Q p) : Only Q p := by
  induction hp with
  | done r => exact .done r
  | ask hQ _ _ ih => exact .ask hQ ih

lemma Guarded.bind (hp : Guarded P Q p) (hg : ∀ a, Guarded P Q (g a)) : Guarded P Q (p >>= g) := by
  induction hp with
  | done r =>
    cases r with
    | ok a => exact hg a
    | error e => exact .done _
  | ask hQ hP _ ih => exact .ask hQ (hP.imp_right Fails.bind) ih

lemma guarded_lift_bind {x : Except ε α} (h : ∀ a, x = .ok a → Guarded P Q (g a)) :
    Guarded P Q ((lift x : Query K V ε α) >>= g) := by
  cases x with
  | ok a => exact h a rfl
  | error e => exact .done _

/-- **A guarded program that succeeds has missed nothing**, if the keys with `P` are known. -/
theorem Guarded.no_misses (hp : Guarded P Q p) (hknown : ∀ k, P k → (known k).isSome) {a : α}
    (h : (p.runKnown known).1 = .ok a) : (p.runKnown known).2 = [] := by
  induction hp with
  | done r => rfl
  | @ask k next _ hP _ ih =>
    simp only [Query.runKnown] at h ⊢
    cases hv : known k with
    | some v =>
      simp only [hv] at h
      exact ih v h
    | none =>
      simp only [hv] at h
      rcases hP with hP | hfails
      · have := hknown k hP
        rw [hv] at this
        cases this
      · obtain ⟨e, he⟩ := hfails.runKnown known
        rw [he] at h
        cases h

end Asks

end Query

end HaranaMatrix
