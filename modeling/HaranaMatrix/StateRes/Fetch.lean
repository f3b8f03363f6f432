import HaranaMatrix.Lib.Query

/-!
# Reading an asynchronous store

`FetchCache` holds what was fetched so far, absences included, and records the keys it was asked for and does
not have. A synchronous algorithm is run against it again and again, and what it missed is fetched between
the rounds.
-/

namespace HaranaMatrix.StateRes

variable {K V ε α : Type} [DecidableEq K]

def maxFetchRounds : ℕ := 16

structure FetchCache (K V : Type) where
  entries : List (K × Option V)
  misses : List K

/-- A check that could not be run to completion, or its own error. -/
inductive FetchError (ε : Type)
  | failed (error : ε)
  | fetchRoundsExhausted
deriving DecidableEq

namespace FetchCache

def new : FetchCache K V := ⟨[], []⟩

variable (cache : FetchCache K V)

/-- A key that the cache has never seen is a miss. -/
def get (key : K) : Option V × FetchCache K V :=
  match cache.entries.lookup key with
  | some entry => (entry, cache)
  | none => (none, { cache with misses := cache.misses.insert key })

def insert (key : K) (value : Option V) : FetchCache K V :=
  { cache with entries := (key, value) :: cache.entries }

def contains (key : K) : Bool := (cache.entries.lookup key).isSome

def takeMisses : List K × FetchCache K V := (cache.misses, { cache with misses := [] })

/-- The loop over the pending keys. -/
def fetchAll (fetch : K → Option V) : List K → FetchCache K V → FetchCache K V
  | [], cache => cache
  | key :: pending, cache =>
    if cache.contains key then fetchAll fetch pending cache
    else fetchAll fetch pending (cache.insert key (fetch key))

/-- A synchronous algorithm that reads the cache. -/
def read (cache : FetchCache K V) : Query K V ε α → Except ε α × FetchCache K V
  | .done r => (r, cache)
  | .ask key next => (cache.get key).2.read (next (cache.get key).1)

/-- The rounds of a check: it is done as soon as a round succeeds, or fails without a miss. With an error in
`unfinished` the round has not come to its end. -/
def rounds (unfinished : ε → Bool) (fetch : K → Option V) (check : Query K V ε α) :
    ℕ → FetchCache K V → List K → Except (FetchError ε) α
  | 0, _, _ => .error .fetchRoundsExhausted
  | n + 1, cache, pending =>
    let round := (cache.fetchAll fetch pending).read check
    match round.1 with
    | .ok a => .ok a
    | .error e =>
      let misses := round.2.takeMisses
      if unfinished e || misses.1.isEmpty then .error (.failed e)
      else rounds unfinished fetch check n misses.2 misses.1

/-! ## What a round does -/

section Round

variable {unfinished : ε → Bool} {fetch : K → Option V} {cache : FetchCache K V} {check : Query K V ε α}

/-- What the cache knows. -/
def known (cache : FetchCache K V) (key : K) : Option (Option V) := cache.entries.lookup key

/-- Everything the cache holds was fetched, and it has no misses. -/
structure Fetched (fetch : K → Option V) (cache : FetchCache K V) : Prop where
  consistent : Query.Consistent cache.known fetch
  no_misses : cache.misses = []

lemma fetched_new : (new : FetchCache K V).Fetched fetch := ⟨fun _ _ h => (nomatch h), rfl⟩

lemma known_insert (key key' : K) (value : Option V) :
    (cache.insert key value).known key' = if key' = key then some value else cache.known key' := by
  unfold known insert
  by_cases h : key' = key
  · simp [h]
  · rw [if_neg h, List.lookup_cons, beq_eq_false_iff_ne.2 h]

/-- **After the loop the pending keys are known**, and so is all that was. -/
lemma fetchAll_spec (h : cache.Fetched fetch) (pending : List K) :
    (cache.fetchAll fetch pending).Fetched fetch ∧
      ∀ key, ((cache.fetchAll fetch pending).known key).isSome ↔
        key ∈ pending ∨ (cache.known key).isSome := by
  induction pending generalizing cache with
  | nil => exact ⟨h, by simp [fetchAll]⟩
  | cons key pending ih =>
    rw [fetchAll]
    split
    · next hin =>
      obtain ⟨hf, hknown⟩ := ih h
      refine ⟨hf, fun key' => ?_⟩
      rw [hknown, List.mem_cons]
      constructor
      · exact Or.imp_left Or.inr
      · rintro ((rfl | hmem) | hsome)
        · exact .inr hin
        · exact .inl hmem
        · exact .inr hsome
    · have hf' : (cache.insert key (fetch key)).Fetched fetch := by
        refine ⟨fun k v hk => ?_, h.no_misses⟩
        rw [known_insert] at hk
        split at hk
        · next heq =>
          cases hk
          rw [heq]
        · exact h.consistent k v hk
      obtain ⟨hf, hknown⟩ := ih hf'
      refine ⟨hf, fun key' => ?_⟩
      rw [hknown, known_insert, List.mem_cons]
      by_cases heq : key' = key <;> simp [heq]

lemma read_spec (cache : FetchCache K V) (check : Query K V ε α) :
    (cache.read check).1 = (check.runKnown cache.known).1 ∧ (cache.read check).2.entries = cache.entries ∧
      ∀ key, key ∈ (cache.read check).2.misses ↔
        key ∈ cache.misses ∨ key ∈ (check.runKnown cache.known).2 := by
  induction check generalizing cache with
  | done r => simp [read, Query.runKnown]
  | ask key next ih =>
    simp only [read, Query.runKnown]
    cases hk : cache.known key with
    | some v =>
      have hget : cache.get key = (v, cache) := by
        simp only [get, show cache.entries.lookup key = some v from hk]
      rw [hget]
      exact ih v cache
    | none =>
      have hget : cache.get key = (none, { cache with misses := cache.misses.insert key }) := by
        simp only [get, show cache.entries.lookup key = none from hk]
      rw [hget]
      obtain ⟨hres, hentries, hmisses⟩ := ih none { cache with misses := cache.misses.insert key }
      refine ⟨hres, hentries, fun key' => ?_⟩
      rw [hmisses, List.mem_cons, List.mem_insert_iff]
      constructor
      · rintro ((rfl | h) | h)
        · exact .inr (.inl rfl)
        · exact .inl h
        · exact .inr (.inr h)
      · rintro (h | rfl | h)
        · exact .inl (.inr h)
        · exact .inl (.inl rfl)
        · exact .inr h

/-- The misses of a round. -/
def missesOf (cache : FetchCache K V) (check : Query K V ε α) : List K := (cache.read check).2.misses

section

variable (h : cache.Fetched fetch)
include h

lemma mem_missesOf {key : K} : key ∈ cache.missesOf check ↔ key ∈ (check.runKnown cache.known).2 := by
  rw [missesOf, (read_spec cache check).2.2, h.no_misses]
  simp

lemma takeMisses_read : (cache.read check).2.takeMisses = (cache.missesOf check, cache) := by
  have hentries := (read_spec cache check).2.1
  unfold takeMisses missesOf
  rw [hentries, ← h.no_misses]

lemma rounds_succ (pending : List K) (n : ℕ) :
    rounds unfinished fetch check (n + 1) cache pending =
      match (check.runKnown (cache.fetchAll fetch pending).known).1 with
      | .ok a => .ok a
      | .error e =>
        if unfinished e = true ∨ (cache.fetchAll fetch pending).missesOf check = [] then .error (.failed e)
        else rounds unfinished fetch check n (cache.fetchAll fetch pending)
          ((cache.fetchAll fetch pending).missesOf check) := by
  have hf := (fetchAll_spec h pending).1
  simp only [rounds, (read_spec (cache.fetchAll fetch pending) check).1, takeMisses_read hf, Bool.or_eq_true,
    List.isEmpty_iff]

end

/-- The keys among `keys` that are not known yet. -/
def unknown (cache : FetchCache K V) (keys : List K) : List K :=
    keys.filter fun key => (cache.known key).isNone

lemma unknown_lt (hf : cache.Fetched fetch) {keys pending : List K} {key : K} (hkey : key ∈ keys)
    (hpending : key ∈ pending) (hnew : cache.known key = none) :
    ((cache.fetchAll fetch pending).unknown keys).length < (cache.unknown keys).length := by
  have hknown := (fetchAll_spec hf pending).2
  have hsplit : (cache.fetchAll fetch pending).unknown keys =
      (cache.unknown keys).filter fun k => ((cache.fetchAll fetch pending).known k).isNone := by
    rw [unknown, unknown, List.filter_filter]
    refine List.filter_congr fun k _ => ?_
    have := hknown k
    cases hnow : (cache.fetchAll fetch pending).known k <;> cases hbefore : cache.known k <;> simp_all
  rw [hsplit, List.length_filter_lt_length_iff_exists]
  refine ⟨key, List.mem_filter.2 ⟨hkey, by simp [hnew]⟩, ?_⟩
  have hsome := (hknown key).2 (.inl hpending)
  simpa using Option.isSome_iff_ne_none.1 hsome

/-- **A guarded check is run as against the store**, if there are enough rounds for the keys it may
ask for. -/
theorem rounds_guarded {n : ℕ} {keys pending : List K} {P : K → Prop} (h : cache.Fetched fetch)
    (hguarded : check.Guarded P (· ∈ keys)) (hseeds : ∀ key, P key → key ∈ pending ∨ (cache.known key).isSome)
    (hn : ((cache.fetchAll fetch pending).unknown keys).length < n) :
    rounds (fun _ => false) fetch check n cache pending = (check.run fetch).mapError .failed := by
  induction n generalizing cache pending with
  | zero => omega
  | succ n ih =>
    obtain ⟨hf, hknown⟩ := fetchAll_spec h pending
    have hsome : ∀ key, P key → ((cache.fetchAll fetch pending).known key).isSome := fun key hkey =>
      (hknown key).2 (hseeds key hkey)
    have hrun : (∀ key, key ∉ (cache.fetchAll fetch pending).missesOf check) →
        check.run fetch = (check.runKnown (cache.fetchAll fetch pending).known).1 := fun hnone =>
      Query.run_eq_of_absent hf.consistent fun key hkey => absurd ((mem_missesOf hf).2 hkey) (hnone key)
    rw [rounds_succ h]
    cases hres : (check.runKnown (cache.fetchAll fetch pending).known).1 with
    | ok a =>
      rw [hrun, hres]
      · rfl
      · intro key hkey
        rw [mem_missesOf hf, hguarded.no_misses hsome hres] at hkey
        cases hkey
    | error e =>
      simp only [Bool.false_eq_true, false_or]
      split
      · next hnil =>
        rw [hrun, hres]
        · rfl
        · rw [hnil]
          exact fun _ => List.not_mem_nil
      · next hmiss =>
        refine ih hf (fun key hkey => .inr (hsome key hkey)) ?_
        obtain ⟨key, hkey⟩ := List.exists_mem_of_ne_nil _ hmiss
        have hkey' := (mem_missesOf hf).1 hkey
        have := unknown_lt hf (hguarded.only.misses key hkey') hkey (Query.misses_unknown key hkey')
        omega

end Round

end FetchCache

end HaranaMatrix.StateRes
