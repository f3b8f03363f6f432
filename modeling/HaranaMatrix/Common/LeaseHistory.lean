import HaranaMatrix.Common.CrossProcessLock

/-!
# The history of the leases

The memory stores keep the leases of all keys in a map. A call reads the clock, and once more when
the key is new. Over any history of calls, the generation of a key counts how often it went from one
holder to another. A generation is a `u64`, which no history exhausts. -/

set_option linter.unusedSectionVars false

namespace HaranaMatrix.Common.LeaseHistory

variable {κ ι : Type} [DecidableEq κ] [DecidableEq ι]

/-- The leases of the keys. -/
abbrev Leases (κ ι : Type) := κ → Option (Lease ι)

/-- `now` is the first reading of the clock, `later` the second one. -/
def tryTakeLeasedLock (leases : Leases κ ι) (now later leaseDurationMs : ℕ) (key : κ) (holder : ι) :
    Option ℕ × Leases κ ι :=
  let expiration := now + leaseDurationMs
  match leases key with
  | some current =>
    if current.holder = holder then
      -- we had the lease before, extend it
      (some current.generation, Function.update leases key (some { current with expiration }))
    else if current.expiration < now then
      -- steal it
      (some (current.generation + 1),
        Function.update leases key (some ⟨holder, expiration, current.generation + 1⟩))
    else (none, leases)
  | none =>
    (some CrossProcessLock.firstCrossProcessLockGeneration, Function.update leases key
      (some ⟨holder, later + leaseDurationMs, CrossProcessLock.firstCrossProcessLockGeneration⟩))

/-- A call that obtained a lease: the generation that it returned, and the expiration of the lease
in the map. -/
structure Success (κ ι : Type) where
  key : κ
  holder : ι
  now : ℕ
  generation : ℕ
  expiration : ℕ

/-- The successes so far, the latest first, the leases, and the last reading of the clock. -/
inductive History : List (Success κ ι) → Leases κ ι → ℕ → Prop
  | nil (clock : ℕ) : History [] (fun _ => none) clock
  | refused {log : List (Success κ ι)} {leases leases' : Leases κ ι} {clock now later duration : ℕ} {key : κ} {holder : ι}
      (h : History log leases clock) (hnow : clock ≤ now) (hlater : now ≤ later)
      (hcall : tryTakeLeasedLock leases now later duration key holder =
        (none, leases')) : History log leases' later
  | obtained {log : List (Success κ ι)} {leases leases' : Leases κ ι} {clock now later duration generation : ℕ} {key : κ}
      {holder : ι} {lease : Lease ι} (h : History log leases clock) (hnow : clock ≤ now) (hlater : now ≤ later)
      (hcall : tryTakeLeasedLock leases now later duration key holder = (some generation, leases'))
      (hlease : leases' key = some lease) :
      History (⟨key, holder, now, generation, lease.expiration⟩ :: log) leases' later

/-! ## The successes of one key -/

/-- How often the key went to another holder. -/
def changes : List ι → ℕ
  | x :: y :: rest => (if x = y then 0 else 1) + changes (y :: rest)
  | _ => 0

/-- The successes of one key, the latest first: the first one of all, an extension, or a steal. -/
inductive Chain : List (Success κ ι) → Prop
  | nil : Chain []
  | first {x : Success κ ι} (hgeneration : x.generation = 1) : Chain [x]
  | extend {x y : Success κ ι} {old : List (Success κ ι)} (h : Chain (y :: old)) (hnow : y.now ≤ x.now)
      (hholder : x.holder = y.holder) (hgeneration : x.generation = y.generation) : Chain (x :: y :: old)
  | steal {x y : Success κ ι} {old : List (Success κ ι)} (h : Chain (y :: old)) (hnow : y.now ≤ x.now)
      (hholder : x.holder ≠ y.holder) (hexpired : y.expiration < x.now) (hgeneration : x.generation = y.generation + 1) :
      Chain (x :: y :: old)

namespace Chain

variable {x y : Success κ ι} {old mid newer : List (Success κ ι)}

lemma of_append (h : Chain (newer ++ old)) : Chain old := by
  induction newer with
  | nil => exact h
  | cons x newer ih =>
    refine ih ?_
    rw [List.cons_append] at h
    generalize newer ++ old = rest at h
    cases h with
    | first => exact .nil
    | extend h => exact h
    | steal h => exact h

/-- **The generation counts the changes.** -/
lemma generation_eq (h : Chain (x :: old)) : x.generation = 1 + changes ((x :: old).map (·.holder)) := by
  induction old generalizing x with
  | nil =>
    cases h with
    | first hgeneration => exact hgeneration
  | cons y old ih =>
    rw [List.map_cons, List.map_cons, changes]
    cases h with
    | extend h _ hholder hgeneration =>
      rw [if_pos hholder, hgeneration, ih h, List.map_cons, Nat.zero_add]
    | steal h _ hholder _ hgeneration =>
      rw [if_neg hholder, hgeneration, ih h, List.map_cons]
      omega

/-- **The success after the last one of a holder is a steal.** -/
lemma stolen (h : Chain (x :: mid ++ y :: old)) (hmid : ∀ z ∈ x :: mid, z.holder ≠ y.holder) :
    y.expiration < x.now ∧ y.generation < x.generation := by
  induction mid generalizing x with
  | nil =>
    cases h with
    | extend _ _ hholder _ => exact absurd hholder (hmid x (List.mem_cons_self ..))
    | steal _ _ _ hexpired hgeneration => exact ⟨hexpired, by omega⟩
  | cons z mid ih =>
    have hz : ∀ w ∈ z :: mid, w.holder ≠ y.holder := fun w hw => hmid w (List.mem_cons_of_mem _ hw)
    cases h with
    | extend h hnow _ hgeneration | steal h hnow _ _ hgeneration =>
      have := ih h hz
      exact ⟨this.1.trans_le hnow, by omega⟩

/-- **A holder gets its generation again exactly if nobody came in between.** -/
lemma generation_eq_iff (h : Chain (x :: mid ++ y :: old)) (hholder : y.holder = x.holder)
    (hmid : ∀ z ∈ mid, z.holder ≠ x.holder) : x.generation = y.generation ↔ mid = [] := by
  cases mid with
  | nil =>
    refine ⟨fun _ => rfl, fun _ => ?_⟩
    cases h with
    | extend _ _ _ hgeneration => exact hgeneration
    | steal _ _ hne _ _ => exact absurd hholder.symm hne
  | cons z mid =>
    have hz : ∀ w ∈ z :: mid, w.holder ≠ y.holder := fun w hw => hholder ▸ hmid w hw
    refine ⟨fun heq => ?_, fun hnil => by cases hnil⟩
    cases h with
    | extend h _ _ hgeneration =>
      have := (h.stolen hz).2
      omega
    | steal h _ _ _ hgeneration =>
      have := (h.stolen hz).2
      omega

end Chain

/-! ## Every history -/

/-- The latest success of the key is its lease. -/
structure Follows (leases : Leases κ ι) (clock : ℕ) (key : κ) (log : List (Success κ ι)) : Prop where
  chain : Chain (log.filter (·.key = key))
  lease : leases key = (log.filter (·.key = key)).head?.map fun x => ⟨x.holder, x.expiration, x.generation⟩
  clock : ∀ x ∈ (log.filter (·.key = key)).head?, x.now ≤ clock

variable {log : List (Success κ ι)} {leases leases' : Leases κ ι}
  {clock now later duration generation : ℕ} {key k : κ}
  {holder : ι} {lease : Lease ι}

lemma tryTakeLeasedLock_other (leases : Leases κ ι) (now later duration : ℕ) (holder : ι) (hk : k ≠ key) :
    (tryTakeLeasedLock leases now later duration key holder).2 k = leases k := by
  unfold tryTakeLeasedLock
  split
  · split_ifs <;> simp [hk]
  · simp [hk]

lemma tryTakeLeasedLock_refused (h : tryTakeLeasedLock leases now later duration key holder =
    (none, leases')) :
    leases' = leases := by
  unfold tryTakeLeasedLock at h
  split at h
  · split_ifs at h
    all_goals cases h
    rfl
  · cases h

lemma tryTakeLeasedLock_obtained
    (h : tryTakeLeasedLock leases now later duration key holder = (some generation, leases')) :
    (∃ expiration, leases' key = some ⟨holder, expiration, generation⟩) ∧
      ((leases key = none ∧ generation = 1) ∨ ∃ current, leases key = some current ∧
        ((current.holder = holder ∧ generation = current.generation) ∨
          (current.holder ≠ holder ∧ current.expiration < now ∧ generation = current.generation + 1))) := by
  unfold tryTakeLeasedLock at h
  split at h
  · next current hcurrent =>
    split_ifs at h with hholder hexpired
    all_goals cases h
    · refine ⟨⟨now + duration, by simp [← hholder]⟩, .inr ⟨current, hcurrent, .inl ⟨hholder, rfl⟩⟩⟩
    · exact ⟨⟨now + duration, by simp⟩, .inr ⟨current, hcurrent, .inr ⟨hholder, hexpired, rfl⟩⟩⟩
  · next hcurrent =>
    cases h
    exact ⟨⟨later + duration, by simp [CrossProcessLock.firstCrossProcessLockGeneration]⟩, .inl ⟨hcurrent, rfl⟩⟩

/-- **A success continues the chain of its key.** -/
lemma Follows.obtained (h : Follows leases clock key log) (hnow : clock ≤ now) (hlater : now ≤ later)
    (hcall : tryTakeLeasedLock leases now later duration key holder = (some generation, leases'))
    (hlease : leases' key = some lease) :
    Follows leases' later key (⟨key, holder, now, generation, lease.expiration⟩ :: log) := by
  obtain ⟨⟨expiration, hnew⟩, hcases⟩ := tryTakeLeasedLock_obtained hcall
  obtain rfl : lease = ⟨holder, expiration, generation⟩ := Option.some.inj (hlease.symm.trans hnew)
  obtain ⟨hchain, hold, hclock⟩ := h
  have hfilter : ∀ x : Success κ ι, x.key = key →
    (x :: log).filter (·.key = key) = x :: log.filter (·.key = key) :=
    fun x hx => by simp [hx]
  refine ⟨?_, by rw [hfilter _ rfl, hnew]; rfl, by rw [hfilter _ rfl]; rintro _ ⟨⟩; exact hlater⟩
  rw [hfilter _ rfl]
  cases hlog : log.filter (·.key = key) with
  | nil =>
    rw [hlog] at hold
    rcases hcases with ⟨-, hgeneration⟩ | ⟨current, hcurrent, -⟩
    · exact .first hgeneration
    · rw [hold] at hcurrent
      cases hcurrent
  | cons y old =>
    rw [hlog] at hchain hold hclock
    have hy : y.now ≤ now := (hclock y rfl).trans hnow
    rcases hcases with ⟨hnone, -⟩ | ⟨current, hcurrent, hcases⟩
    · rw [hold] at hnone
      cases hnone
    rw [hold] at hcurrent
    cases hcurrent
    rcases hcases with ⟨hholder, hgeneration⟩ | ⟨hholder, hexpired, hgeneration⟩
    · exact .extend hchain hy hholder.symm hgeneration
    · exact .steal hchain hy (Ne.symm hholder) hexpired hgeneration

lemma Follows.other (h : Follows leases clock k log) (hk : leases' k = leases k) (hclock : clock ≤ later)
    {x : Success κ ι} (hx : x.key ≠ k) : Follows leases' later k (x :: log) := by
  have hfilter : (x :: log).filter (·.key = k) = log.filter (·.key = k) := by simp [hx]
  exact ⟨by rw [hfilter]; exact h.chain, by rw [hfilter, hk]; exact h.lease,
    by rw [hfilter]; exact fun y hy => (h.clock y hy).trans hclock⟩

theorem History.follows (h : History log leases clock) (k : κ) : Follows leases clock k log := by
  induction h with
  | nil clock => exact ⟨.nil, rfl, by simp⟩
  | refused _ hnow hlater hcall ih =>
    rw [tryTakeLeasedLock_refused hcall]
    exact ⟨ih.chain, ih.lease, fun x hx => (ih.clock x hx).trans (hnow.trans hlater)⟩
  | @obtained log leases leases' clock now later duration generation key holder lease _ hnow hlater hcall hlease ih =>
    by_cases hk : k = key
    · subst hk
      exact ih.obtained hnow hlater hcall hlease
    · refine ih.other ?_ (hnow.trans hlater) (Ne.symm hk)
      have := tryTakeLeasedLock_other leases now later duration holder hk
      rwa [hcall] at this

/-- **Generations count ownership changes.** Of the successes of a key, newest first: a success
returns one plus the number of changes up to it; the last lease of every other holder before it has
expired; and since its own last success the generation is the same exactly if there was no success
in between. No call touches another key. -/
theorem generation_counts_changes (h : History log leases clock) {newer older : List (Success κ ι)}
    {x : Success κ ι} (hlog : log.filter (·.key = k) = newer ++ x :: older) :
    x.generation = 1 + changes ((x :: older).map (·.holder)) ∧
    (∀ mid y old, older = mid ++ y :: old → y.holder ≠ x.holder → (∀ z ∈ mid, z.holder ≠ y.holder) →
      y.expiration < x.now) ∧
    (∀ mid y old, older = mid ++ y :: old → y.holder = x.holder → (∀ z ∈ mid, z.holder ≠ x.holder) →
      (x.generation = y.generation ↔ mid = [])) ∧
    ∀ now later duration holder k', k' ≠ k →
      (tryTakeLeasedLock leases now later duration k holder).2 k' = leases k' := by
  have hchain : Chain (x :: older) := by
    have := (h.follows k).chain
    rw [hlog] at this
    exact this.of_append
  refine ⟨hchain.generation_eq, fun mid y old hold hne hmid => ?_, fun mid y old hold hholder hmid => ?_,
    fun now later duration holder k' hk' => tryTakeLeasedLock_other leases now later duration holder hk'⟩
  · subst hold
    exact (hchain.stolen (List.forall_mem_cons.2 ⟨Ne.symm hne, hmid⟩)).1
  · subst hold
    exact hchain.generation_eq_iff hholder hmid

/-- One holder takes the key, and another one steals it. -/
theorem generation_counts_changes_steal : ∃ leases : Leases String String,
    History [⟨"key", "bob", 10, 2, 15⟩, ⟨"key", "alice", 0, 1, 6⟩] leases 10 ∧
    (2 = 1 + changes ["bob", "alice"] ∧ 6 < 10) := by
  have htaken : tryTakeLeasedLock (fun _ => none) 0 1 5 "key" "alice" =
      (some 1, Function.update (fun _ => none) "key" (some ⟨"alice", 6, 1⟩)) := rfl
  have hfirst := History.obtained (.nil 0) le_rfl (by decide) htaken (show _ = some ⟨"alice", 6, 1⟩ from rfl)
  have hstolen : tryTakeLeasedLock (Function.update (fun _ => none) "key" (some ⟨"alice", 6, 1⟩)) 10 10 5 "key" "bob" =
      (some 2, Function.update (Function.update (fun _ => none) "key" (some ⟨"alice", 6, 1⟩)) "key"
        (some ⟨"bob", 15, 2⟩)) := rfl
  have hsecond := History.obtained hfirst (by decide) le_rfl hstolen (show _ = some ⟨"bob", 15, 2⟩ from rfl)
  have hlog : [(⟨"key", "bob", 10, 2, 15⟩ : Success String String),
    ⟨"key", "alice", 0, 1, 6⟩].filter (·.key = "key") =
      [] ++ ⟨"key", "bob", 10, 2, 15⟩ :: [⟨"key", "alice", 0, 1, 6⟩] := rfl
  obtain ⟨hgeneration, hexpired, -⟩ := generation_counts_changes hsecond hlog
  exact ⟨_, hsecond, hgeneration, hexpired [] _ [] rfl (by decide) (by simp)⟩

end HaranaMatrix.Common.LeaseHistory
