import Mathlib

/-!
# Cross-process locks

Processes, each under its own holder name, share one key of a lease store. Every process has a lock
instance: the generation it saw last, whether it is dirty, its guards and its renew tasks. The
processes are taken as their holder names.

A call of `try_lock_once` is cut where another task can come in between: it either finds guards and
makes one more, or asks the store, writes what it was told to the instance and spawns the renew
task, and then makes the guard and reads the flag. A task that was aborted while it waits for the
store is still served once. A failed request to the store changes nothing. -/

set_option linter.unusedSectionVars false

namespace HaranaMatrix.Common

/-! ## The store -/

/-- The lease of the key. Times are in milliseconds. -/
structure Lease (ι : Type) where
  holder : ι
  expiration : ℕ
  generation : ℕ
deriving DecidableEq, Repr

namespace CrossProcessLock

variable {ι : Type} [DecidableEq ι]

def noCrossProcessLockGeneration : ℕ := 0

def firstCrossProcessLockGeneration : ℕ := 1

def leaseDurationMs : ℕ := 500

/-- The generation, if the lease was obtained, and the lease then. -/
def tryTakeLeasedLock (now : ℕ) (lease : Option (Lease ι)) (leaseDurationMs : ℕ) (holder : ι) :
    Option ℕ × Option (Lease ι) :=
  let expiration := now + leaseDurationMs
  match lease with
  | some current =>
    if current.holder = holder then
      -- we had the lease before, extend it
      (some current.generation, some { current with expiration })
    else if current.expiration < now then
      -- steal it
      (some (current.generation + 1), some ⟨holder, expiration, current.generation + 1⟩)
    else (none, lease)
  | none =>
    (some firstCrossProcessLockGeneration, some ⟨holder, expiration, firstCrossProcessLockGeneration⟩)

/-! ## Lock instances -/

/-- Where a renew task is. -/
inductive Task
  /-- about to lock `locking_attempt` and to count the holders -/
  | check
  /-- with `locking_attempt` locked, about to cancel the lease -/
  | cancel
  | sleep
  /-- about to extend the lease -/
  | extend
  /-- as `extend`, but aborted -/
  | aborted
deriving DecidableEq, Repr

/-- What is left of a task that is aborted: it stops where it waits, unless it waits for the
store. -/
def Task.abort : Task → Option Task
  | .extend | .aborted => some .aborted
  | .check | .cancel | .sleep => none

/-- Who has locked `locking_attempt`. -/
inductive LockingAttempt
  | free
  /-- a call that obtained the lease and has not returned -/
  | call
  /-- a renew task that cancels the lease -/
  | task
deriving DecidableEq, Repr

/-- A lock instance, which is shared by its clones. `holders` is the number of guards. -/
structure Instance where
  generation : ℕ := noCrossProcessLockGeneration
  isDirty : Bool := false
  holders : ℕ := 0
  lockingAttempt : LockingAttempt := .free
  tasks : List Task := []
deriving DecidableEq, Repr

/-- The instance after the store gave it the lease: the generation is swapped, a different one than
before dirties the lock, and the renew task is replaced. -/
def Instance.obtained (s : Instance) (newGeneration : ℕ) : Instance :=
  { s with
    generation := newGeneration
    isDirty :=
      if s.generation = noCrossProcessLockGeneration then s.isDirty
      else if s.generation ≠ newGeneration then true
      else s.isDirty
    lockingAttempt := .call
    tasks := .check :: s.tasks.filterMap Task.abort }

/-- `CrossProcessLockState`, without the guard. -/
inductive LockState
  | clean
  | dirty
deriving DecidableEq, Repr

/-- The store, the clock and the lock instances. -/
structure Config (ι : Type) where
  lease : Option (Lease ι)
  now : ℕ
  inner : ι → Instance

/-- What happens to leases and flags, as an observer of all processes sees it. -/
inductive Event (ι : Type)
  /-- a call of `try_lock_once` obtained the lease, and its instance was clean then or not -/
  | acquired (i : ι) (clean : Bool)
  /-- a call of `try_lock_once` found guards, and returned a clean one -/
  | reentered (i : ι)
  /-- a call of `try_lock_once` that obtained the lease returned -/
  | returned (i : ι) (state : LockState)
  /-- a renew task obtained the lease -/
  | renewed (i : ι)
  /-- `clear_dirty` -/
  | cleared (i : ι)
deriving DecidableEq, Repr

/-- What the tasks and their users do. `fails` says that the store returns an error, `k` is the
task. -/
inductive Action (ι : Type)
  | tryLockOnce (i : ι) (fails : Bool)
  | returnGuard (i : ι)
  | cloneGuard (i : ι)
  | dropGuard (i : ι)
  | clearDirty (i : ι)
  | renewCheck (i : ι) (k : ℕ)
  | renewCancel (i : ι) (k : ℕ) (fails : Bool)
  | renewWake (i : ι) (k : ℕ)
  | renewExtend (i : ι) (k : ℕ) (fails : Bool)
  | elapse (ms : ℕ)
deriving DecidableEq, Repr

namespace Config

def new : Config ι := ⟨none, 0, fun _ => {}⟩

variable (c : Config ι)

def setInner (i : ι) (s : Instance) : Config ι := { c with inner := Function.update c.inner i s }

/-- `try_lock` of the store: `none` also for an error. -/
def tryLock (fails : Bool) (leaseDurationMs : ℕ) (i : ι) : Option ℕ × Option (Lease ι) :=
  if fails then (none, c.lease) else tryTakeLeasedLock c.now c.lease leaseDurationMs i

/-- `try_lock_once` of an instance, up to the reply of the store and what follows from it. -/
def tryLockOnce (i : ι) (fails : Bool) : Config ι × List (Event ι) :=
  let s := c.inner i
  if s.holders > 0 then
    -- the lock has already been acquired, incrementing the holder count
    (c.setInner i { s with holders := s.holders + 1 }, [.reentered i])
  else
    match c.tryLock fails leaseDurationMs i with
    | (some newGeneration, lease) =>
      let s := s.obtained newGeneration
      ({ c with lease }.setInner i s, [.acquired i !s.isDirty])
    | (none, lease) => ({ c with lease }, [])

/-- The end of a call that obtained the lease. -/
def returnGuard (i : ι) : Config ι × List (Event ι) :=
  let s := c.inner i
  (c.setInner i { s with holders := s.holders + 1, lockingAttempt := .free },
    [.returned i (if s.isDirty then .dirty else .clean)])

/-- A renew task asks the store, and goes on with `some` task or stops. -/
def renew (i : ι) (k : ℕ) (fails : Bool) (leaseDurationMs : ℕ) (next : Option Task)
    (lockingAttempt : LockingAttempt) : Config ι × List (Event ι) :=
  let s := c.inner i
  let (generation, lease) := c.tryLock fails leaseDurationMs i
  let tasks :=
    match generation, next with
    | some _, some next => s.tasks.set k next
    | _, _ => s.tasks.eraseIdx k
  ({ c with lease }.setInner i { s with tasks, lockingAttempt },
    if generation.isSome then [.renewed i] else [])

/-- One action, if it can be taken. -/
def step : Action ι → Option (Config ι × List (Event ι))
  | .tryLockOnce i fails =>
    if (c.inner i).lockingAttempt = .free then some (c.tryLockOnce i fails) else none
  | .returnGuard i => if (c.inner i).lockingAttempt = .call then some (c.returnGuard i) else none
  | .cloneGuard i =>
    let s := c.inner i
    if s.holders > 0 then some (c.setInner i { s with holders := s.holders + 1 }, []) else none
  | .dropGuard i =>
    let s := c.inner i
    if s.holders > 0 then some (c.setInner i { s with holders := s.holders - 1 }, []) else none
  | .clearDirty i => some (c.setInner i { c.inner i with isDirty := false }, [.cleared i])
  | .renewCheck i k =>
    let s := c.inner i
    if s.tasks[k]? = some .check ∧ s.lockingAttempt = .free then
      if s.holders = 0 then
        some (c.setInner i { s with tasks := s.tasks.set k .cancel, lockingAttempt := .task }, [])
      else some (c.setInner i { s with tasks := s.tasks.set k .sleep }, [])
    else none
  | .renewCancel i k fails =>
    if (c.inner i).tasks[k]? = some .cancel then some (c.renew i k fails 0 none .free) else none
  | .renewWake i k =>
    let s := c.inner i
    if s.tasks[k]? = some .sleep then some (c.setInner i { s with tasks := s.tasks.set k .extend }, []) else none
  | .renewExtend i k fails =>
    let s := c.inner i
    if s.tasks[k]? = some .extend then some (c.renew i k fails leaseDurationMs (some .check) s.lockingAttempt)
    else if s.tasks[k]? = some .aborted then some (c.renew i k fails leaseDurationMs none s.lockingAttempt)
    else none
  | .elapse ms => some ({ c with now := c.now + ms }, [])

end Config

open Config

/-- The runs of the processes in which every action is `ok`, with what happened in them, the latest
first. -/
inductive Run (ok : Config ι → Action ι → Prop) : List (Event ι) → Config ι → Prop
  | nil : Run ok [] .new
  | step {log events : List (Event ι)} {c c' : Config ι} {a : Action ι} (hrun : Run ok log c) (hok : ok c a)
      (hstep : c.step a = some (c', events)) : Run ok (events ++ log) c'

/-! ## What clean means -/

/-- The instance obtained the lease. -/
def Event.IsAcquired (i : ι) : Event ι → Prop
  | .acquired j _ => j = i
  | _ => False

/-- Another holder obtained the lease. -/
def Event.IsForeign (i : ι) : Event ι → Prop
  | .acquired j _ | .renewed j => j ≠ i
  | _ => False

/-- The instance obtained the lease and was clean, or it was cleared. -/
def Event.IsMark (i : ι) : Event ι → Prop
  | .acquired j clean => j = i ∧ clean = true
  | .cleared j => j = i
  | _ => False

instance (i : ι) : DecidablePred (Event.IsAcquired i)
  | .acquired j _ => inferInstanceAs (Decidable (j = i))
  | .reentered _ | .returned _ _ | .renewed _ | .cleared _ => inferInstanceAs (Decidable False)

instance (i : ι) : DecidablePred (Event.IsForeign i)
  | .acquired j _ | .renewed j => inferInstanceAs (Decidable (j ≠ i))
  | .reentered _ | .returned _ _ | .cleared _ => inferInstanceAs (Decidable False)

instance (i : ι) : DecidablePred (Event.IsMark i)
  | .acquired j clean => inferInstanceAs (Decidable (j = i ∧ clean = true))
  | .cleared j => inferInstanceAs (Decidable (j = i))
  | .reentered _ | .returned _ _ | .renewed _ => inferInstanceAs (Decidable False)

/-- What happened after the last event with `p`. -/
def since (p : Event ι → Prop) [DecidablePred p] (log : List (Event ι)) : List (Event ι) :=
  log.takeWhile fun e => ¬ p e

/-- The instance was clean or cleared once, and no other holder obtained the lease after it last
was. -/
def Untouched (i : ι) (log : List (Event ι)) : Prop :=
  (∃ e ∈ log, e.IsMark i) ∧ ∀ e ∈ since (Event.IsMark i) log, ¬ e.IsForeign i

/-- The instance was dirty when it obtained the lease, and was not cleared since. -/
def Dirtied (i : ι) (log : List (Event ι)) : Prop := .acquired i false ∈ since (· = .cleared i) log

/-- A clean guard is right: the instance was not dirtied, and if the instance had acquired the lease
before the acquisition of the call, then at that acquisition it was untouched, unless it was cleared
later. -/
def Right (past : List (Event ι)) : Event ι → Prop
  | .reentered i => ¬ Dirtied i past ∧ Untouched i past
  | .returned i .clean => ¬ Dirtied i past ∧
      ∀ newer clean older, past = newer ++ .acquired i clean :: older → (∀ e ∈ newer, ¬ e.IsAcquired i) →
        (∃ e ∈ older, e.IsAcquired i) → .cleared i ∈ newer ∨ Untouched i older
  | _ => True

/-! ## What a step can do -/

section Step

variable {c c' : Config ι} {i : ι} {a : Action ι} {events : List (Event ι)}

/-- The holder obtains the lease, with this generation: it stays when the holder had the lease. -/
inductive Takes (i : ι) (g : ℕ) : Option (Lease ι) → Option (Lease ι) → Prop
  | first {new : Lease ι} (hg : g = 1) (hnew : new.holder = i ∧
    new.generation = g) : Takes i g none (some new)
  | extend {old new : Lease ι} (hold : old.holder = i) (hg : g = old.generation)
      (hnew : new.holder = i ∧ new.generation = g) : Takes i g (some old) (some new)
  | steal {old new : Lease ι} (hold : old.holder ≠ i) (hg : g = old.generation + 1)
      (hnew : new.holder = i ∧ new.generation = g) : Takes i g (some old) (some new)

lemma tryTakeLeasedLock_cases (now : ℕ) (lease : Option (Lease ι)) (duration : ℕ) (i : ι) :
    (∃ g, (tryTakeLeasedLock now lease duration i).1 = some g ∧
      Takes i g lease (tryTakeLeasedLock now lease duration i).2) ∨
        tryTakeLeasedLock now lease duration i = (none, lease) := by
  cases lease with
  | none => exact .inl ⟨_, rfl, .first rfl ⟨rfl, rfl⟩⟩
  | some old =>
    unfold tryTakeLeasedLock
    by_cases hholder : old.holder = i
    · simp only [hholder, if_true]
      exact .inl ⟨_, rfl, .extend hholder rfl ⟨rfl, rfl⟩⟩
    · by_cases hexpired : old.expiration < now
      · simp only [hholder, hexpired, if_false, if_true]
        exact .inl ⟨_, rfl, .steal hholder rfl ⟨rfl, rfl⟩⟩
      · simp only [hholder, hexpired, if_false]
        exact .inr trivial

lemma tryLock_cases (c : Config ι) (fails : Bool) (duration : ℕ) (i : ι) :
    (∃ g, (c.tryLock fails duration i).1 = some g ∧ Takes i g c.lease (c.tryLock fails duration i).2) ∨
      c.tryLock fails duration i = (none, c.lease) := by
  unfold tryLock
  split
  · exact .inr rfl
  · exact tryTakeLeasedLock_cases _ _ _ _

/-- There is a guard, or a call that is going to make one. -/
def Instance.Held (s : Instance) : Prop := 0 < s.holders ∨ s.lockingAttempt = .call

/-- Generations and flags stay, and guards come from guards. -/
structure Quiet (c c' : Config ι) : Prop where
  generation : ∀ j, (c'.inner j).generation = (c.inner j).generation
  isDirty : ∀ j, (c'.inner j).isDirty = (c.inner j).isDirty
  held : ∀ j, (c'.inner j).Held → (c.inner j).Held

/-- What a step can do to the lease, the generations and the flags. -/
inductive Effect (c : Config ι) (a : Action ι) (c' : Config ι) : List (Event ι) → Prop
  | quiet (hlease : c'.lease = c.lease) (hquiet : Quiet c c') : Effect c a c' []
  | reentered (i : ι) (fails : Bool) (ha : a = .tryLockOnce i fails) (hlease : c'.lease = c.lease)
      (hquiet : Quiet c c') (hholders : 0 < (c.inner i).holders) :
      Effect c a c' [.reentered i]
  | returned (i : ι) (state : LockState) (hlease : c'.lease = c.lease) (hquiet : Quiet c c')
      (hstate : state = .clean → (c.inner i).isDirty = false) : Effect c a c' [.returned i state]
  | cleared (i : ι) (hlease : c'.lease = c.lease)
      (hinner : c'.inner = Function.update c.inner i { c.inner i with isDirty := false }) :
      Effect c a c' [.cleared i]
  | renewed (i : ι) (g : ℕ) (htakes : Takes i g c.lease c'.lease) (hquiet : Quiet c c') :
      Effect c a c' [.renewed i]
  | acquired (i : ι) (g : ℕ) (htakes : Takes i g c.lease c'.lease)
      (hinner : c'.inner = Function.update c.inner i ((c.inner i).obtained g)) :
      Effect c a c' [.acquired i !((c.inner i).obtained g).isDirty]

lemma quiet_setInner {lease : Option (Lease ι)} {now : ℕ} {s : Instance}
    (hgeneration : s.generation = (c.inner i).generation) (hdirty : s.isDirty = (c.inner i).isDirty)
    (hheld : s.Held → (c.inner i).Held) : Quiet c (setInner ⟨lease, now, c.inner⟩ i s) := by
  refine ⟨fun j => ?_, fun j => ?_, fun j => ?_⟩ <;> by_cases hj : j = i
  · subst hj
    simpa [setInner] using hgeneration
  · simp [setInner, hj]
  · subst hj
    simpa [setInner] using hdirty
  · simp [setInner, hj]
  · subst hj
    simpa [setInner] using hheld
  · simp [setInner, hj]

lemma quiet_refl (lease : Option (Lease ι)) (now : ℕ) : Quiet c ⟨lease, now, c.inner⟩ :=
  ⟨fun _ => rfl, fun _ => rfl, fun _ h => h⟩

lemma tryLockOnce_effect (fails : Bool) :
    Effect c (.tryLockOnce i fails) (c.tryLockOnce i fails).1 (c.tryLockOnce i fails).2 := by
  unfold tryLockOnce
  by_cases hholders : (c.inner i).holders > 0
  · simp only [hholders, if_true]
    exact .reentered i fails rfl rfl (quiet_setInner rfl rfl fun _ => .inl hholders) hholders
  · simp only [hholders, if_false]
    rcases tryLock_cases c fails leaseDurationMs i with ⟨g, hg, htakes⟩ | hbusy
    · rcases htry : c.tryLock fails leaseDurationMs i with ⟨result, lease⟩
      rw [htry] at hg htakes
      cases hg
      exact .acquired i g htakes rfl
    · rw [hbusy]
      exact .quiet rfl (quiet_refl _ _)

lemma renew_effect (k : ℕ) (fails : Bool) (duration : ℕ) (next : Option Task) (attempt : LockingAttempt)
    (hattempt : attempt = .call → (c.inner i).lockingAttempt = .call) :
    Effect c a (c.renew i k fails duration next attempt).1 (c.renew i k fails duration next attempt).2 := by
  have hheld : ∀ tasks, Instance.Held { c.inner i with tasks, lockingAttempt := attempt } → (c.inner i).Held :=
    fun tasks h => h.imp_right hattempt
  unfold renew
  rcases tryLock_cases c fails duration i with ⟨g, hg, htakes⟩ | hbusy
  · rcases htry : c.tryLock fails duration i with ⟨result, lease⟩
    rw [htry] at hg htakes
    cases hg
    exact .renewed i g htakes (quiet_setInner rfl rfl (hheld _))
  · rw [hbusy]
    exact .quiet rfl (quiet_setInner rfl rfl (hheld _))

lemma Effect.of_result {result : Config ι × List (Event ι)} (h : Effect c a result.1 result.2)
    (hresult : some result = some (c', events)) : Effect c a c' events := by
  cases hresult
  exact h

/-- **What a step can do.** -/
lemma step_effect (hstep : c.step a = some (c', events)) : Effect c a c' events := by
  cases a with
  | tryLockOnce i fails =>
    obtain ⟨-, hstep⟩ := Option.ite_none_right_eq_some.1 hstep
    exact .of_result (tryLockOnce_effect fails) hstep
  | returnGuard i =>
    obtain ⟨hattempt, hstep⟩ := Option.ite_none_right_eq_some.1 hstep
    cases hstep
    refine .returned i _ rfl (quiet_setInner rfl rfl fun _ => .inr hattempt) fun hstate => ?_
    by_contra hdirty
    simp [hdirty] at hstate
  | cloneGuard i | dropGuard i =>
    obtain ⟨hholders, hstep⟩ := Option.ite_none_right_eq_some.1 hstep
    cases hstep
    exact .quiet rfl (quiet_setInner rfl rfl fun _ => .inl hholders)
  | clearDirty i =>
    cases hstep
    exact .cleared i rfl rfl
  | renewCheck i k =>
    obtain ⟨-, hstep⟩ := Option.ite_none_right_eq_some.1 hstep
    split at hstep <;> cases hstep
    · exact .quiet rfl (quiet_setInner rfl rfl fun h => h.imp_right fun h => nomatch h)
    · exact .quiet rfl (quiet_setInner rfl rfl id)
  | renewCancel i k fails =>
    obtain ⟨-, hstep⟩ := Option.ite_none_right_eq_some.1 hstep
    exact .of_result (renew_effect k fails 0 none .free fun h => nomatch h) hstep
  | renewWake i k =>
    obtain ⟨-, hstep⟩ := Option.ite_none_right_eq_some.1 hstep
    cases hstep
    exact .quiet rfl (quiet_setInner rfl rfl id)
  | renewExtend i k fails =>
    simp only [step] at hstep
    split at hstep
    · exact .of_result (renew_effect k fails leaseDurationMs _ _ id) hstep
    · obtain ⟨-, hstep⟩ := Option.ite_none_right_eq_some.1 hstep
      exact .of_result (renew_effect k fails leaseDurationMs _ _ id) hstep
  | elapse ms =>
    cases hstep
    exact .quiet rfl (quiet_refl _ _)

end Step

/-! ## The invariant -/

section Invariant

variable {c c' : Config ι} {i : ι} {log events : List (Event ι)} {e : Event ι}

@[simp] lemma since_nil (p : Event ι → Prop) [DecidablePred p] : since p [] = [] := rfl

lemma since_cons (p : Event ι → Prop) [DecidablePred p] (e : Event ι) (log : List (Event ι)) :
    since p (e :: log) = if p e then [] else e :: since p log := by
  unfold since
  by_cases he : p e <;> simp [he]

lemma untouched_of_since (hdirtied : ¬ Dirtied i log) (hacquired : ∃ e ∈ log, e.IsAcquired i)
    (hforeign : ∀ e ∈ since (Event.IsAcquired i) log, ¬ e.IsForeign i) : Untouched i log := by
  induction log with
  | nil => simp at hacquired
  | cons e log ih =>
    by_cases hmark : e.IsMark i
    · exact ⟨⟨e, by simp, hmark⟩, by simp [since_cons, hmark]⟩
    · have hcleared : e ≠ .cleared i := by
        rintro rfl
        exact hmark rfl
      have hnot : ¬ e.IsAcquired i := by
        intro he
        cases e with
        | acquired j clean =>
          cases (show j = i from he)
          cases clean with
          | true => exact hmark ⟨rfl, rfl⟩
          | false => exact hdirtied (by simp [Dirtied, since_cons])
        | _ => exact he
      rw [since_cons, if_neg hnot] at hforeign
      obtain ⟨he, hforeign⟩ := List.forall_mem_cons.1 hforeign
      have hdirtied' : ¬ Dirtied i log := by
        intro h
        refine hdirtied ?_
        rw [Dirtied, since_cons, if_neg hcleared]
        exact List.mem_cons_of_mem _ h
      have hacquired' : ∃ e ∈ log, e.IsAcquired i := by
        obtain ⟨e', he', hacq⟩ := hacquired
        rcases List.mem_cons.1 he' with rfl | he'
        · exact absurd hacq hnot
        · exact ⟨e', he', hacq⟩
      obtain ⟨⟨m, hm, hmm⟩, hall⟩ := ih hdirtied' hacquired' hforeign
      refine ⟨⟨m, List.mem_cons_of_mem _ hm, hmm⟩, ?_⟩
      rw [since_cons, if_neg hmark]
      exact List.forall_mem_cons.2 ⟨he, hall⟩

/-- What is kept of an instance along a run. -/
structure Inv (log : List (Event ι)) (c : Config ι) (i : ι) : Prop where
  acquired : (c.inner i).generation ≠ 0 ↔ ∃ e ∈ log, e.IsAcquired i
  /-- as long as the generation is that of the lease, no other holder came -/
  lease : (c.inner i).generation ≠ 0 → ∃ lease, c.lease = some lease ∧
    (c.inner i).generation ≤ lease.generation ∧
    (lease.generation = (c.inner i).generation →
      lease.holder = i ∧ ∀ e ∈ since (Event.IsAcquired i) log, ¬ e.IsForeign i)
  dirty : (c.inner i).isDirty = false → ¬ Dirtied i log
  held : (c.inner i).Held → (c.inner i).generation ≠ 0
  positive : ∀ lease, c.lease = some lease → lease.generation ≠ 0

lemma inv_new : Inv [] (.new : Config ι) i where
  positive _ h := by cases h
  acquired := by simp [new, noCrossProcessLockGeneration]
  lease h := absurd rfl h
  dirty _ := by simp [Dirtied]
  held h := by simp [Instance.Held, new] at h

lemma Inv.quiet (h : Inv log c i) (hquiet : Quiet c c') (hlease : c'.lease = c.lease) : Inv log c' i where
  acquired := by rw [hquiet.generation]; exact h.acquired
  lease := by rw [hquiet.generation, hlease]; exact h.lease
  dirty := by rw [hquiet.isDirty]; exact h.dirty
  held hheld := by rw [hquiet.generation]; exact h.held (hquiet.held i hheld)
  positive := by rw [hlease]; exact h.positive

lemma exists_acquired_cons (he : ¬ e.IsAcquired i) :
    (∃ e' ∈ e :: log, e'.IsAcquired i) ↔ ∃ e' ∈ log, e'.IsAcquired i := by
  rw [List.exists_mem_cons_iff, or_iff_right he]

lemma dirtied_cons (he : e ≠ .acquired i false) (h : Dirtied i (e :: log)) : Dirtied i log := by
  unfold Dirtied at h ⊢
  rw [since_cons] at h
  split at h
  · simp at h
  · exact (List.mem_cons.1 h).resolve_left he.symm

lemma Inv.cons (h : Inv log c i) (he : ¬ e.IsAcquired i) (hforeign : ¬ e.IsForeign i) :
    Inv (e :: log) c i where
  __ := h
  acquired := by rw [exists_acquired_cons he]; exact h.acquired
  lease hgeneration := by
    obtain ⟨lease, hlease, hle, hsame⟩ := h.lease hgeneration
    refine ⟨lease, hlease, hle, fun heq => ⟨(hsame heq).1, ?_⟩⟩
    rw [since_cons, if_neg he]
    exact List.forall_mem_cons.2 ⟨hforeign, (hsame heq).2⟩
  dirty hdirty hdirtied := by
    refine h.dirty hdirty (dirtied_cons ?_ hdirtied)
    rintro rfl
    exact he rfl

variable {g : ℕ} {lease' : Option (Lease ι)} {j : ι}

lemma Takes.generation_ne_zero (htakes : Takes j g c.lease lease') (h : Inv log c i) : g ≠ 0 := by
  have hpositive := h.positive
  generalize c.lease = lease at htakes hpositive
  cases htakes with
  | first hg _ => omega
  | extend _ hg _ => rw [hg]; exact hpositive _ rfl
  | steal _ hg _ => omega

lemma Takes.positive (htakes : Takes j g c.lease lease')
    (h : Inv log c i) : ∀ lease, lease' = some lease → lease.generation ≠ 0 := by
  have hg := htakes.generation_ne_zero h
  rintro lease rfl
  generalize c.lease = old at htakes
  cases htakes with
  | first _ hnew => rw [hnew.2]; exact hg
  | extend _ _ hnew => rw [hnew.2]; exact hg
  | steal _ _ hnew => rw [hnew.2]; exact hg

/-- Someone obtains the lease: the generation of the lease is still that of the instance only if it
was the instance that had the lease and extended it. -/
lemma Inv.takes (h : Inv log c i) (htakes : Takes j g c.lease lease')
    (hgeneration : (c.inner i).generation ≠ 0) (he : ¬ e.IsAcquired i) (hforeign : e.IsForeign i → j ≠ i) :
    ∃ lease, lease' = some lease ∧ (c.inner i).generation ≤ lease.generation ∧
      (lease.generation = (c.inner i).generation →
        lease.holder = i ∧ ∀ e' ∈ since (Event.IsAcquired i) (e :: log), ¬ e'.IsForeign i) := by
  obtain ⟨old, hold, hle, hsame⟩ := h.lease hgeneration
  rw [hold] at htakes
  cases htakes with
  | @extend _ new hholder hg hnew =>
    refine ⟨new, rfl, by omega, fun heq => ?_⟩
    obtain ⟨hi, hsince⟩ := hsame (by omega)
    refine ⟨hnew.1.trans (hholder.symm.trans hi), ?_⟩
    rw [since_cons, if_neg he]
    exact List.forall_mem_cons.2 ⟨fun hf => hforeign hf (hholder.symm.trans hi), hsince⟩
  | @steal _ new hholder hg hnew => exact ⟨new, rfl, by omega, fun heq => by omega⟩

lemma Inv.renewed (h : Inv log c i) (htakes : Takes j g c.lease c'.lease) (hquiet : Quiet c c') :
    Inv (.renewed j :: log) c' i where
  acquired := by rw [hquiet.generation, exists_acquired_cons id]; exact h.acquired
  lease := by rw [hquiet.generation]; exact fun hgeneration => h.takes htakes hgeneration id id
  dirty := by
    rw [hquiet.isDirty]
    exact fun hdirty hdirtied => h.dirty hdirty (dirtied_cons (by simp) hdirtied)
  held hheld := by rw [hquiet.generation]; exact h.held (hquiet.held i hheld)
  positive := htakes.positive h

lemma Inv.acquired_other {clean : Bool} (h : Inv log c i) (htakes : Takes j g c.lease c'.lease)
    (hij : j ≠ i) (hinner : c'.inner i = c.inner i) : Inv (.acquired j clean :: log) c' i where
  acquired := by rw [hinner, exists_acquired_cons (e := .acquired j clean) hij]; exact h.acquired
  lease := by rw [hinner]; exact fun hgeneration => h.takes (e := .acquired j clean) htakes hgeneration hij id
  dirty := by
    rw [hinner]
    exact fun hdirty hdirtied => h.dirty hdirty (dirtied_cons (by simp [hij]) hdirtied)
  held := by rw [hinner]; exact h.held
  positive := htakes.positive h

lemma obtained_clean {s : Instance} (h : (s.obtained g).isDirty = false) :
    s.isDirty = false ∧ (s.generation = 0 ∨ s.generation = g) := by
  unfold Instance.obtained at h
  split at h
  next hnone => exact ⟨h, .inl hnone⟩
  next =>
    split at h
    next => cases h
    next hsame => exact ⟨h, .inr (not_not.1 hsame)⟩

lemma Inv.acquired_self (h : Inv log c i) (htakes : Takes i g c.lease c'.lease)
    (hinner : c'.inner i = (c.inner i).obtained g) :
    Inv (.acquired i (!((c.inner i).obtained g).isDirty) :: log) c' i where
  acquired := by
    rw [hinner]
    exact iff_of_true (htakes.generation_ne_zero h) ⟨_, List.mem_cons_self, rfl⟩
  lease _ := by
    rw [hinner]
    generalize c.lease = old at htakes
    generalize c'.lease = lease' at htakes
    have hnothing : ∀ clean, ∀ e ∈ since (Event.IsAcquired i) (.acquired i clean :: log), ¬ e.IsForeign i := by
      intro clean e he
      rw [since_cons, if_pos (show Event.IsAcquired i (.acquired i clean) from rfl)] at he
      cases he
    cases htakes with
    | first _ hnew | extend _ _ hnew | steal _ _ hnew => exact ⟨_, rfl, hnew.2.ge, fun _ => ⟨hnew.1, hnothing _⟩⟩
  dirty hdirty hdirtied := by
    rw [hinner] at hdirty
    exact h.dirty (obtained_clean hdirty).1 (dirtied_cons (by simp [hdirty]) hdirtied)
  held _ := by rw [hinner]; exact htakes.generation_ne_zero h
  positive := htakes.positive h

/-- **A clean acquisition is untouched.** -/
lemma untouched_of_acquired (h : Inv log c i) (htakes : Takes i g c.lease c'.lease)
    (hclean : ((c.inner i).obtained g).isDirty = false) (hbefore : ∃ e ∈ log, e.IsAcquired i) :
      Untouched i log := by
  have hgeneration := h.acquired.2 hbefore
  obtain ⟨hdirty, hnone | hsame⟩ := obtained_clean hclean
  · exact absurd hnone hgeneration
  · refine untouched_of_since (h.dirty hdirty) hbefore ?_
    obtain ⟨old, hold, hle, hforeign⟩ := h.lease hgeneration
    rw [hold] at htakes
    generalize c'.lease = lease' at htakes
    cases htakes with
    | extend _ hg _ => exact (hforeign (by omega)).2
    | steal _ hg _ => omega

lemma Inv.cleared (h : Inv log c i) (hlease : c'.lease = c.lease)
    (hinner : c'.inner = Function.update c.inner j { c.inner j with isDirty := false }) :
    Inv (.cleared j :: log) c' i := by
  have hlog : Inv (.cleared j :: log) c i := h.cons id id
  by_cases hij : i = j
  · subst hij
    have hi : c'.inner i = { c.inner i with isDirty := false } := by rw [hinner, Function.update_self]
    refine ⟨?_, ?_, fun _ hdirtied => ?_, ?_, ?_⟩
    · rw [hi]
      exact hlog.acquired
    · rw [hi, hlease]
      exact hlog.lease
    · simp [Dirtied, since_cons] at hdirtied
    · rw [hi]
      exact hlog.held
    · rw [hlease]
      exact hlog.positive
  · have hi : c'.inner i = c.inner i := by rw [hinner, Function.update_of_ne hij]
    exact ⟨hi ▸ hlog.acquired, by rw [hi, hlease]; exact hlog.lease, hi ▸ hlog.dirty, hi ▸ hlog.held,
      hlease ▸ hlog.positive⟩

lemma inv_effect {a : Action ι} (heffect : Effect c a c' events) (h : ∀ i, Inv log c i) (i : ι) :
    Inv (events ++ log) c' i := by
  cases heffect with
  | quiet hlease hquiet => exact (h i).quiet hquiet hlease
  | reentered j _ _ hlease hquiet _ | returned j state hlease hquiet _ => exact ((h i).cons id id).quiet hquiet hlease
  | cleared j hlease hinner => exact (h i).cleared hlease hinner
  | renewed j g htakes hquiet => exact (h i).renewed htakes hquiet
  | acquired j g htakes hinner =>
    by_cases hij : j = i
    · subst hij
      exact (h j).acquired_self htakes (by rw [hinner, Function.update_self])
    · exact (h i).acquired_other htakes hij (by rw [hinner, Function.update_of_ne (Ne.symm hij)])

end Invariant

/-! ## Runs -/

section Runs

variable {ok : Config ι → Action ι → Prop} {log : List (Event ι)} {c : Config ι}

section

variable (h : Run ok log c)
include h

lemma Run.inv : ∀ i, Inv log c i := by
  induction h with
  | nil => exact fun i => inv_new
  | step _ _ hstep ih => exact inv_effect (step_effect hstep) ih

lemma Run.past {P : List (Event ι) → Event ι → Prop}
    (hP : ∀ log c a c' e, Run ok log c → ok c a → c.step a = some (c', [e]) → P log e)
    (newer : List (Event ι)) (e : Event ι) (older : List (Event ι))
    (hlog : log = newer ++ e :: older) : P older e := by
  induction h generalizing newer with
  | nil => simp at hlog
  | @step log events c c' a hrun hok hstep ih =>
    match events, step_effect hstep with
    | [], _ => exact ih newer hlog
    | [e'], _ =>
      rcases List.cons_eq_append_iff.1 hlog with ⟨-, hlog⟩ | ⟨newer', -, hlog⟩
      · cases hlog
        exact hP _ _ _ _ _ hrun hok hstep
      · exact ih newer' hlog

lemma Run.clean {i : ι} {newer older : List (Event ι)}
    (hlog : log = newer ++ .acquired i true :: older) (hbefore : ∃ e ∈ older, e.IsAcquired i) :
      Untouched i older := by
  refine h.past (P := fun past e => e = .acquired i true → (∃ e ∈ past, e.IsAcquired i) → Untouched i past)
    ?_ newer _ older hlog rfl hbefore
  rintro log c a c' e hrun - hstep rfl hbefore
  generalize hevent : Event.acquired i true = e at hstep
  cases step_effect hstep with
  | acquired j g htakes _ =>
    simp only [Event.acquired.injEq] at hevent
    obtain ⟨rfl, hclean⟩ := hevent
    exact untouched_of_acquired (hrun.inv i) htakes (by simpa using hclean.symm) hbefore
  | _ => cases hevent

/-- **A guard of a call that obtained the lease is right**, in every run. -/
lemma Run.returned {i : ι} (hdirty : (c.inner i).isDirty = false) : Right log (.returned i .clean) := by
  have hdirtied := (h.inv i).dirty hdirty
  refine ⟨hdirtied, fun newer clean older hlog hnewer hbefore => ?_⟩
  cases clean with
  | true => exact .inr (h.clean hlog hbefore)
  | false =>
    left
    by_contra hcleared
    refine hdirtied ?_
    rw [Dirtied, hlog, since, List.takeWhile_append_of_pos]
    · exact List.mem_append_right _ (by simp)
    · intro e he
      refine decide_eq_true fun heq => hcleared ?_
      rw [← heq]
      exact he

end

/-- Guards are only asked for, while there are some, when the instance is not dirty and the lease
still has its generation. -/
def Undisturbed (c : Config ι) : Action ι → Prop
  | .tryLockOnce i _ => 0 < (c.inner i).holders →
      (c.inner i).isDirty = false ∧ ∀ lease, c.lease = some lease → lease.generation = (c.inner i).generation
  | _ => True

/-- **A dirtied lock is not handed out as clean**, in runs that are undisturbed: every clean guard
is right. -/
theorem clean_guards_right (h : Run Undisturbed log c) (newer : List (Event ι)) (e : Event ι)
    (older : List (Event ι)) (hlog : log = newer ++ e :: older) : Right older e := by
  refine h.past ?_ newer e older hlog
  intro log c a c' e hrun hok hstep
  cases step_effect hstep with
  | reentered i fails ha _ _ hholders =>
    subst ha
    obtain ⟨hdirty, hlease⟩ := hok hholders
    have hinv := hrun.inv i
    have hgeneration := hinv.held (.inl hholders)
    obtain ⟨lease, hsome, -, hsame⟩ := hinv.lease hgeneration
    exact ⟨hinv.dirty hdirty, untouched_of_since (hinv.dirty hdirty) (hinv.acquired.1 hgeneration)
      (hsame (hlease lease hsome)).2⟩
  | returned i state _ _ hstate =>
    cases state with
    | clean => exact hrun.returned (hstate rfl)
    | dirty => trivial
  | _ => trivial

/-- The lock is taken, released, taken again and then entered a second time. -/
theorem clean_guards_right_reentered : Right
    [.returned true .clean, .acquired true true, .returned true .clean, .acquired true true]
    (.reentered true) := by
  have hrun : Run (Undisturbed : Config Bool → Action Bool → Prop) _ _ := .nil
  replace hrun := hrun.step (a := .tryLockOnce true false) (fun h => absurd h (by decide)) rfl
  replace hrun := hrun.step (a := .returnGuard true) trivial rfl
  replace hrun := hrun.step (a := .dropGuard true) trivial rfl
  replace hrun := hrun.step (a := .tryLockOnce true false) (fun h => absurd h (by decide)) rfl
  replace hrun := hrun.step (a := .returnGuard true) trivial rfl
  replace hrun := hrun.step (a := .tryLockOnce true false) (fun _ => ⟨rfl, fun _ h => by cases h; rfl⟩) rfl
  exact clean_guards_right hrun [] _ _ rfl

/-- **A dirtied lock is handed out as clean.** One process takes the lock and releases it, so does
another one. The first takes it again, dirty now, and keeps the guard: the next call finds the guard
and returns a clean one. -/
theorem dirty_lock_reentered_clean : ∃ (log : List (Event Bool)) (c : Config Bool),
    Run (fun _ _ => True) (.reentered true :: .returned true .dirty :: log) c ∧
      Dirtied true (.returned true .dirty :: log) ∧ ¬ Untouched true (.returned true .dirty :: log) := by
  have hrun : Run (fun (_ : Config Bool) _ => True) _ _ := .nil
  replace hrun := hrun.step (a := .tryLockOnce true false) trivial rfl
  replace hrun := hrun.step (a := .returnGuard true) trivial rfl
  replace hrun := hrun.step (a := .dropGuard true) trivial rfl
  replace hrun := hrun.step (a := .renewCheck true 0) trivial rfl
  replace hrun := hrun.step (a := .renewCancel true 0 false) trivial rfl
  replace hrun := hrun.step (a := .elapse 1) trivial rfl
  replace hrun := hrun.step (a := .tryLockOnce false false) trivial rfl
  replace hrun := hrun.step (a := .returnGuard false) trivial rfl
  replace hrun := hrun.step (a := .dropGuard false) trivial rfl
  replace hrun := hrun.step (a := .renewCheck false 0) trivial rfl
  replace hrun := hrun.step (a := .renewCancel false 0 false) trivial rfl
  replace hrun := hrun.step (a := .elapse 1) trivial rfl
  replace hrun := hrun.step (a := .tryLockOnce true false) trivial rfl
  replace hrun := hrun.step (a := .returnGuard true) trivial rfl
  replace hrun := hrun.step (a := .tryLockOnce true false) trivial rfl
  refine ⟨[.acquired true false, .renewed false, .returned false .clean, .acquired false true, .renewed true,
    .returned true .clean, .acquired true true], _, hrun, ?_, ?_⟩
  · unfold Dirtied
    decide
  · unfold Untouched
    decide

/-- **Guards exclude each other**: of the instances with guards at most one has the generation of
the lease. It holds the lease, and no other holder obtained it since; every other instance has a
smaller generation. -/
theorem guards_exclude (h : Run ok log c) {i : ι} (hi : (c.inner i).Held) :
    ∃ lease, c.lease = some lease ∧ ((c.inner i).generation < lease.generation ∨
      ((c.inner i).generation = lease.generation ∧ lease.holder = i ∧
        (∀ e ∈ since (Event.IsAcquired i) log, ¬ e.IsForeign i) ∧
        ∀ j ≠ i, (c.inner j).generation < lease.generation)) := by
  obtain ⟨lease, hlease, hle, hsame⟩ := (h.inv i).lease ((h.inv i).held hi)
  refine ⟨lease, hlease, hle.lt_or_eq.imp_right fun heq => ?_⟩
  obtain ⟨hholder, hforeign⟩ := hsame heq.symm
  refine ⟨heq, hholder, hforeign, fun j hj => ?_⟩
  by_cases hnone : (c.inner j).generation = 0
  · rw [hnone]
    exact Nat.pos_of_ne_zero ((h.inv i).positive lease hlease)
  · obtain ⟨lease', hlease', hle', hsame'⟩ := (h.inv j).lease hnone
    obtain rfl := Option.some.inj (hlease.symm.trans hlease')
    exact hle'.lt_of_ne fun heq' => hj ((hsame' heq'.symm).1.symm.trans hholder)

/-- One process takes the lock and does not renew its lease, and another one takes the lock: both
have guards. -/
theorem guards_exclude_two : ∃ (log : List (Event Bool)) (c : Config Bool) (lease : Lease Bool),
    Run (fun _ _ => True) log c ∧ (c.inner true).Held ∧ (c.inner false).Held ∧ c.lease = some lease ∧
      lease.holder = false ∧ (c.inner true).generation < lease.generation := by
  have hrun : Run (fun (_ : Config Bool) _ => True) _ _ := .nil
  replace hrun := hrun.step (a := .tryLockOnce true false) trivial rfl
  replace hrun := hrun.step (a := .returnGuard true) trivial rfl
  replace hrun := hrun.step (a := .elapse (leaseDurationMs + 1)) trivial rfl
  replace hrun := hrun.step (a := .tryLockOnce false false) trivial rfl
  obtain ⟨lease, hlease, hlt | ⟨-, hholder, -, hothers⟩⟩ := guards_exclude hrun (i := false) (.inr rfl)
  · cases hlease
    exact absurd hlt (by decide)
  · exact ⟨_, _, lease, hrun, .inl (by decide), .inr rfl, hlease, hholder, hothers true (by decide)⟩

end Runs

end CrossProcessLock

end HaranaMatrix.Common
