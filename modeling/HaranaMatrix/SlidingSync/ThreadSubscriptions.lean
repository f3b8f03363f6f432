import Mathlib.Data.List.Basic

/-!
# Catching up thread subscriptions

A sync that leaves out changes of thread subscriptions comes with a token. The tokens are stored,
and a task asks for what they stand for, the newest first. The flag that says whether something is
left starts as `true`, and changes only when a list of tokens is saved. -/

namespace HaranaMatrix.ThreadSubscriptions

open List

structure ThreadSubscriptionCatchupToken where
  «from» : String
  «to» : Option String
deriving DecidableEq

/-- The stored tokens, the flag, and the token that the task has asked for. -/
structure Catchup where
  catchupTokens : Option (List ThreadSubscriptionCatchupToken)
  isOutdated : Bool
  last : Option ThreadSubscriptionCatchupToken

/-- What happens while the lock is held. `load` is the top of the loop of the task, also after a
wake-up. -/
inductive Action
  | sync (token : Option ThreadSubscriptionCatchupToken)
  | load
  | respond («end» : Option String)
  | fail

namespace Catchup

def new (catchupTokens : Option (List ThreadSubscriptionCatchupToken)) :
    Catchup := ⟨catchupTokens, true, none⟩

variable (s : Catchup)

def tokens : List ThreadSubscriptionCatchupToken := s.catchupTokens.getD []

def saveCatchupTokens (tokens : List ThreadSubscriptionCatchupToken) : Catchup :=
  if tokens.isEmpty then { s with catchupTokens := none, isOutdated := false }
  else { s with catchupTokens := some tokens, isOutdated := true }

/-- An empty list is cleaned up. -/
def loadCatchupTokens : Catchup := if s.catchupTokens = some [] then s.saveCatchupTokens [] else s

def saveCatchupToken (token : Option ThreadSubscriptionCatchupToken) : Catchup :=
  let s := s.loadCatchupTokens
  match token with
  | some token => if token ∈ s.tokens then s else s.saveCatchupTokens (s.tokens ++ [token])
  | none => s

/-- The token for the rest takes the place of the one that was asked for. -/
def advance (last : ThreadSubscriptionCatchupToken) («end» : Option String) : Catchup :=
  let s := s.loadCatchupTokens
  match s.tokens.idxOf? last with
  | none => s
  | some index =>
    match «end» with
    | some nextBatch => s.saveCatchupTokens (s.tokens.set index ⟨nextBatch, last.«to»⟩)
    | none => s.saveCatchupTokens (s.tokens.eraseIdx index)

def step : Action → Catchup
  | .sync token => s.saveCatchupToken token
  | .load =>
    match s.last with
    | some _ => s
    | none => { s.loadCatchupTokens with last := s.tokens.getLast? }
  | .respond «end» =>
    match s.last with
    | none => s
    | some last => { s.advance last «end» with last := none }
  | .fail => { s with last := none }

def run (actions : List Action) : Catchup := actions.foldl step s

/-- The flag says whether tokens are left. -/
def InStep : Prop := s.isOutdated = true ↔ s.tokens ≠ []

variable {s} {actions : List Action}

lemma inStep_saveCatchupTokens (tokens : List ThreadSubscriptionCatchupToken) :
    (s.saveCatchupTokens tokens).InStep := by
  cases tokens <;> simp [saveCatchupTokens, InStep, Catchup.tokens]

lemma InStep.loadCatchupTokens (h : s.InStep) : s.loadCatchupTokens.InStep := by
  unfold Catchup.loadCatchupTokens
  split
  · exact inStep_saveCatchupTokens _
  · exact h

lemma InStep.step (h : s.InStep) (action : Action) : (s.step action).InStep := by
  have hload := h.loadCatchupTokens
  cases action with
  | sync token =>
    unfold Catchup.step saveCatchupToken
    dsimp only
    split
    · split
      · exact hload
      · exact inStep_saveCatchupTokens _
    · exact hload
  | load =>
    unfold Catchup.step
    dsimp only
    split
    · exact h
    · exact hload
  | respond next =>
    unfold Catchup.step
    dsimp only
    split
    · exact h
    next last _ =>
    show (s.advance last next).InStep
    unfold advance
    dsimp only
    split
    · exact hload
    · split <;> exact inStep_saveCatchupTokens _
  | fail => exact h

lemma InStep.run (h : s.InStep) : (s.run actions).InStep :=
  foldlRecOn actions Catchup.step h fun _ h action _ => h.step action

/-- From a state that only a save changes, the flag is right after an action that saves. -/
lemma inStep_run {action : Action} (h : ∀ action, s.step action = s ∨ (s.step action).InStep)
    (hsaves : (s.step action).InStep) (hmem : action ∈ actions) : (s.run actions).InStep := by
  obtain ⟨before, after, rfl⟩ := append_of_mem hmem
  have hbefore : s.run before = s ∨ (s.run before).InStep := by
    refine foldlRecOn (motive := fun t => t = s ∨ t.InStep) before step (.inl rfl) fun t ht first _ => ?_
    rcases ht with rfl | ht
    · exact h first
    · exact .inr (ht.step first)
  have hsplit : s.run (before ++ action :: after) = ((s.run before).step action).run after := by simp [run]
  rw [hsplit]
  rcases hbefore with heq | hbefore
  · rw [heq]
    exact hsaves.run
  · exact (hbefore.step action).run

lemma step_new_none (action : Action) : (new none).step action = new none ∨
    (∃ token, action = .sync (some token)) ∧ ((new none).step action).InStep := by
  cases action with
  | sync token =>
    cases token with
    | none => exact .inl rfl
    | some token => exact .inr ⟨⟨token, rfl⟩, @inStep_saveCatchupTokens (new none) [token]⟩
  | load | respond | fail => exact .inl rfl

/-- **The flag says whether tokens are left** exactly if there was a list in the store at the start,
or a token came with a sync. -/
theorem isOutdated_iff (catchupTokens : Option (List ThreadSubscriptionCatchupToken)) (actions : List Action)
    (hsync : ∃ token, .sync token ∈ actions) :
    ((((new catchupTokens).run actions).isOutdated = true) ↔ ((new catchupTokens).run actions).tokens ≠ []) ↔
      catchupTokens.isSome ∨ ∃ token, .sync (some token) ∈ actions := by
  change ((new catchupTokens).run actions).InStep ↔ _
  rcases catchupTokens with - | - | ⟨first, rest⟩
  · rw [Option.isSome_none, Bool.false_eq_true, false_or]
    constructor
    · intro h
      by_contra hnone
      have hsame : (new none).run actions = new none := by
        refine foldlRecOn (motive := (· = new none)) actions step rfl fun _ hs action hmem => ?_
        rw [hs]
        refine (step_new_none action).resolve_right ?_
        rintro ⟨⟨token, rfl⟩, -⟩
        exact hnone ⟨token, hmem⟩
      rw [hsame] at h
      exact h.1 rfl rfl
    · rintro ⟨token, hmem⟩
      have hsaves : ((new none).step (.sync (some token))).InStep :=
        @inStep_saveCatchupTokens (new none) [token]
      exact inStep_run (fun action => (step_new_none action).imp_right And.right) hsaves hmem
  · obtain ⟨token, hmem⟩ := hsync
    have hsaves (token : Option ThreadSubscriptionCatchupToken) : ((new (some [])).step (.sync token)).InStep := by
      cases token with
      | none => exact @inStep_saveCatchupTokens (new (some [])) []
      | some token => exact @inStep_saveCatchupTokens (new none) [token]
    refine iff_of_true (inStep_run (fun action => ?_) (hsaves token) hmem) (.inl rfl)
    cases action with
    | sync token => exact .inr (hsaves token)
    | load => exact .inr (hsaves none)
    | respond | fail => exact .inl rfl
  · have hstart : (new (some (first :: rest))).InStep := by simp [new, InStep, tokens]
    exact iff_of_true hstart.run (.inl rfl)

theorem isOutdated_iff_one_token : ((new none).run [.sync (some ⟨"a", none⟩)]).isOutdated = true ↔
    ((new none).run [.sync (some ⟨"a", none⟩)]).tokens ≠ [] :=
  (isOutdated_iff none [.sync (some ⟨"a", none⟩)] ⟨_, mem_cons_self⟩).2 (.inr ⟨_, mem_cons_self⟩)

theorem isOutdated_without_token :
    ((new none).run [.sync none]).isOutdated = true ∧ ((new none).run [.sync none]).tokens = [] := by
  decide

/-! ## Catching up -/

lemma tokens_saveCatchupTokens (tokens : List ThreadSubscriptionCatchupToken) :
    (s.saveCatchupTokens tokens).tokens = tokens := by
  cases tokens <;> rfl

lemma tokens_loadCatchupTokens : s.loadCatchupTokens.tokens = s.tokens := by
  unfold loadCatchupTokens
  split
  next h => simp [tokens, h, saveCatchupTokens]
  · rfl

/-- A response takes the place of the token that was asked for, or removes it if nothing is left. -/
lemma length_advance {last : ThreadSubscriptionCatchupToken} (h : last ∈ s.tokens) (next : Option String) :
    (s.advance last next).tokens.length = s.tokens.length - if next = none then 1 else 0 := by
  obtain ⟨index, hindex⟩ := Option.isSome_iff_exists.1 (isSome_idxOf?.2 h)
  have hlt : index < s.tokens.length := (idxOf?_eq_some_iff.1 hindex).1
  simp only [advance, tokens_loadCatchupTokens, hindex]
  cases next with
  | none => simpa [tokens_saveCatchupTokens] using length_eraseIdx_of_lt hlt
  | some nextBatch => simp [tokens_saveCatchupTokens]

/-- One round of the task, which asks for the newest token. -/
lemma length_round (h : s.last = none) (next : Option String) :
    (s.run [.load, .respond next]).last = none ∧
      (s.run [.load, .respond next]).tokens.length = s.tokens.length - if next = none then 1 else 0 := by
  have htokens : (s.step .load).tokens = s.tokens := by
    simp only [step, h]
    exact tokens_loadCatchupTokens
  have hlast : (s.step .load).last = s.tokens.getLast? := by simp [step, h]
  change ((s.step .load).step (.respond next)).last = none ∧
    ((s.step .load).step (.respond next)).tokens.length = _
  rw [← htokens] at hlast ⊢
  generalize s.step .load = t at hlast ⊢
  cases hmem : t.tokens.getLast? with
  | none =>
    rw [hmem] at hlast
    simp [step, hlast, getLast?_eq_none_iff.1 hmem]
  | some last =>
    rw [hmem] at hlast
    simp only [step, hlast]
    exact ⟨trivial, length_advance (mem_of_getLast? hmem) next⟩

/-- **The task catches up**: the flag is cleared as soon as there was a response without an end for
every token. -/
theorem isOutdated_rounds (h : s.last = none) (hs : s.InStep) (ends : List (Option String)) :
    (s.run (ends.flatMap fun next => [.load, .respond next])).isOutdated = true ↔
      ends.count none < s.tokens.length := by
  induction ends generalizing s with
  | nil => simpa [run, length_pos_iff, InStep] using hs
  | cons next ends ih =>
    obtain ⟨hlast, hlength⟩ := length_round h next
    have hrun : s.run ((next :: ends).flatMap fun next => [.load, .respond next]) =
        (s.run [.load, .respond next]).run (ends.flatMap fun next => [.load, .respond next]) := rfl
    rw [hrun, ih hlast hs.run, hlength, count_cons]
    cases next <;> simp
    omega

theorem isOutdated_rounds_two : ((new (some [⟨"a", none⟩, ⟨"b", none⟩])).run
    ([none, some "c", none].flatMap fun next => [.load, .respond next])).isOutdated = false := by
  have h := isOutdated_rounds (s := new (some [⟨"a", none⟩, ⟨"b", none⟩])) rfl (by simp [new, InStep, tokens]) [none, some "c", none]
  exact Bool.eq_false_iff.2 fun hout => absurd (h.1 hout) (by decide)

end Catchup
end HaranaMatrix.ThreadSubscriptions
