import Mathlib

/-!
# Scanners that do not look past a character

A scanner reads a prefix of a text, and an alternative starts again where the first one started.
`Local stop p`: the scanner `p` reads the same prefix whether the text ends or goes on with `stop`.
Scanners that are put together of local ones are local. -/

namespace Scanner

/-- A scanner of characters: what it read and the rest, or nothing. -/
abbrev Scan (α : Type) := StateT (List Char) Option α

variable {α β : Type} {stop c : Char} {p q : Scan α} {f : α → Scan β}

def readGivenChar (target : Char) : Scan Unit := fun s =>
  match s with
  | [] => none
  | c :: s => if c = target then some ((), s) else none

/-- The scanner `inner`, after the separator unless it is the first. -/
def readSeparator (sep : Char) (index : ℕ) (inner : Scan α) : Scan α :=
  if 0 < index then do
    readGivenChar sep
    inner
  else inner

def toDigit (radix : ℕ) (c : Char) : Option ℕ :=
  let digit :=
    if '0' ≤ c ∧ c ≤ '9' then c.toNat - '0'.toNat
    else if 'a' ≤ c ∧ c ≤ 'z' then c.toNat - 'a'.toNat + 10
    else if 'A' ≤ c ∧ c ≤ 'Z' then c.toNat - 'A'.toNat + 10
    else radix
  if digit < radix then some digit else none

def isDigit (radix : ℕ) (c : Char) : Bool := (toDigit radix c).isSome

/-- The number with these digits. -/
def ofDigits (radix : ℕ) (digits : List Char) : ℕ :=
  digits.foldl (fun n c => n * radix + (toDigit radix c).getD 0) 0

/-- A number up to `max`, with all the digits that there are. -/
def readNumber (radix : ℕ) (maxDigits : Option ℕ) (allowZeroPrefix : Bool) (max : ℕ) : Scan ℕ := fun s =>
  let digits := s.takeWhile (isDigit radix)
  let rest := s.dropWhile (isDigit radix)
  if digits.isEmpty ∨ maxDigits.any (· < digits.length) ∨
      (!allowZeroPrefix ∧ digits.head? = some '0' ∧ 1 < digits.length) ∨ max < ofDigits radix digits then none
  else some (ofDigits radix digits, rest)

/-- The whole text is read. -/
def parseWith (p : Scan α) (s : List Char) : Option α :=
  match p s with
  | some (a, []) => some a
  | _ => none

lemma parseWith_eq_some {s : List Char} {a : α} : parseWith p s = some a ↔ p s = some (a, []) := by
  unfold parseWith
  split
  next a' h => simp [h]
  next h =>
    simp only [reduceCtorEq, false_iff]
    exact fun hp => h a hp

/-- **The scanner does not look past `stop`.** -/
def Local (stop : Char) (p : Scan α) : Prop :=
  ∀ s t, p (s ++ stop :: t) = (p s).map fun x => (x.1, x.2 ++ stop :: t)

lemma Local.pure (a : α) : Local stop (Pure.pure a) := fun _ _ => rfl

lemma Local.bind (hp : Local stop p) (hf : ∀ a, Local stop (f a)) : Local stop (p >>= f) := by
  intro s t
  show (p (s ++ stop :: t)).bind (fun x => f x.1 x.2) = ((p s).bind fun x => f x.1 x.2).map _
  rw [hp s t]
  cases p s with
  | none => rfl
  | some x => exact hf x.1 x.2 t

lemma Local.orElse (hp : Local stop p) (hq : Local stop q) : Local stop (p <|> q) := by
  intro s t
  have h : ∀ s, (p <|> q) s = (p s <|> q s) := fun s => rfl
  rw [h, h, hp s t, hq s t]
  cases p s <;> rfl

lemma Local.readGivenChar (h : c ≠ stop) : Local stop (readGivenChar c) := by
  intro s t
  cases s with
  | nil => exact if_neg h.symm
  | cons d s =>
    by_cases hd : d = c <;> simp [Scanner.readGivenChar, hd]

lemma Local.readSeparator (h : c ≠ stop) (hp : Local stop p) (index : ℕ) :
    Local stop (readSeparator c index p) := by
  unfold Scanner.readSeparator
  split
  · exact (Local.readGivenChar h).bind fun _ => hp
  · exact hp

section Append

variable {b : Char → Bool} {s t : List Char}

lemma takeWhile_append_stop (h : b stop = false) : (s ++ stop :: t).takeWhile b = s.takeWhile b := by
  induction s with
  | nil => simp [h]
  | cons c s ih => by_cases hc : b c <;> simp [hc, ih]

lemma dropWhile_append_stop (h : b stop = false) :
    (s ++ stop :: t).dropWhile b = s.dropWhile b ++ stop :: t := by
  induction s with
  | nil => simp [h]
  | cons c s ih => by_cases hc : b c <;> simp [hc, ih]

end Append

lemma Local.readNumber {radix : ℕ} (h : isDigit radix stop = false) (maxDigits : Option ℕ)
    (allowZeroPrefix : Bool) (max : ℕ) :
    Local stop (readNumber radix maxDigits allowZeroPrefix max) := by
  intro s t
  simp only [Scanner.readNumber, takeWhile_append_stop h, dropWhile_append_stop h]
  split <;> rfl

lemma readNumber_all {radix max : ℕ} {digits : List Char} (hne : digits ≠ [])
    (hall : ∀ c ∈ digits, isDigit radix c)
    (hle : ofDigits radix digits ≤ max) : readNumber radix none true max digits =
      some (ofDigits radix digits, []) := by
  have htake : digits.takeWhile (isDigit radix) = digits := List.takeWhile_eq_self_iff.2 hall
  have hdrop : digits.dropWhile (isDigit radix) = [] := List.dropWhile_eq_nil_iff.2 hall
  simp [Scanner.readNumber, htake, hdrop, hne, not_lt.2 hle]

lemma readNumber_none {radix max : ℕ} {s : List Char} (h : isDigit radix c = false)
    (maxDigits : Option ℕ) (b : Bool) :
    readNumber radix maxDigits b max (c :: s) = none := by
  simp [Scanner.readNumber, h]

end Scanner
