import HaranaMatrix.Lib.Sim

/-!
# The request generator of a sliding sync list

In growing and in paging mode the generator remembers how far it has asked as one requested end, and
the number of rooms that the server reports may change with every response. Whatever the
interleaving of requests and responses, every room up to the requested end was asked for, so a list
that is reported as fully loaded has asked for all its rooms. -/

namespace HaranaMatrix.SlidingSync

/-! ## Ranges -/

/-- A range of room indices, both bounds included. -/
structure Range where
  start : ℕ
  stop : ℕ
deriving DecidableEq, Repr

inductive Error
  | invalidRange (start stop : ℕ)
  | requestGeneratorHasNotBeenInitialized (listName : String)
  /-- an overflow in a build that checks for it -/
  | panic (message : String)
deriving DecidableEq, Repr

def u32Max : ℕ := 2 ^ 32 - 1

def saturatingAdd (a b : ℕ) : ℕ := min (a + b) u32Max

/-- `+` on `u32`: an overflow is a panic in debug builds, and wraps in release builds. -/
def addU32 (debug : Bool) (a b : ℕ) : Except Error ℕ :=
  if a + b ≤ u32Max then .ok (a + b)
  else if debug then .error (.panic "attempt to add with overflow")
  else .ok ((a + b) % 2 ^ 32)

/-- The minimum with a bound that may be absent. -/
def minWith (a : ℕ) : Option ℕ → ℕ
  | some b => min a b
  | none => a

def createRange (debug : Bool) (start desiredSize : ℕ)
    (maximumNumberOfRoomsToFetch maximumNumberOfRooms : Option ℕ) : Except Error Range := do
  let stop ← addU32 debug start desiredSize
  let stop := minWith stop maximumNumberOfRoomsToFetch
  let stop := minWith stop maximumNumberOfRooms
  -- the bounds of the range are inclusive
  let stop := stop - 1
  if stop < start then throw (.invalidRange start stop)
  return ⟨start, stop⟩

/-! ## The generator -/

inductive SlidingSyncMode
  | paging (batchSize : ℕ) (maximumNumberOfRoomsToFetch : Option ℕ)
  | growing (batchSize : ℕ) (maximumNumberOfRoomsToFetch : Option ℕ)
  | selective (ranges : List Range)
deriving Repr

/-- What the growing and the paging modes remember. -/
structure Progress where
  batchSize : ℕ
  maximumNumberOfRoomsToFetch : Option ℕ
  numberOfFetchedRooms : ℕ
  fullyLoaded : Bool
  requestedEnd : Option ℕ
deriving DecidableEq, Repr

inductive RequestGeneratorKind
  | growing (progress : Progress)
  | paging (progress : Progress)
  | selective
deriving DecidableEq, Repr

structure RequestGenerator where
  ranges : List Range
  kind : RequestGeneratorKind
deriving DecidableEq, Repr

inductive LoadingState
  | notLoaded
  | preloaded
  | partiallyLoaded
  | fullyLoaded
deriving DecidableEq, Repr

/-- The part of `handle_response` that the paging and the growing modes share. -/
def Progress.handleResponse (p : Progress) (listName : String)
    (maximumNumberOfRooms : ℕ) : Except Error (LoadingState × List Range × Progress) :=
  match p.requestedEnd with
  | none => .error (.requestGeneratorHasNotBeenInitialized listName)
  | some rangeEnd =>
    let rangeMaximum := minWith maximumNumberOfRooms p.maximumNumberOfRoomsToFetch - 1
    if rangeEnd < rangeMaximum then
      .ok (.partiallyLoaded, [⟨0, rangeEnd⟩],
        { p with numberOfFetchedRooms := saturatingAdd rangeEnd 1, fullyLoaded := false })
    else
      .ok (.fullyLoaded, [⟨0, rangeMaximum⟩], { p with numberOfFetchedRooms := rangeMaximum, fullyLoaded := true })

namespace RequestGenerator

def new : SlidingSyncMode → RequestGenerator
  | .paging batchSize maximum => ⟨[], .paging ⟨batchSize, maximum, 0, false, none⟩⟩
  | .growing batchSize maximum => ⟨[], .growing ⟨batchSize, maximum, 0, false, none⟩⟩
  | .selective ranges => ⟨ranges, .selective⟩

/-- The ranges of the next request. A call that fails leaves the generator as it was. -/
def generateNextRanges (debug : Bool) (maximumNumberOfRooms : Option ℕ) (g : RequestGenerator) :
    Except Error (List Range × RequestGenerator) :=
  match g.kind with
  | .selective => .ok (g.ranges, g)
  | .paging p =>
    if p.fullyLoaded then .ok (g.ranges, g)
    else do
      -- a page starts at the number of fetched rooms
      let nextRange ← createRange debug p.numberOfFetchedRooms p.batchSize p.maximumNumberOfRoomsToFetch
        maximumNumberOfRooms
      return ([nextRange], { g with kind := .paging { p with requestedEnd := some nextRange.stop } })
  | .growing p =>
    if p.fullyLoaded then .ok (g.ranges, g)
    else do
      let nextRange ← createRange debug 0 (saturatingAdd p.numberOfFetchedRooms p.batchSize)
        p.maximumNumberOfRoomsToFetch maximumNumberOfRooms
      return ([nextRange], { g with kind := .growing { p with requestedEnd := some nextRange.stop } })

def handleResponse (listName : String) (maximumNumberOfRooms : ℕ) (g : RequestGenerator) :
    Except Error (LoadingState × RequestGenerator) :=
  match g.kind with
  | .paging p => do
    let (state, ranges, p) ← p.handleResponse listName maximumNumberOfRooms
    return (state, ⟨ranges, .paging p⟩)
  | .growing p => do
    let (state, ranges, p) ← p.handleResponse listName maximumNumberOfRooms
    return (state, ⟨ranges, .growing p⟩)
  | .selective => .ok (.fullyLoaded, g)

/-! ## What a call does -/

variable {debug : Bool} {listName : String} {g g' : RequestGenerator} {p : Progress} {ranges : List Range}

/-- The progress of a generator that is not selective. -/
def progress (g : RequestGenerator) : Option Progress :=
  match g.kind with
  | .growing p => some p
  | .paging p => some p
  | .selective => none

lemma createRange_start {start size : ℕ} {toFetch rooms : Option ℕ} {r : Range}
    (h : createRange debug start size toFetch rooms = .ok r) : r.start = start := by
  obtain ⟨stop, -, h⟩ := bind_eq_ok h
  simp only at h
  split at h
  · cases h
  · cases h
    rfl

section

variable (hp : g.progress = some p)
include hp

lemma generateNextRanges_cases {rooms : Option ℕ} (h : g.generateNextRanges debug rooms = .ok (ranges, g')) :
    (p.fullyLoaded = true ∧ g' = g) ∨
      p.fullyLoaded = false ∧ ∃ r, ranges = [r] ∧ r.start ≤ p.numberOfFetchedRooms ∧
        g'.progress = some { p with requestedEnd := some r.stop } := by
  obtain ⟨ranges₀, kind⟩ := g
  cases kind with
  | selective => cases hp
  | paging q | growing q =>
    cases hp
    simp only [generateNextRanges] at h
    split at h
    next hloaded =>
      cases h
      exact .inl ⟨hloaded, rfl⟩
    next hloaded =>
      obtain ⟨r, hr, h⟩ := bind_eq_ok h
      cases h
      exact .inr ⟨by simpa using hloaded, r, rfl, (createRange_start hr).trans_le (by omega), rfl⟩

lemma generateNextRanges_fullyLoaded (hloaded : p.fullyLoaded = true)
    (rooms : Option ℕ) : ∃ ranges, g.generateNextRanges debug rooms = .ok (ranges, g) := by
  obtain ⟨ranges₀, kind⟩ := g
  cases kind with
  | selective => cases hp
  | paging q | growing q =>
    cases hp
    exact ⟨ranges₀, if_pos hloaded⟩

lemma handleResponse_cases {rooms : ℕ} {state : LoadingState}
    (h : g.handleResponse listName rooms = .ok (state, g')) :
    ∃ e, p.requestedEnd = some e ∧
      ((e < minWith rooms p.maximumNumberOfRoomsToFetch - 1 ∧ state = .partiallyLoaded ∧
        g'.progress = some { p with numberOfFetchedRooms := saturatingAdd e 1, fullyLoaded := false }) ∨
      (minWith rooms p.maximumNumberOfRoomsToFetch - 1 ≤ e ∧ state = .fullyLoaded ∧
        g'.progress = some { p with
          numberOfFetchedRooms := minWith rooms p.maximumNumberOfRoomsToFetch - 1, fullyLoaded :=
            true })) := by
  obtain ⟨ranges₀, kind⟩ := g
  cases kind with
  | selective => cases hp
  | paging q | growing q =>
    cases hp
    obtain ⟨⟨state₁, ranges₁, p₁⟩, hresponse, h⟩ := bind_eq_ok h
    cases h
    unfold Progress.handleResponse at hresponse
    split at hresponse
    next => cases hresponse
    next e he =>
      refine ⟨e, he, ?_⟩
      simp only at hresponse
      split at hresponse
      next hlt =>
        cases hresponse
        exact .inl ⟨hlt, rfl, rfl⟩
      next hge =>
        cases hresponse
        exact .inr ⟨by omega, rfl, rfl⟩

lemma handleResponse_fullyLoaded {rooms e : ℕ} (he : p.requestedEnd = some e)
    (hle : minWith rooms p.maximumNumberOfRoomsToFetch - 1 ≤ e) :
    ∃ g', g.handleResponse listName rooms = .ok (.fullyLoaded, g') := by
  obtain ⟨ranges₀, kind⟩ := g
  cases kind with
  | selective => cases hp
  | paging q | growing q =>
    cases hp
    simp only [handleResponse, Progress.handleResponse, he]
    rw [if_neg (by omega)]
    exact ⟨_, rfl⟩

end

/-! ## Coverage -/

/-- Every index below `n` belongs to one of the ranges. -/
def Covers (requested : List Range) (n : ℕ) : Prop :=
  ∀ i < n, ∃ r ∈ requested, r.start ≤ i ∧ i ≤ r.stop

lemma Covers.append {requested : List Range} {n : ℕ} (h : Covers requested n) (more : List Range) :
    Covers (requested ++ more) n := fun i hi => by
  obtain ⟨r, hr, hmem⟩ := h i hi
  exact ⟨r, List.mem_append_left _ hr, hmem⟩

lemma Covers.mono {requested : List Range} {n m : ℕ} (h : Covers requested n) (hm : m ≤ n) :
    Covers requested m :=
  fun i hi => h i (hi.trans_le hm)

lemma Covers.extend {requested : List Range} {n : ℕ} (h : Covers requested n) {r : Range} (hr : r.start ≤ n) :
    Covers (requested ++ [r]) (r.stop + 1) := fun i hi => by
  by_cases hin : i < n
  · exact h.append [r] i hin
  · exact ⟨r, by simp, by omega, by omega⟩

/-- The generator has asked for the rooms that it counts as fetched, and for those up to the
requested end. -/
structure Asked (g : RequestGenerator) (maximum : Option ℕ) (requested : List Range)
    (p : Progress) : Prop where
  progress : g.progress = some p
  maximum : p.maximumNumberOfRoomsToFetch = maximum
  fetched : Covers requested p.numberOfFetchedRooms
  requestedEnd : ∀ e, p.requestedEnd = some e → Covers requested (e + 1)

section Asked

variable {maximum : Option ℕ} {requested : List Range}

lemma Asked.generate {rooms : Option ℕ} (h : Asked g maximum requested p)
    (hg : g.generateNextRanges debug rooms = .ok (ranges, g')) :
      ∃ p', Asked g' maximum (requested ++ ranges) p' := by
  rcases generateNextRanges_cases h.progress hg with ⟨-, rfl⟩ | ⟨-, r, rfl, hstart, hp⟩
  · exact ⟨p, h.progress, h.maximum, h.fetched.append _, fun e he => (h.requestedEnd e he).append _⟩
  · refine ⟨_, hp, h.maximum, h.fetched.append _, fun e he => ?_⟩
    cases he
    exact h.fetched.extend hstart

lemma Asked.respond {rooms : ℕ} {state : LoadingState} (h : Asked g maximum requested p)
    (hg : g.handleResponse listName rooms = .ok (state, g')) : ∃ p', Asked g' maximum requested p' := by
  obtain ⟨e, he, ⟨-, -, hp⟩ | ⟨hle, -, hp⟩⟩ := handleResponse_cases h.progress hg
  · exact ⟨_, hp, h.maximum, (h.requestedEnd e he).mono (min_le_left _ _), h.requestedEnd⟩
  · exact ⟨_, hp, h.maximum, (h.requestedEnd e he).mono (hle.trans (Nat.le_succ e)), h.requestedEnd⟩

end Asked

/-! ## Sessions -/

/-- A generator and the ranges that it has requested so far, after any sequence of requests, given
any maximum, and responses, with any number of rooms. -/
inductive Session (debug : Bool) (listName : String) (mode : SlidingSyncMode) :
    RequestGenerator → List Range → Prop
  | new : Session debug listName mode (.new mode) []
  | generate {g g' : RequestGenerator} {requested ranges : List Range} {rooms : Option ℕ}
      (h : Session debug listName mode g requested)
      (hg : g.generateNextRanges debug rooms = .ok (ranges, g')) :
      Session debug listName mode g' (requested ++ ranges)
  | respond {g g' : RequestGenerator} {requested : List Range} {rooms : ℕ} {state : LoadingState}
      (h : Session debug listName mode g requested)
      (hg : g.handleResponse listName rooms = .ok (state, g')) : Session debug listName mode g' requested

/-- Calls during which the number of rooms is at most `rooms`. -/
inductive Quiet (debug : Bool) (listName : String) (rooms : ℕ) : RequestGenerator → RequestGenerator → Prop
  | refl (g : RequestGenerator) : Quiet debug listName rooms g g
  | generate {g g₁ g₂ : RequestGenerator} {ranges : List Range} {maximum : Option ℕ}
      (h : Quiet debug listName rooms g g₁)
      (hg : g₁.generateNextRanges debug maximum = .ok (ranges, g₂)) : Quiet debug listName rooms g g₂
  | respond {g g₁ g₂ : RequestGenerator} {rooms' : ℕ} {state : LoadingState}
      (h : Quiet debug listName rooms g g₁) (hle : rooms' ≤ rooms)
      (hg : g₁.handleResponse listName rooms' = .ok (state, g₂)) : Quiet debug listName rooms g g₂

theorem Session.asked {mode : SlidingSyncMode} {maximum : Option ℕ} {requested : List Range}
    (hmode : ∃ batchSize, mode = .growing batchSize maximum ∨ mode = .paging batchSize maximum)
    (h : Session debug listName mode g requested) : ∃ p, Asked g maximum requested p := by
  induction h with
  | new =>
    obtain ⟨batchSize, rfl | rfl⟩ := hmode
    all_goals exact ⟨_, rfl, rfl, fun i hi => absurd hi (Nat.not_lt_zero i), fun e he => by cases he⟩
  | generate _ hg ih =>
    obtain ⟨p, hp⟩ := ih
    exact hp.generate hg
  | respond _ hg ih =>
    obtain ⟨p, hp⟩ := ih
    exact hp.respond hg

lemma minWith_mono {a b : ℕ} (h : a ≤ b) (c : Option ℕ) : minWith a c ≤ minWith b c := by
  cases c with
  | none => exact h
  | some c => exact min_le_min_right c h

lemma Quiet.settled {rooms e : ℕ} {maximum : Option ℕ} (h : Quiet debug listName rooms g g')
    (hg : ∃ p, g.progress = some p ∧ p.maximumNumberOfRoomsToFetch = maximum ∧ p.fullyLoaded = true ∧
      p.requestedEnd = some e) (hle : minWith rooms maximum - 1 ≤ e) :
    ∃ p, g'.progress = some p ∧ p.maximumNumberOfRoomsToFetch = maximum ∧ p.fullyLoaded = true ∧
      p.requestedEnd = some e := by
  induction h with
  | refl => exact hg
  | generate _ hgen ih =>
    obtain ⟨p, hp, hmaximum, hloaded, hend⟩ := ih
    rcases generateNextRanges_cases hp hgen with ⟨-, rfl⟩ | ⟨hrest, -⟩
    · exact ⟨p, hp, hmaximum, hloaded, hend⟩
    · rw [hloaded] at hrest
      cases hrest
  | respond _ hrooms hresponse ih =>
    obtain ⟨p, hp, hmaximum, hloaded, hend⟩ := ih
    obtain ⟨e', he', ⟨hlt, -, -⟩ | ⟨-, -, hp'⟩⟩ := handleResponse_cases hp hresponse
    · rw [hend] at he'
      cases he'
      have := minWith_mono hrooms maximum
      rw [hmaximum] at hlt
      omega
    · exact ⟨_, hp', hmaximum, rfl, hend⟩

/-- **A fully loaded list has requested everything.** Whenever a response reports that the list is
fully loaded, every room up to the number of rooms, capped by the maximum, was in some requested
range; and as long as the number of rooms does not grow, the list stays fully loaded. -/
theorem fullyLoaded_requested {mode : SlidingSyncMode} {maximum : Option ℕ} {requested : List Range}
    {rooms : ℕ} (hmode : ∃ batchSize, mode = .growing batchSize maximum ∨ mode = .paging batchSize maximum)
    (h : Session debug listName mode g requested)
    (hg : g.handleResponse listName rooms = .ok (.fullyLoaded, g')) :
    Covers requested (minWith rooms maximum) ∧
    ∀ g₁ rooms', Quiet debug listName rooms g' g₁ → rooms' ≤ rooms →
      (∀ maximum', ∃ ranges, g₁.generateNextRanges debug maximum' = .ok (ranges, g₁)) ∧
      ∃ g₂, g₁.handleResponse listName rooms' = .ok (.fullyLoaded, g₂) := by
  obtain ⟨p, hp⟩ := h.asked hmode
  obtain ⟨e, he, ⟨-, hstate, -⟩ | ⟨hle, -, hp'⟩⟩ := handleResponse_cases hp.progress hg
  · cases hstate
  rw [hp.maximum] at hle
  refine ⟨(hp.requestedEnd e he).mono (by omega), fun g₁ rooms' hquiet hrooms => ?_⟩
  obtain ⟨p₁, hp₁, hmaximum, hloaded, hend⟩ := hquiet.settled ⟨_, hp', hp.maximum, rfl, he⟩ hle
  have := minWith_mono hrooms maximum
  exact ⟨generateNextRanges_fullyLoaded hp₁ hloaded, handleResponse_fullyLoaded hp₁ hend (by rw [hmaximum]; omega)⟩

theorem fullyLoaded_requested_two_pages :
    ∃ g₁ g₂ g₃ g₄,
      (new (.paging 10 none)).generateNextRanges true none = .ok ([⟨0, 9⟩], g₁) ∧
      g₁.handleResponse "all" 15 = .ok (.partiallyLoaded, g₂) ∧
      g₂.generateNextRanges true (some 15) = .ok ([⟨10, 14⟩], g₃) ∧
      g₃.handleResponse "all" 12 = .ok (.fullyLoaded, g₄) ∧ Covers [⟨0, 9⟩, ⟨10, 14⟩] 12 := by
  have key : ∀ {g₁ g₂ g₃ g₄ state},
      (new (.paging 10 none)).generateNextRanges true none = .ok ([⟨0, 9⟩], g₁) →
      g₁.handleResponse "all" 15 = .ok (state, g₂) →
      g₂.generateNextRanges true (some 15) = .ok ([⟨10, 14⟩], g₃) →
      g₃.handleResponse "all" 12 = .ok (.fullyLoaded, g₄) → Covers [⟨0, 9⟩, ⟨10, 14⟩] 12 :=
    fun h₁ h₂ h₃ h₄ =>
      (fullyLoaded_requested ⟨10, .inr rfl⟩ (.generate (.respond (.generate .new h₁) h₂) h₃) h₄).1
  exact ⟨_, _, _, _, rfl, rfl, rfl, rfl, key rfl rfl rfl rfl⟩

end RequestGenerator

end HaranaMatrix.SlidingSync
