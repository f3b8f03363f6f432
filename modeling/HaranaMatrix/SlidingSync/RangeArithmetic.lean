import HaranaMatrix.SlidingSync.RequestGenerator

/-!
# The arithmetic of the ranges

A list asks for ranges with the number of rooms that the server reported last. The bounds are `u32`
numbers; the end of a range is computed before it is capped. The growing mode saturates, the paging
mode does not: it overflows as soon as a batch after the fetched rooms would end behind the largest
`u32`. -/

namespace HaranaMatrix.SlidingSync

open RequestGenerator

/-- The generator of a list, and the number of rooms that the server reported last. -/
structure SlidingSyncList where
  requestGenerator : RequestGenerator
  maximumNumberOfRooms : Option ℕ

namespace SlidingSyncList

def nextRequest (debug : Bool) (list : SlidingSyncList) : Except Error (List Range × SlidingSyncList) := do
  let (ranges, generator) ← list.requestGenerator.generateNextRanges debug list.maximumNumberOfRooms
  return (ranges, { list with requestGenerator := generator })

/-- A response, with the number of rooms if it has one. -/
def update (name : String) (list : SlidingSyncList) : Option ℕ → Except Error SlidingSyncList
  | none => .ok list
  | some rooms => do
    let (_, generator) ← list.requestGenerator.handleResponse name rooms
    return ⟨generator, some rooms⟩

/-- A list in this mode after any requests and responses. The first number of rooms may come from a
cache. Calls that fail leave the list as it was. -/
inductive Reached (debug : Bool) (name : String) (mode : SlidingSyncMode) : SlidingSyncList → Prop
  | new {rooms : Option ℕ} : Reached debug name mode ⟨.new mode, rooms⟩
  | nextRequest {list list' : SlidingSyncList} {ranges : List Range} (h : Reached debug name mode list)
      (hlist : list.nextRequest debug = .ok (ranges, list')) : Reached debug name mode list'
  | update {list list' : SlidingSyncList} {rooms : Option ℕ} (h : Reached debug name mode list)
      (hrooms : ∀ n ∈ rooms, n ≤ u32Max) (hlist : list.update name rooms =
        .ok list') : Reached debug name mode list'

end SlidingSyncList

/-! ## Ranges -/

section Range

variable {debug : Bool} {start size : ℕ} {toFetch rooms : Option ℕ}

lemma minWith_le_left (a : ℕ) (b : Option ℕ) : minWith a b ≤ a := by
  cases b with
  | none => exact le_rfl
  | some b => exact min_le_left a b

lemma createRange_ok (hadd : start + size ≤ u32Max)
    (hstart : start = 0 ∨ start < minWith (minWith (start + size) toFetch) rooms) :
    createRange debug start size toFetch rooms =
      .ok ⟨start, minWith (minWith (start + size) toFetch) rooms - 1⟩ := by
  have hle : ¬ minWith (minWith (start + size) toFetch) rooms - 1 < start := by omega
  simp only [createRange, addU32, if_pos hadd]
  show (if _ < _ then _ else _) = _
  rw [if_neg hle]
  rfl

/-- **An overflow is an error in every build**: a panic, or a range that ends before it starts. -/
lemma createRange_overflow (hstart : start ≤ u32Max) (hsize : size ≤ u32Max) (hover : u32Max < start + size) :
    ∃ e, createRange debug start size toFetch rooms = .error e := by
  have hadd : ¬ start + size ≤ u32Max := by omega
  cases debug with
  | true => exact ⟨.panic "attempt to add with overflow", by simp [createRange, addU32, hadd]⟩
  | false =>
    have hwrap : (start + size) % 2 ^ 32 < start := by
      unfold u32Max at *
      omega
    have hle := (minWith_le_left (minWith ((start + size) % 2 ^ 32) toFetch) rooms).trans (minWith_le_left _ toFetch)
    have hlt : minWith (minWith ((start + size) % 2 ^ 32) toFetch) rooms - 1 < start := by omega
    refine ⟨.invalidRange start (minWith (minWith ((start + size) % 2 ^ 32) toFetch) rooms - 1), ?_⟩
    simp only [createRange, addU32, if_neg hadd]
    show (if _ < _ then _ else _) = _
    rw [if_pos hlt]
    rfl

end Range

/-! ## What a list knows -/

namespace SlidingSyncList

variable {debug : Bool} {name : String} {mode : SlidingSyncMode} {list list' : SlidingSyncList}
  {batchSize : ℕ}
  {maximum : Option ℕ} {p : Progress} {ranges : List Range}

/-- The fetched rooms are rooms that the server reported, and a fully loaded list has the range of
all of them. -/
structure Counted (batchSize : ℕ) (maximum : Option ℕ) (p : Progress) (list : SlidingSyncList) : Prop where
  progress : list.requestGenerator.progress = some p
  batch : p.batchSize = batchSize
  toFetch : p.maximumNumberOfRoomsToFetch = maximum
  le : p.numberOfFetchedRooms ≤ u32Max
  partially : p.fullyLoaded = false → p.numberOfFetchedRooms = 0 ∨
    ∃ rooms ∈ list.maximumNumberOfRooms, p.numberOfFetchedRooms < minWith rooms maximum
  fully : p.fullyLoaded = true →
    ∃ rooms ∈ list.maximumNumberOfRooms, list.requestGenerator.ranges = [⟨0, minWith rooms maximum - 1⟩]

lemma Counted.nextRequest (h : Counted batchSize maximum p list)
    (hlist : list.nextRequest debug = .ok (ranges, list')) :
    ∃ p', Counted batchSize maximum p' list' := by
  obtain ⟨⟨ranges', g'⟩, hg, hlist⟩ := bind_eq_ok hlist
  cases hlist
  rcases generateNextRanges_cases h.progress hg with ⟨-, rfl⟩ | ⟨hpartially, r, -, -, hp⟩
  · exact ⟨p, h⟩
  · exact ⟨_, hp, h.batch, h.toFetch, h.le, h.partially, fun hfully => absurd (hpartially ▸ hfully) (by simp)⟩

lemma handleResponse_ranges {rooms : ℕ} {state : LoadingState} {g g' : RequestGenerator} {p' : Progress}
    (hg : g.handleResponse name rooms = .ok (state, g')) (hp : g'.progress = some p')
    (hfully : p'.fullyLoaded = true) :
    g'.ranges = [⟨0, minWith rooms p'.maximumNumberOfRoomsToFetch - 1⟩] := by
  obtain ⟨ranges, kind⟩ := g
  cases kind with
  | selective =>
    cases hg
    cases hp
  | paging q | growing q =>
    obtain ⟨⟨state₁, ranges₁, p₁⟩, hresponse, hg⟩ := bind_eq_ok hg
    cases hg
    cases hp
    unfold Progress.handleResponse at hresponse
    split at hresponse
    · cases hresponse
    simp only at hresponse
    split at hresponse
    · cases hresponse
      cases hfully
    · cases hresponse
      rfl

lemma Counted.update {rooms : Option ℕ} (h : Counted batchSize maximum p list)
    (hrooms : ∀ n ∈ rooms, n ≤ u32Max)
    (hlist : list.update name rooms = .ok list') : ∃ p', Counted batchSize maximum p' list' := by
  cases rooms with
  | none =>
    cases hlist
    exact ⟨p, h⟩
  | some rooms =>
    obtain ⟨⟨state, g'⟩, hg, hlist⟩ := bind_eq_ok hlist
    cases hlist
    have hle := (minWith_le_left rooms maximum).trans (hrooms rooms rfl)
    obtain ⟨e, -, ⟨hlt, -, hp⟩ | ⟨-, -, hp⟩⟩ := handleResponse_cases h.progress hg
    · rw [h.toFetch] at hlt
      refine ⟨_, hp, h.batch, h.toFetch, min_le_right _ _, fun _ => .inr ⟨rooms, rfl, ?_⟩, fun hfully => by cases hfully⟩
      have : saturatingAdd e 1 ≤ e + 1 := min_le_left _ _
      show saturatingAdd e 1 < _
      omega
    · refine ⟨_, hp, h.batch, h.toFetch, ?_, (fun hpartially => by cases hpartially),
        fun _ => ⟨rooms, rfl, ?_⟩⟩
      · rw [h.toFetch]
        show _ - 1 ≤ _
        omega
      · have := handleResponse_ranges hg hp rfl
        rwa [show ({ p with numberOfFetchedRooms := _, fullyLoaded := true } : Progress).maximumNumberOfRoomsToFetch = maximum
          from h.toFetch] at this

/-- **What holds of every list that is reached.** -/
theorem Reached.counted (hmode : mode = .paging batchSize maximum ∨ mode = .growing batchSize maximum)
    (h : Reached debug name mode list) : ∃ p, Counted batchSize maximum p list := by
  induction h with
  | new =>
    rcases hmode with rfl | rfl
    all_goals exact ⟨_, rfl, rfl, rfl, Nat.zero_le _, fun _ => .inl rfl, fun hfully => by cases hfully⟩
  | nextRequest _ hlist ih =>
    obtain ⟨p, hp⟩ := ih
    exact hp.nextRequest hlist
  | update _ hrooms hlist ih =>
    obtain ⟨p, hp⟩ := ih
    exact hp.update hrooms hlist

/-! ## Totality -/

/-- In paging mode, a batch after the fetched rooms would end behind the largest `u32`. -/
def Overflows (list : SlidingSyncList) : Prop :=
  match list.requestGenerator.kind with
  | .paging p => p.fullyLoaded = false ∧ u32Max < p.numberOfFetchedRooms + p.batchSize
  | _ => False

instance (list : SlidingSyncList) : Decidable list.Overflows := by
  unfold Overflows
  split <;> infer_instance

/-- The ranges are not empty, and they end before the number of rooms that is known, if there are
rooms. -/
def InRange (rooms : Option ℕ) (ranges : List Range) : Prop :=
  ∀ r ∈ ranges, r.start ≤ r.stop ∧ ∀ n ∈ rooms, 1 ≤ n → r.stop < n

variable {rooms : Option ℕ}

lemma minWith_lt {a n : ℕ} (hn : n ∈ rooms) (h : 1 ≤ n) : minWith a rooms - 1 < n := by
  cases hn
  show min a n - 1 < n
  omega

section

variable (h : Counted batchSize maximum p list)
include h

lemma Counted.createRange (hpartially : p.fullyLoaded = false) {start size : ℕ}
    (hstart : start = 0 ∨ start = p.numberOfFetchedRooms) (hadd : start + size ≤ u32Max) (hsize : 1 ≤ size) :
    ∃ r, createRange debug start size maximum list.maximumNumberOfRooms = .ok r ∧
      InRange list.maximumNumberOfRooms [r] := by
  have hlt : start = 0 ∨ start < minWith (minWith (start + size) maximum) list.maximumNumberOfRooms := by
    rcases hstart with hzero | rfl
    · exact .inl hzero
    refine (h.partially hpartially).imp id ?_
    rintro ⟨rooms, hrooms, hlt⟩
    rw [hrooms]
    cases maximum with
    | none =>
      show _ < min (_ + size) rooms
      exact lt_min (by omega) hlt
    | some maximum =>
      exact lt_min (lt_min (by omega) (hlt.trans_le (min_le_right _ _))) (hlt.trans_le (min_le_left _ _))
  refine ⟨_, createRange_ok hadd hlt, fun r hr => ?_⟩
  rw [List.mem_singleton] at hr
  subst hr
  refine ⟨?_, fun n hn h1 => minWith_lt hn h1⟩
  show start ≤ _ - 1
  omega

lemma Counted.inRange_ranges (hfully : p.fullyLoaded = true) :
    InRange list.maximumNumberOfRooms list.requestGenerator.ranges := by
  obtain ⟨rooms, hrooms, hranges⟩ := h.fully hfully
  rw [hranges, hrooms]
  intro r hr
  rw [List.mem_singleton] at hr
  subst hr
  refine ⟨Nat.zero_le _, ?_⟩
  rintro n ⟨⟩ h1
  have := minWith_le_left rooms maximum
  show _ - 1 < rooms
  omega

/-- **A request has good ranges, unless it overflows.** -/
lemma Counted.nextRequest_iff (hbatch : 1 ≤ batchSize ∧ batchSize ≤ u32Max) :
    (∃ ranges list', list.nextRequest debug = .ok (ranges, list') ∧
      InRange list.maximumNumberOfRooms ranges) ↔ ¬ list.Overflows := by
  obtain ⟨⟨ranges, kind⟩, rooms⟩ := list
  have hle := h.le
  have hfully := h.inRange_ranges
  have hnew := @Counted.createRange debug _ _ _ _ h
  obtain ⟨hp, hb, hmaximum, -, -, -⟩ := h
  cases kind with
  | selective => cases hp
  | growing q =>
    cases hp
    refine ⟨fun _ => id, fun _ => ?_⟩
    cases hloaded : p.fullyLoaded with
    | true => exact ⟨ranges, _, by simp [SlidingSyncList.nextRequest, generateNextRanges, hloaded]; rfl, hfully hloaded⟩
    | false =>
      have hadd : 0 + saturatingAdd p.numberOfFetchedRooms p.batchSize ≤ u32Max := by
        rw [Nat.zero_add]
        exact min_le_right _ _
      have hsize : 1 ≤ saturatingAdd p.numberOfFetchedRooms p.batchSize :=
        le_min (by omega) (by decide)
      obtain ⟨r, hr, hin⟩ := hnew hloaded (.inl rfl) hadd hsize
      refine ⟨[r], ⟨⟨ranges, .growing { p with requestedEnd := some r.stop }⟩, rooms⟩, ?_, hin⟩
      simp only [SlidingSyncList.nextRequest, generateNextRanges, hloaded, hmaximum, hr]
      rfl
  | paging q =>
    cases hp
    cases hloaded : p.fullyLoaded with
    | true =>
      refine ⟨fun _ hover => by simp [Overflows, hloaded] at hover, fun _ => ?_⟩
      exact ⟨ranges, _, by simp [SlidingSyncList.nextRequest, generateNextRanges, hloaded]; rfl, hfully hloaded⟩
    | false =>
      constructor
      · rintro ⟨ranges', list', hrequest, -⟩ ⟨-, hover⟩
        obtain ⟨e, he⟩ := @createRange_overflow debug _ _ p.maximumNumberOfRoomsToFetch rooms hle (hb ▸ hbatch.2) hover
        simp only [SlidingSyncList.nextRequest, generateNextRanges, hloaded, he] at hrequest
        cases hrequest
      · intro hover
        have hadd : p.numberOfFetchedRooms + p.batchSize ≤ u32Max := by
          by_contra hlt
          exact hover ⟨hloaded, by omega⟩
        obtain ⟨r, hr, hin⟩ := hnew hloaded (.inr rfl) hadd (hb ▸ hbatch.1)
        refine ⟨[r], ⟨⟨ranges, .paging { p with requestedEnd := some r.stop }⟩, rooms⟩, ?_, hin⟩
        simp only [SlidingSyncList.nextRequest, generateNextRanges, hloaded, hmaximum, hr]
        rfl

end

lemma update_cases (name : String) (list : SlidingSyncList) (rooms : Option ℕ) :
    (∃ list', list.update name rooms = .ok list') ∨
      list.update name rooms = .error (.requestGeneratorHasNotBeenInitialized name) := by
  obtain ⟨⟨ranges, kind⟩, known⟩ := list
  cases rooms with
  | none => exact .inl ⟨_, rfl⟩
  | some rooms =>
    cases kind with
    | selective => exact .inl ⟨_, rfl⟩
    | paging p | growing p =>
      simp only [update, handleResponse, Progress.handleResponse]
      cases p.requestedEnd with
      | none => exact .inr rfl
      | some e =>
        refine .inl ?_
        dsimp only
        split <;> exact ⟨_, rfl⟩

/-- **The arithmetic of the ranges is total** in growing mode, and in paging mode unless a batch
after the fetched rooms would end behind the largest `u32`. -/
theorem nextRequest_inRange_iff (hbatch : 1 ≤ batchSize ∧ batchSize ≤ u32Max)
    (hmode : mode = .paging batchSize maximum ∨ mode = .growing batchSize maximum)
    (h : Reached debug name mode list) :
    ((∃ ranges list', list.nextRequest debug = .ok (ranges, list') ∧
      InRange list.maximumNumberOfRooms ranges) ↔ ¬ list.Overflows) ∧
    ∀ rooms, (∃ list', list.update name rooms = .ok list') ∨
      list.update name rooms = .error (.requestGeneratorHasNotBeenInitialized name) := by
  obtain ⟨p, hp⟩ := h.counted hmode
  exact ⟨hp.nextRequest_iff hbatch, update_cases name list⟩

lemma reached_second_page : Reached true "all" (.paging (2 ^ 31) none)
    ⟨⟨[⟨0, 2 ^ 31 - 1⟩], .paging ⟨2 ^ 31, none, 2 ^ 31, false, some (2 ^ 31 - 1)⟩⟩, some u32Max⟩ := by
  have hfirst : Reached true "all" (.paging (2 ^ 31) none)
      ⟨⟨[], .paging ⟨2 ^ 31, none, 0, false, some (2 ^ 31 - 1)⟩⟩, none⟩ :=
    .nextRequest .new (show nextRequest true ⟨.new (.paging (2 ^ 31) none), none⟩ =
      .ok ([⟨0, 2 ^ 31 - 1⟩], _) from rfl)
  have hrooms : ∀ n ∈ some u32Max, n ≤ u32Max := fun n hn => (Option.some.inj hn).ge
  exact .update hfirst hrooms rfl

/-- The second page of `2 ^ 31` rooms ends behind the largest `u32`. -/
theorem nextRequest_second_page_overflows : ∃ list, Reached true "all" (.paging (2 ^ 31) none) list ∧
    list.maximumNumberOfRooms = some u32Max ∧
    list.nextRequest true = .error (.panic "attempt to add with overflow") ∧
    list.nextRequest false = .error (.invalidRange (2 ^ 31) 0) :=
  ⟨_, reached_second_page, rfl, rfl, rfl⟩

theorem nextRequest_inRange_first_page : ∃ ranges list',
    nextRequest true ⟨.new (.paging 10 (some 7)), some 5⟩ = .ok (ranges, list') ∧
      InRange (some 5) ranges := by
  have h : Reached true "all" (.paging 10 (some 7)) ⟨.new (.paging 10 (some 7)), some 5⟩ := .new
  exact (nextRequest_inRange_iff (by decide) (.inl rfl) h).1.2 (by decide)

end SlidingSyncList

end HaranaMatrix.SlidingSync
