import HaranaMatrix.Timeline.DividerPlan

/-!
# Date dividers separate days

After the adjuster has run, the events and dividers of a timeline fall into groups, each a divider
with the events of its day, or of its month. In the monthly mode this can fail: a divider before an
event is compared with it by day, so that a divider of another month between two events of one month
is moved to this month and not removed. -/

namespace HaranaMatrix.Timeline

open List

variable {C A : Type}

/-- What matters for separation. -/
inductive Mark
  | divider (ts : Timestamp)
  | event (ts : Timestamp)
deriving DecidableEq

def TimelineItem.mark (item : TimelineItem C) : Option Mark :=
  match item.kind with
  | .event event => some (.event event.timestamp)
  | .dateDivider ts => some (.divider ts)
  | _ => none

@[simp] lemma TimelineItem.mark_mk (kind : ItemKind C) (id : TimelineUniqueId) :
    mark ⟨kind, id⟩ = match kind with
      | .event event => some (.event event.timestamp)
      | .dateDivider ts => some (.divider ts)
      | _ => none := rfl

/-- A divider and the events after it. -/
structure DividerGroup where
  divider : Timestamp
  events : List Timestamp

def DividerGroup.marks (g : DividerGroup) : List Mark := .divider g.divider :: g.events.map .event

/-- Each group has an event, its events are of the date group of its divider, and the dividers of
two consecutive groups are of different date groups. -/
structure DividerGroup.Apart (same : Timestamp → Timestamp → Bool) (groups : List DividerGroup) : Prop where
  nonempty : ∀ g ∈ groups, g.events ≠ []
  governs : ∀ g ∈ groups, ∀ ts ∈ g.events, same g.divider ts
  differ : groups.IsChain fun g g' => ¬ same g.divider g'.divider

/-- **Date dividers separate the groups**: the events and dividers are a sequence of groups that are
apart. -/
def Separated (same : Timestamp → Timestamp → Bool) (marks : List Mark) : Prop :=
  ∃ groups : List DividerGroup, marks = groups.flatMap (·.marks) ∧ DividerGroup.Apart same groups

/-- Separation, read from left to right: the current divider, and whether it has an event. -/
def SeparatedFrom (same : Timestamp → Timestamp → Bool) : Option (Timestamp × Bool) → List Mark → Prop
  | none, [] => True
  | some (_, hasEvent), [] => hasEvent
  | none, .event _ :: _ => False
  | some (d, _), .event ts :: marks => same d ts ∧ SeparatedFrom same (some (d, true)) marks
  | none, .divider d :: marks => SeparatedFrom same (some (d, false)) marks
  | some (d, hasEvent), .divider d' :: marks =>
    hasEvent ∧ ¬ same d d' ∧ SeparatedFrom same (some (d', false)) marks

variable {marks : List Mark}

section Reading

variable {same : Timestamp → Timestamp → Bool}

lemma apart_nil : DividerGroup.Apart same [] := ⟨by simp, by simp, .nil⟩

lemma apart_cons {g : DividerGroup} {groups : List DividerGroup} :
    DividerGroup.Apart same (g :: groups) ↔ g.events ≠ [] ∧ (∀ ts ∈ g.events, same g.divider ts) ∧
      (∀ g' ∈ groups.head?, ¬ same g.divider g'.divider) ∧ DividerGroup.Apart same groups := by
  constructor
  · rintro ⟨hne, hgov, hdiff⟩
    rw [isChain_cons] at hdiff
    exact ⟨hne g (by simp), hgov g (by simp), hdiff.1,
      ⟨fun g' hg' => hne g' (by simp [hg']), fun g' hg' => hgov g' (by simp [hg']), hdiff.2⟩⟩
  · rintro ⟨hne, hgov, hhead, hrest⟩
    refine ⟨?_, ?_, isChain_cons.2 ⟨hhead, hrest.differ⟩⟩
    · exact forall_mem_cons.2 ⟨hne, hrest.nonempty⟩
    · exact forall_mem_cons.2 ⟨hgov, hrest.governs⟩

lemma separatedFrom_some {d : Timestamp} {hasEvent : Bool} :
    SeparatedFrom same (some (d, hasEvent)) marks ↔
      ∃ (events : List Timestamp) (groups : List DividerGroup),
        marks = events.map Mark.event ++ groups.flatMap (·.marks) ∧ (hasEvent ∨ events ≠ []) ∧
        (∀ ts ∈ events, same d ts) ∧ (∀ g ∈ groups.head?, ¬ same d g.divider) ∧
          DividerGroup.Apart same groups := by
  induction marks generalizing d hasEvent with
  | nil =>
    constructor
    · intro h
      exact ⟨[], [], rfl, .inl h, by simp, by simp, apart_nil⟩
    · rintro ⟨events, groups, hmarks, hevent, -⟩
      have hnil : events = [] := by
        have := (append_eq_nil_iff.1 hmarks.symm).1
        simpa using this
      exact hevent.resolve_right (not_not.2 hnil)
  | cons m marks ih =>
    cases m with
    | event ts =>
      rw [SeparatedFrom, ih]
      constructor
      · rintro ⟨hsame, events, groups, rfl, -, hgov, hhead, hgroups⟩
        exact ⟨ts :: events, groups, rfl, .inr (cons_ne_nil _ _), forall_mem_cons.2 ⟨hsame, hgov⟩,
          hhead, hgroups⟩
      · rintro ⟨events, groups, hmarks, -, hgov, hhead, hgroups⟩
        rcases events with _ | ⟨ts', events⟩
        · rcases groups with _ | ⟨g, groups⟩ <;> cases hmarks
        · obtain ⟨hts, htail⟩ := List.cons.inj hmarks
          cases hts
          exact ⟨hgov ts (by simp), events, groups, htail, .inl rfl, fun t ht => hgov t (by simp [ht]), hhead, hgroups⟩
    | divider d' =>
      rw [SeparatedFrom, ih]
      constructor
      · rintro ⟨hevent, hdiff, events, groups, rfl, hne, hgov, hhead, hgroups⟩
        refine ⟨[], ⟨d', events⟩ :: groups, rfl, .inl hevent, by simp, by simpa using hdiff, ?_⟩
        exact apart_cons.2 ⟨hne.resolve_left (by simp), hgov, hhead, hgroups⟩
      · rintro ⟨events, groups, hmarks, hevent, hgov, hhead, hgroups⟩
        rcases events with _ | ⟨ts', events⟩
        · rcases groups with _ | ⟨g, groups⟩
          · cases hmarks
          · obtain ⟨hd, htail⟩ := List.cons.inj hmarks
            cases hd
            obtain ⟨hne, hgov', hhead', hgroups'⟩ := apart_cons.1 hgroups
            exact ⟨hevent.resolve_right (by simp), hhead g rfl, g.events, groups, htail, .inr hne, hgov', hhead', hgroups'⟩
        · cases hmarks

lemma separated_iff : Separated same marks ↔ SeparatedFrom same none marks := by
  cases marks with
  | nil => exact ⟨fun _ => trivial, fun _ => ⟨[], rfl, apart_nil⟩⟩
  | cons m marks =>
    cases m with
    | event ts =>
      refine ⟨?_, False.elim⟩
      rintro ⟨groups, hmarks, -⟩
      rcases groups with _ | ⟨g, groups⟩ <;> cases hmarks
    | divider d =>
      rw [SeparatedFrom, separatedFrom_some]
      constructor
      · rintro ⟨groups, hmarks, hgroups⟩
        rcases groups with _ | ⟨g, groups⟩
        · cases hmarks
        · obtain ⟨hd, htail⟩ := List.cons.inj hmarks
          cases hd
          obtain ⟨hne, hgov, hhead, hrest⟩ := apart_cons.1 hgroups
          exact ⟨g.events, groups, htail, .inr hne, hgov, hhead, hrest⟩
      · rintro ⟨events, groups, rfl, hne, hgov, hhead, hgroups⟩
        exact ⟨⟨d, events⟩ :: groups, rfl, apart_cons.2 ⟨hne.resolve_left (by simp), hgov, hhead, hgroups⟩⟩

end Reading

namespace DateDividerAdjuster

section Groups

variable {timestampToDate : Timestamp → Date} {mode : DateDividerMode}

/-! ## The date groups -/

lemma same_refl (a : Timestamp) : isSameDateDividerGroupAs timestampToDate mode a a := by
  cases mode <;> simp [isSameDateDividerGroupAs, Date.isSameMonthAs]

lemma same_symm {a b : Timestamp} (h : isSameDateDividerGroupAs timestampToDate mode a b) :
    isSameDateDividerGroupAs timestampToDate mode b a := by
  cases mode <;> simp_all [isSameDateDividerGroupAs, Date.isSameMonthAs]

lemma same_trans {a b c : Timestamp} (h : isSameDateDividerGroupAs timestampToDate mode a b)
    (h' : isSameDateDividerGroupAs timestampToDate mode b c) :
      isSameDateDividerGroupAs timestampToDate mode a c := by
  cases mode <;> simp_all [isSameDateDividerGroupAs, Date.isSameMonthAs]

lemma same_of_date {a b : Timestamp} (h : timestampToDate a = timestampToDate b) :
    isSameDateDividerGroupAs timestampToDate mode a b := by
  cases mode <;> simp [isSameDateDividerGroupAs, Date.isSameMonthAs, h]

/-! ## One item -/

/-- The marks that are left of an item. -/
def emitted (op : Option DateDividerOperation) (x : TimelineItem C) : List Mark :=
  match op with
  | none => x.mark.toList
  | some (.insert _ ts) => .divider ts :: x.mark.toList
  | some (.replace _ ts) => [.divider ts]
  | some (.remove _) => []

variable {items : List (TimelineItem C)} {items out : List (TimelineItem C)} {x : TimelineItem C}
  {prev : Prev}
   {next : Option Timestamp} {i : ℕ}

lemma Rebuilt.marks_cons {op : Option DateDividerOperation} {p : List (Option DateDividerOperation)}
    (h : Rebuilt (op :: p) (x :: items) out) :
    ∃ rest, Rebuilt p items rest ∧
      out.filterMap (·.mark) = emitted op x ++ rest.filterMap (·.mark) := by
  cases h with
  | @keep _ _ out x h | @insert _ _ out x i ts id _ h =>
    refine ⟨out, h, ?_⟩
    cases hx : x.mark <;> simp [emitted, hx]
  | @replace _ _ out x i ts id _ h => exact ⟨out, h, by simp [emitted]⟩
  | remove i _ h => exact ⟨out, h, rfl⟩

/-- How the dividers that were left so far stand to the next event: after an event, and after a
divider too if there is a next event, the current divider is of its group. -/
def Stands (timestampToDate : Timestamp → Date) (mode : DateDividerMode) (next : Option Timestamp) :
    Prev → Option (Timestamp × Bool) → Prop
  | .nothing, cur => cur = none
  | .event ts, cur => ∃ d, cur = some (d, true) ∧ isSameDateDividerGroupAs timestampToDate mode d ts
  | .divider _, cur =>
    match next with
    | none => cur = none ∨ ∃ d, cur = some (d, true)
    | some ts => ∃ d hasEvent, cur = some (d, hasEvent) ∧ isSameDateDividerGroupAs timestampToDate mode d ts

/-- A divider of another group before an event of the group of the last event: both are of one
day. -/
def CleanItem (timestampToDate : Timestamp → Date) (mode : DateDividerMode) (prev : Prev) (x : TimelineItem C)
    (next : Option Timestamp) : Prop :=
  ∀ d last event, x.mark = some (.divider d) → prev = .event last → next = some event →
    ¬ isSameDateDividerGroupAs timestampToDate mode last d →
    isSameDateDividerGroupAs timestampToDate mode last event → timestampToDate last = timestampToDate event

lemma cleanItem_of_prev (h : ∀ last, prev ≠ .event last) :
    CleanItem timestampToDate mode prev x next := fun _ last _ _ hprev => absurd hprev (h last)

lemma cleanItem_of_kind {kind : ItemKind C} {id : TimelineUniqueId} (h : ∀ d, kind ≠ .dateDivider d) :
    CleanItem timestampToDate mode prev ⟨kind, id⟩ next := by
  cases kind with
  | dateDivider d => exact (h d rfl).elim
  | event | readMarker | timelineStart => exact fun _ _ _ hmark => by cases hmark

lemma cleanItem_divider {last ts : Timestamp} {id : TimelineUniqueId} :
    CleanItem timestampToDate mode (.event last) (⟨.dateDivider ts, id⟩ : TimelineItem C) next ↔
      (¬ isSameDateDividerGroupAs timestampToDate mode last ts → ∀ event, next = some event →
        isSameDateDividerGroupAs timestampToDate mode last event →
          timestampToDate last = timestampToDate event) := by
  constructor
  · exact fun hc hnot event hnext => hc ts last event rfl rfl hnext hnot
  · intro hc d last' event hmark hprev hnext hnot
    cases hmark
    cases hprev
    exact hc hnot event hnext

/-- **One item of the plan**: separation goes on, unless a divider is moved into the group before
it. -/
theorem separatedFrom_step {cur : Option (Timestamp × Bool)} (i : ℕ) (x : TimelineItem C)
    (items : List (TimelineItem C)) (h : Stands timestampToDate mode (nextEvent (x :: items)) prev cur) :
    ∃ cur', Stands timestampToDate mode (nextEvent items) (advance timestampToDate mode prev x) cur' ∧
      ∀ marks, SeparatedFrom (isSameDateDividerGroupAs timestampToDate mode) cur
          (emitted (planItem timestampToDate mode true prev i x (nextEvent items)) x ++ marks) ↔
        CleanItem timestampToDate mode prev x (nextEvent items) ∧
          SeparatedFrom (isSameDateDividerGroupAs timestampToDate mode) cur' marks := by
  obtain ⟨kind, id⟩ := x
  cases kind with
  | event event =>
    cases prev with
    | nothing =>
      obtain rfl : cur = none := h
      refine ⟨some (event.timestamp, true), ⟨_, rfl, same_refl _⟩, fun marks => ?_⟩
      simp [planItem, emitted, SeparatedFrom, same_refl, cleanItem_of_kind]
    | event ts =>
      obtain ⟨d, rfl, hd⟩ := h
      by_cases hsame : isSameDateDividerGroupAs timestampToDate mode ts event.timestamp
      · refine ⟨some (d, true), ⟨d, rfl, same_trans hd hsame⟩, fun marks => ?_⟩
        simp [planItem, emitted, SeparatedFrom, hsame, same_trans hd hsame, cleanItem_of_kind]
      · have hnot : ¬ isSameDateDividerGroupAs timestampToDate mode d event.timestamp := fun hde =>
          hsame (same_trans (same_symm hd) hde)
        refine ⟨some (event.timestamp, true), ⟨_, rfl, same_refl _⟩, fun marks => ?_⟩
        simp [planItem, emitted, SeparatedFrom, hsame, hnot, same_refl, cleanItem_of_kind]
    | divider last =>
      obtain ⟨d, hasEvent, rfl, hd⟩ := h
      refine ⟨some (d, true), ⟨d, rfl, hd⟩, fun marks => ?_⟩
      simp [planItem, emitted, SeparatedFrom, hd, cleanItem_of_kind]
  | dateDivider ts =>
    cases prev with
    | nothing =>
      obtain rfl : cur = none := h
      cases hnext : nextEvent items with
      | none => exact ⟨none, .inl rfl, fun marks => by simp [planItem, fate, emitted, cleanItem_of_prev]⟩
      | some event =>
        by_cases hdate : timestampToDate ts = timestampToDate event
        · refine ⟨some (ts, false), ⟨ts, false, rfl, same_of_date hdate⟩, fun marks => ?_⟩
          simp [planItem, fate, emitted, SeparatedFrom, hdate, cleanItem_of_prev]
        · refine ⟨some (event, false), ⟨event, false, rfl, same_refl _⟩, fun marks => ?_⟩
          simp [planItem, fate, emitted, SeparatedFrom, hdate, cleanItem_of_prev]
    | event last =>
      obtain ⟨g, rfl, hg⟩ := h
      by_cases hsame : isSameDateDividerGroupAs timestampToDate mode last ts
      · refine ⟨some (g, true), ?_, fun marks => by simp [planItem, emitted, hsame, cleanItem_divider]⟩
        simp only [advance, if_pos hsame]
        exact ⟨g, rfl, hg⟩
      · have hgts : ¬ isSameDateDividerGroupAs timestampToDate mode g ts := fun hgts =>
          hsame (same_trans (same_symm hg) hgts)
        simp only [advance, if_neg hsame, planItem]
        cases hnext : nextEvent items with
        | none => exact ⟨some (g, true), .inr ⟨g, rfl⟩, fun marks => by simp [fate, emitted, cleanItem_divider]⟩
        | some event =>
          by_cases hdate : timestampToDate ts = timestampToDate event
          · -- the divider is right: it is kept, and the last event is of another group
            have hother : ¬ isSameDateDividerGroupAs timestampToDate mode last event := fun hle =>
              hsame (same_trans hle (same_symm (same_of_date hdate)))
            refine ⟨some (ts, false), ⟨ts, false, rfl, same_of_date hdate⟩, fun marks => ?_⟩
            simp [cleanItem_divider, hsame, fate, emitted, SeparatedFrom, hdate, hgts, hother]
          · by_cases hlast : timestampToDate last = timestampToDate event
            · refine ⟨some (g, true), ⟨g, true, rfl, same_trans hg (same_of_date hlast)⟩, fun marks => ?_⟩
              simp [cleanItem_divider, hsame, fate, emitted, hdate, hlast]
            · -- the divider is moved to the day of the event, which may be of the group of the last one
              have hiff : isSameDateDividerGroupAs timestampToDate mode g event ↔
                  isSameDateDividerGroupAs timestampToDate mode last event :=
                ⟨same_trans (same_symm hg), same_trans hg⟩
              refine ⟨some (event, false), ⟨event, false, rfl, same_refl _⟩, fun marks => ?_⟩
              simp [cleanItem_divider, hsame, fate, emitted, SeparatedFrom, hdate, hlast, hiff]
    | divider last => exact ⟨cur, h, fun marks => by simp [planItem, emitted, cleanItem_of_prev]⟩
  | readMarker | timelineStart =>
    refine ⟨cur, ?_, fun marks => ?_⟩
    · cases prev <;> exact h
    · cases prev <;> exact ⟨fun hm => ⟨cleanItem_of_kind fun _ => by rintro ⟨⟩, hm⟩, And.right⟩

/-! ## All items -/

def CleanFrom (timestampToDate : Timestamp → Date) (mode : DateDividerMode) :
    Prev → List (TimelineItem C) → Prop
  | _, [] => True
  | prev, x :: items =>
    CleanItem timestampToDate mode prev x (nextEvent items) ∧
      CleanFrom timestampToDate mode (advance timestampToDate mode prev x) items

/-- **The plan separates clean items, and no others.** -/
theorem separatedFrom_plan {cur : Option (Timestamp × Bool)}
    (hout : Rebuilt (plan timestampToDate mode true prev i items) items out)
    (h : Stands timestampToDate mode (nextEvent items) prev cur) :
    SeparatedFrom (isSameDateDividerGroupAs timestampToDate mode) cur (out.filterMap (·.mark)) ↔
      CleanFrom timestampToDate mode prev items := by
  induction items generalizing prev cur i out with
  | nil =>
    cases hout
    rw [CleanFrom, iff_true]
    cases prev with
    | nothing =>
      obtain rfl : cur = none := h
      trivial
    | event ts =>
      obtain ⟨d, rfl, -⟩ := h
      rfl
    | divider last =>
      obtain rfl | ⟨d, rfl⟩ := h
      · trivial
      · rfl
  | cons x items ih =>
    obtain ⟨rest, hrest, hmarks⟩ := hout.marks_cons
    obtain ⟨cur', hcur', hstep⟩ := separatedFrom_step i x items h
    rw [hmarks, hstep, ih hrest hcur', CleanFrom]

/-- Between an event and the next one: if they are of one group but not of one day, so are the
dividers. -/
def CleanAfter (timestampToDate : Timestamp → Date) (mode : DateDividerMode) (ts : Timestamp)
    (rest : List (TimelineItem C)) : Prop :=
  ∀ next d, nextEvent rest = some next →
    some (Mark.divider d) ∈ (rest.takeWhile fun y => !y.isEvent).map (·.mark) →
    isSameDateDividerGroupAs timestampToDate mode ts next → timestampToDate ts ≠ timestampToDate next →
    isSameDateDividerGroupAs timestampToDate mode ts d

/-- Whenever two consecutive events fall into one date group but on different days, the dividers
between them are of this group. -/
def Clean (timestampToDate : Timestamp → Date) (mode : DateDividerMode)
    (items : List (TimelineItem C)) : Prop :=
  ∀ x rest ts, (x :: rest) <:+ items → x.mark = some (.event ts) → CleanAfter timestampToDate mode ts rest

lemma clean_cons :
    Clean timestampToDate mode (x :: items) ↔
      (∀ ts, x.mark = some (.event ts) → CleanAfter timestampToDate mode ts items) ∧
        Clean timestampToDate mode items := by
  constructor
  · exact fun h => ⟨fun ts hx => h x items ts suffix_rfl hx,
      fun y rest ts hsuffix => h y rest ts (hsuffix.trans (suffix_cons x items))⟩
  · rintro ⟨hx, hitems⟩ y rest ts hsuffix hy
    rcases suffix_cons_iff.1 hsuffix with heq | hsuffix
    · cases heq
      exact hx ts hy
    · exact hitems y rest ts hsuffix hy

section After

variable {last : Timestamp} {id : TimelineUniqueId} {items : List (TimelineItem C)}

lemma cleanAfter_event (event : EventItem C) :
    CleanAfter timestampToDate mode last (⟨.event event, id⟩ :: items) := by
  intro next d _ hd
  simp at hd

lemma cleanAfter_divider (ts : Timestamp) :
    CleanAfter timestampToDate mode last (⟨.dateDivider ts, id⟩ :: items) ↔
      (∀ next, nextEvent items = some next → isSameDateDividerGroupAs timestampToDate mode last next →
        timestampToDate last ≠ timestampToDate next → isSameDateDividerGroupAs timestampToDate mode last ts) ∧
      CleanAfter timestampToDate mode last items := by
  unfold CleanAfter
  rw [nextEvent_cons, takeWhile_cons_of_pos (by simp)]
  simp only [map_cons, TimelineItem.mark_mk, mem_cons, Option.some.injEq, Mark.divider.injEq]
  constructor
  · exact fun h => ⟨fun next hnext => h next ts hnext (.inl rfl),
      fun next d hnext hd => h next d hnext (.inr hd)⟩
  · rintro ⟨hts, hrest⟩ next d hnext (rfl | hd)
    · exact hts next hnext
    · exact hrest next d hnext hd

end After

lemma cleanFrom_iff :
    CleanFrom timestampToDate mode prev items ↔
      (∀ last, prev = .event last → CleanAfter timestampToDate mode last items) ∧
        Clean timestampToDate mode items := by
  induction items generalizing prev with
  | nil =>
    rw [CleanFrom, true_iff]
    refine ⟨fun last _ next d hnext => ?_, fun x rest ts hsuffix => ?_⟩
    · cases hnext
    · simp at hsuffix
  | cons x items ih =>
    rw [CleanFrom, ih, clean_cons, ← and_assoc, ← and_assoc]
    refine and_congr_left fun _ => ?_
    obtain ⟨kind, id⟩ := x
    cases kind with
    | event event => simp [cleanItem_of_kind, cleanAfter_event, advance]
    | dateDivider ts =>
      cases prev with
      | nothing | divider last => simp [cleanItem_of_prev, advance]
      | event last =>
        simp only [Prev.event.injEq, forall_eq', cleanAfter_divider, TimelineItem.mark_mk, Option.some.injEq,
          reduceCtorEq, false_implies, implies_true, and_true]
        by_cases hsame : isSameDateDividerGroupAs timestampToDate mode last ts
        · simp [advance, cleanItem_divider, hsame]
        · simp only [advance, if_neg hsame, reduceCtorEq, false_implies, implies_true, and_true]
          rw [cleanItem_divider]
          constructor
          · intro hc
            exact ⟨fun next hnext hs hne => absurd (hc hsame next hnext hs) hne,
              fun next d hnext _ hs hne => absurd (hc hsame next hnext hs) hne⟩
          · intro hc _ event hnext hs
            by_contra hne
            exact hsame (hc.1 event hnext hs hne)
    | readMarker | timelineStart => cases prev <;> simp [advance, cleanItem_of_kind, CleanAfter,
      nextEvent_cons]

/-! ## The invariants that are checked -/

section Checks

variable {same : Timestamp → Timestamp → Bool} {cur : Option (Timestamp × Bool)}

lemma checkFirst_eq_nil
    (h : SeparatedFrom same none (items.filterMap (·.mark))) : checkFirst (enumerateFrom i items) = [] := by
  induction items generalizing i with
  | nil => rfl
  | cons x items ih =>
    obtain ⟨kind, id⟩ := x
    cases kind with
    | event event => exact h.elim
    | dateDivider ts => rfl
    | readMarker | timelineStart => exact ih h

lemma checkDuplicates_eq_nil {prevWasDateDivider : Bool}
    (hprev : prevWasDateDivider → ∃ d, cur = some (d, false))
    (h : SeparatedFrom same cur (items.filterMap (·.mark))) :
    checkDuplicates prevWasDateDivider (enumerateFrom i items) = [] := by
  induction items generalizing i cur prevWasDateDivider with
  | nil => rfl
  | cons x items ih =>
    obtain ⟨kind, id⟩ := x
    cases kind with
    | event event =>
      cases cur with
      | none => exact h.elim
      | some c => exact ih (by simp) h.2
    | dateDivider ts =>
      cases cur with
      | none =>
        cases prevWasDateDivider with
        | true =>
          obtain ⟨d, hd⟩ := hprev rfl
          cases hd
        | false => exact ih (fun _ => ⟨ts, rfl⟩) h
      | some c =>
        cases prevWasDateDivider with
        | true =>
          obtain ⟨d, hd⟩ := hprev rfl
          cases hd
          exact absurd h.1 (by simp)
        | false => exact ih (fun _ => ⟨ts, rfl⟩) h.2.2
    | readMarker | timelineStart => exact ih (by simp) h

lemma not_separatedFrom_concat {d : Timestamp} : ¬ SeparatedFrom same cur (marks ++ [.divider d]) := by
  induction marks generalizing cur with
  | nil =>
    cases cur with
    | none => exact Bool.false_ne_true
    | some c => exact fun h => Bool.false_ne_true h.2.2
  | cons m marks ih =>
    intro h
    cases m with
    | event ts =>
      cases cur with
      | none => exact h
      | some c => exact ih h.2
    | divider d' =>
      cases cur with
      | none => exact ih h
      | some c => exact ih h.2.2

lemma getLast_not_isDateDivider
    (h : SeparatedFrom same cur (items.filterMap (·.mark))) : ¬ items.getLast?.any (·.isDateDivider) := by
  rcases eq_nil_or_concat items with rfl | ⟨init, x, rfl⟩
  · simp
  · obtain ⟨kind, id⟩ := x
    cases kind with
    | dateDivider ts =>
      rw [concat_eq_append, filterMap_append] at h
      exact absurd h not_separatedFrom_concat
    | event | readMarker | timelineStart => simp

lemma checkDates_eq_nil {prevEventTs : Option Timestamp}
    (hevent : ∀ ts ∈ prevEventTs, ∃ d hasEvent, cur = some (d, hasEvent) ∧
      isSameDateDividerGroupAs timestampToDate mode d ts)
    (h : SeparatedFrom (isSameDateDividerGroupAs timestampToDate mode) cur (items.filterMap (·.mark))) :
    checkDates timestampToDate mode prevEventTs (cur.map Prod.fst) (enumerateFrom i items) = [] := by
  induction items generalizing i cur prevEventTs with
  | nil => rfl
  | cons x items ih =>
    rw [enumerateFrom_cons, checkDates]
    obtain ⟨kind, id⟩ := x
    cases kind with
    | event event =>
      cases cur with
      | none => exact h.elim
      | some c =>
        obtain ⟨hsame, hrest⟩ := h
        have hprev : prevEventTs.any (fun prev => !isSameDateDividerGroupAs timestampToDate mode prev event.timestamp) =
            false := by
          rcases prevEventTs with _ | ts
          · rfl
          · obtain ⟨d, hasEvent, hcur, hd⟩ := hevent ts rfl
            cases hcur
            simp [same_trans (same_symm hd) hsame]
        have hgoal : checkDates timestampToDate mode (some event.timestamp) (some c.1) (enumerateFrom (i + 1) items) = [] :=
          ih (fun ts hts => ⟨c.1, true, rfl, by cases hts; exact hsame⟩) hrest
        simp [hprev, hsame, hgoal]
    | dateDivider ts =>
      have hgoal : SeparatedFrom (isSameDateDividerGroupAs timestampToDate mode) (some (ts, false))
          (items.filterMap (·.mark)) →
          checkDates timestampToDate mode none (some ts) (enumerateFrom (i + 1) items) = [] := ih (by simp)
      cases cur with
      | none => simpa using hgoal h
      | some c => simpa [h.2.1] using hgoal h.2.2
    | readMarker | timelineStart => exact ih hevent h

end Checks

/-! ## The adjuster -/

lemma Rebuilt.filter_eq {p : List (Option DateDividerOperation)} (h : Rebuilt p items out) :
    out.filter (fun x => !x.isDateDivider) = items.filter fun x => !x.isDateDivider := by
  induction h with
  | nil => rfl
  | keep x _ ih => simp [filter_cons, ih]
  | insert i ts id hx _ ih => simp [filter_cons, ih]
  | replace i ts id hx _ ih => simp [hx, ih]
  | remove i hx _ ih => simp [hx, ih]

variable (o : ObservableItems C)

lemma start_cases :
    o.firstRemotesRegionIndex = 0 ∨
      o.firstRemotesRegionIndex = 1 ∧ ∃ id items, o.items = ⟨.timelineStart, id⟩ :: items := by
  unfold ObservableItems.firstRemotesRegionIndex
  split
  · next h =>
    refine .inr ⟨rfl, ?_⟩
    rcases hitems : o.items with _ | ⟨⟨kind, id⟩, items⟩
    · simp [hitems] at h
    · rw [hitems] at h
      cases kind <;> simp at h
      exact ⟨id, items, rfl⟩
  · exact .inl rfl

lemma drop_start {β : Type} {f : TimelineItem C → Option β} (hf : ∀ id, f ⟨.timelineStart, id⟩ = none)
    (o : ObservableItems C) : (o.items.drop o.firstRemotesRegionIndex).filterMap f = o.items.filterMap f := by
  obtain hn | ⟨hn, id, items, hitems⟩ := start_cases o
  · rw [hn, drop_zero]
  · rw [hn, hitems]
    simp [hf]

lemma take_start : (o.items.take o.firstRemotesRegionIndex).filterMap (·.mark) = [] := by
  obtain hn | ⟨hn, id, items, hitems⟩ := start_cases o
  · rw [hn]
    rfl
  · rw [hn, hitems]
    rfl

lemma firstRemotesRegionIndex_le : o.firstRemotesRegionIndex ≤ o.items.length := by
  obtain hn | ⟨hn, id, items, hitems⟩ := start_cases o
  · omega
  · simp [hn, hitems]

/-- **The operations are applied without a panic.** -/
theorem processOps_recordOps (timestampToDate : Timestamp → Date) (mode : DateDividerMode)
    (o : ObservableItems C) (metadata : TimelineMetadata A) :
    ∃ o' metadata' out, processOps (recordOps timestampToDate mode o) 0 0 o metadata = some (o', metadata') ∧
      o'.items = o.items.take o.firstRemotesRegionIndex ++ out ∧
      Rebuilt (plan timestampToDate mode true .nothing o.firstRemotesRegionIndex
        (o.items.drop o.firstRemotesRegionIndex)) (o.items.drop o.firstRemotesRegionIndex) out := by
  rw [recordOps_eq]
  refine processOps_plan _ _ _ _ metadata (take_append_drop _ _).symm ?_ (Nat.zero_le _)
  simp [firstRemotesRegionIndex_le]

lemma clean_drop :
    Clean timestampToDate mode (o.items.drop o.firstRemotesRegionIndex) ↔
      Clean timestampToDate mode o.items := by
  obtain hn | ⟨hn, id, items, hitems⟩ := start_cases o
  · rw [hn, drop_zero]
  · rw [hn, hitems]
    simp [clean_cons]

lemma any_isReadMarker :
    o.iterRemotesAndLocalsRegions.any (·.2.isReadMarker) =
      (o.items.filter fun x => !x.isDateDivider).any (·.isReadMarker) := by
  have hregions : o.iterRemotesAndLocalsRegions.any (·.2.isReadMarker) =
      (o.items.drop o.firstRemotesRegionIndex).any (·.isReadMarker) := by
    rw [iterRemotesAndLocalsRegions_eq, enumerateFrom, any_map]
    generalize o.firstRemotesRegionIndex = n
    generalize o.items.drop n = items
    induction items generalizing n with
    | nil => rfl
    | cons x items ih => simp [ih]
  have hstart : (o.items.drop o.firstRemotesRegionIndex).any (·.isReadMarker) =
    o.items.any (·.isReadMarker) := by
    obtain hn | ⟨hn, id, items, hitems⟩ := start_cases o
    · rw [hn, drop_zero]
    · rw [hn, hitems]
      rfl
  rw [hregions, hstart, any_filter]
  congr 1
  funext x
  obtain ⟨kind, id⟩ := x
  cases kind <;> rfl

lemma checkInvariants_eq_nil {o o' : ObservableItems C}
    (hfilter : o'.items.filter (fun x => !x.isDateDivider) = o.items.filter fun x => !x.isDateDivider)
    (h : SeparatedFrom (isSameDateDividerGroupAs timestampToDate mode) none (o'.items.filterMap (·.mark)))
    (traceEnabled : Bool) :
    checkInvariants timestampToDate mode o'
      (if traceEnabled then some (o.iterRemotesAndLocalsRegions.map Prod.snd) else none) = [] := by
  have hdrop := h
  rw [← drop_start fun _ => rfl] at hdrop
  have hmarker : ¬ ((if traceEnabled then some (o.iterRemotesAndLocalsRegions.map Prod.snd) else none).any
      (fun state => state.any (·.isReadMarker)) ∧
        ¬ o'.iterRemotesAndLocalsRegions.any (·.2.isReadMarker)) := by
    rw [any_isReadMarker, hfilter, ← any_isReadMarker]
    cases traceEnabled <;> simp
  have hdates : checkDates timestampToDate mode none none
      (enumerateFrom o'.firstRemotesRegionIndex (o'.items.drop o'.firstRemotesRegionIndex)) = [] :=
    checkDates_eq_nil (fun ts hts => absurd hts (by simp)) hdrop
  unfold checkInvariants
  rw [if_neg hmarker, iterRemotesAndLocalsRegions_eq, checkFirst_eq_nil hdrop, checkDuplicates_eq_nil (by simp) hdrop,
    if_neg (getLast_not_isDateDivider h), hdates]
  rfl

lemma clean_daily (items : List (TimelineItem C)) : Clean timestampToDate .daily items := by
  intro x rest ts _ _ next d _ _ hsame hdiffer
  exact absurd (by simpa [isSameDateDividerGroupAs] using hsame) hdiffer

lemma bind_guard {α : Type} (p : Prop) [Decidable p] (x : α) :
    (do guard ¬ p; return x : Option α) = if p then none else some x := by
  by_cases h : p <;> simp [guard, h]

/-- **Date dividers separate days, or months.** The adjuster does not panic, leaves the other items
as they are, and separates the date groups, if and only if the dividers between two events of one
group on different days are of this group. In the daily mode this is always so. -/
theorem run_separates (hmode : mode ≠ .none) (o : ObservableItems C) (metadata : TimelineMetadata A)
    (debugAssertions traceEnabled : Bool) :
    (∃ o' metadata', run timestampToDate mode o metadata debugAssertions traceEnabled = some (o', metadata') ∧
      o'.items.filter (fun x => !x.isDateDivider) = o.items.filter (fun x => !x.isDateDivider) ∧
      Separated (isSameDateDividerGroupAs timestampToDate mode) (o'.items.filterMap (·.mark))) ↔
    Clean timestampToDate mode o.items := by
  obtain ⟨o', metadata', out, hprocess, hitems, hrebuilt⟩ :=
    processOps_recordOps timestampToDate mode o metadata
  have hfilter : o'.items.filter (fun x => !x.isDateDivider) = o.items.filter fun x => !x.isDateDivider := by
    rw [hitems, filter_append, hrebuilt.filter_eq, ← filter_append, take_append_drop]
  have hmarks : o'.items.filterMap (·.mark) = out.filterMap (·.mark) := by
    rw [hitems, filterMap_append, take_start, nil_append]
  have hclean : Separated (isSameDateDividerGroupAs timestampToDate mode) (o'.items.filterMap (·.mark)) ↔
      Clean timestampToDate mode o.items := by
    rw [separated_iff, hmarks, separatedFrom_plan hrebuilt rfl, cleanFrom_iff, clean_drop]
    simp
  have hrun : run timestampToDate mode o metadata debugAssertions traceEnabled =
      if debugAssertions ∧ checkInvariants timestampToDate mode o'
        (if traceEnabled then some (o.iterRemotesAndLocalsRegions.map Prod.snd) else none) ≠ [] then none
      else some (o', metadata') := by
    rw [run.eq_2 _ _ _ _ _ _ hmode, hprocess]
    exact bind_guard _ _
  rw [hrun]
  constructor
  · rintro ⟨o'', metadata'', h, -, hsep⟩
    obtain ⟨-, h⟩ := Option.ite_none_left_eq_some.1 h
    cases h
    exact hclean.1 hsep
  · intro h
    refine ⟨o', metadata', if_neg ?_, hfilter, hclean.2 h⟩
    rw [checkInvariants_eq_nil hfilter (separated_iff.1 (hclean.2 h))]
    simp

end Groups

/-- The first days of January and February 1970. -/
def winterDate (ts : Timestamp) : Date :=
  let day := ts / 86400000
  if day < 31 then ⟨1970, 1, day + 1⟩ else ⟨1970, 2, day - 30⟩

def winterEvent (day : ℕ) (eventId : EventId) : TimelineItem String :=
  ⟨.event ⟨"@alice:example.org", day * 86400000, "hello", .remote eventId none⟩, eventId⟩

/-- Daily dividers for an event of the first of January, one of the third, and a divider that is
left over. -/
theorem run_separates_january :
    ∃ o' metadata', run winterDate .daily
        ⟨[winterEvent 0 "$a", ⟨.dateDivider (31 * 86400000), "d"⟩, winterEvent 2 "$b"], []⟩
        (⟨none, 3, "@alice:example.org", (), none, true⟩ : TimelineMetadata Unit) true true =
          some (o', metadata') ∧
      o'.items.filter (fun x => !x.isDateDivider) = [winterEvent 0 "$a", winterEvent 2 "$b"] ∧
      Separated (isSameDateDividerGroupAs winterDate .daily) (o'.items.filterMap (·.mark)) :=
  (run_separates (by decide) _ _ _ _).2 (clean_daily _)

/-- Monthly dividers: the only event of February was removed, and one of January was added after its
divider. The divider is moved to January instead of being removed. With debug assertions the
adjuster panics. -/
theorem run_repeats_january :
    let items : ObservableItems String := ⟨[⟨.dateDivider 0, "d"⟩, winterEvent 0 "$a",
      ⟨.dateDivider (31 * 86400000), "e"⟩, winterEvent 2 "$b"], []⟩
    let metadata : TimelineMetadata Unit := ⟨none, 4, "@alice:example.org", (), none, true⟩
    run winterDate .monthly items metadata true false = none ∧
    ∃ o' metadata', run winterDate .monthly items metadata false false = some (o', metadata') ∧
      o'.items.filterMap (·.mark) = [.divider 0, .event 0, .divider (2 * 86400000), .event (2 * 86400000)] ∧
      ¬ Separated (isSameDateDividerGroupAs winterDate .monthly) (o'.items.filterMap (·.mark)) := by
  have hmarks : ¬ Separated (isSameDateDividerGroupAs winterDate .monthly)
      [.divider 0, .event 0, .divider (2 * 86400000), .event (2 * 86400000)] := by
    rw [separated_iff]
    simp [SeparatedFrom, isSameDateDividerGroupAs, winterDate, Date.isSameMonthAs]
  refine ⟨by decide +kernel, ⟨[⟨.dateDivider 0, "d"⟩, winterEvent 0 "$a", ⟨.dateDivider (2 * 86400000), "e"⟩,
    winterEvent 2 "$b"], []⟩, ⟨none, 4, "@alice:example.org", (), none, true⟩, rfl, rfl, hmarks⟩

end DateDividerAdjuster

end HaranaMatrix.Timeline
