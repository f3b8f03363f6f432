import HaranaMatrix.Lib.Splice
import HaranaMatrix.Timeline.DateDividers

/-!
# What the adjuster does to each item

The operations are recorded in several places: a wrong divider is dealt with at the next event, and
a trailing one at the end. Seen from the item they are about they form a plan, at most one operation
for each item, and the list that is applied is the plan in order. -/

namespace HaranaMatrix.Timeline

open List DateDividerOperation

variable {C A : Type}

namespace DateDividerAdjuster

/-- What comes before an item: nothing, an event, or a divider that was kept so far, with the last
event before it. -/
inductive Prev
  | nothing
  | event (ts : Timestamp)
  | divider (last : Option Timestamp)

/-- The time of the first event. -/
def nextEvent (items : List (TimelineItem C)) : Option Timestamp :=
    items.findSome? fun x => x.asEvent.map (·.timestamp)

lemma nextEvent_cons (x : TimelineItem C) (items : List (TimelineItem C)) :
    nextEvent (x :: items) = match x.kind with
      | .event event => some event.timestamp
      | _ => nextEvent items := by
  rcases x with ⟨kind, id⟩
  cases kind <;> rfl

section Plan

variable (timestampToDate : Timestamp → Date) (mode : DateDividerMode)

/-- What happens to a divider that was kept so far, once the next event is known. Trailing dividers
are removed at the end only, when they are chased. -/
def fate (chased : Bool) (i : ℕ) (ts : Timestamp) (last next : Option Timestamp) :
    Option DateDividerOperation :=
  match next with
  | none => if chased then some (.remove i) else none
  | some event =>
    if timestampToDate ts = timestampToDate event then none
    else if last.any fun last => timestampToDate last = timestampToDate event then some (.remove i)
    else some (.replace i event)

/-- The operation for one item. -/
def planItem (chased : Bool) (prev : Prev) (i : ℕ) (x : TimelineItem C) (next : Option Timestamp) :
    Option DateDividerOperation :=
  match x.kind, prev with
  | .event event, .nothing => some (.insert i event.timestamp)
  | .event event, .event ts =>
    if isSameDateDividerGroupAs timestampToDate mode ts event.timestamp then none else some (.insert i event.timestamp)
  | .event _, .divider _ => none
  | .dateDivider ts, .nothing => fate timestampToDate chased i ts none next
  | .dateDivider ts, .event last =>
    if isSameDateDividerGroupAs timestampToDate mode last ts then some (.remove i)
    else fate timestampToDate chased i ts (some last) next
  | .dateDivider _, .divider _ => some (.remove i)
  | _, _ => none

/-- What comes before the next item. -/
def advance (prev : Prev) (x : TimelineItem C) : Prev :=
  match x.kind, prev with
  | .event event, _ => .event event.timestamp
  | .dateDivider _, .nothing => .divider none
  | .dateDivider ts, .event last =>
    if isSameDateDividerGroupAs timestampToDate mode last ts then .event last else .divider (some last)
  | _, prev => prev

def plan (chased : Bool) : Prev → ℕ → List (TimelineItem C) → List (Option DateDividerOperation)
  | _, _, [] => []
  | prev, i, x :: items =>
    planItem timestampToDate mode chased prev i x (nextEvent items) ::
      plan chased (advance timestampToDate mode prev x) (i + 1) items

end Plan

/-! ## The operations are the plan -/

variable {i : ℕ}

section Record

variable {timestampToDate : Timestamp → Date} {mode : DateDividerMode}

/-- The items with their indices, from an index on. -/
def enumerateFrom (i : ℕ) (items : List (TimelineItem C)) : List (ℕ × TimelineItem C) :=
  (items.zipIdx i).map Prod.swap

lemma enumerateFrom_cons (i : ℕ) (x : TimelineItem C) (items : List (TimelineItem C)) :
    enumerateFrom i (x :: items) = (i, x) :: enumerateFrom (i + 1) items := by
  simp [enumerateFrom]

/-- What the state of the loop says about the items so far. -/
inductive Reads : Scan C → Prev → Prop
  | nothing (ops : List DateDividerOperation) : Reads ⟨ops, none, none⟩ .nothing
  | event {event : EventItem C} (ops : List DateDividerOperation) (j : ℕ) (id : TimelineUniqueId) (n : ℕ) :
      Reads ⟨ops, some ⟨j, ⟨.event event, id⟩, n⟩, some event.timestamp⟩ (.event event.timestamp)
  | divider {n : ℕ} {ops : List DateDividerOperation} (j : ℕ) (ts : Timestamp) (id : TimelineUniqueId)
      (last : Option Timestamp) (hn : n ≤ ops.length) :
      Reads ⟨ops, some ⟨j, ⟨.dateDivider ts, id⟩, n⟩, last⟩ (.divider last)

/-- The operations so far, with the one for the divider that was kept so far. -/
def settle (timestampToDate : Timestamp → Date) (scan : Scan C) (next : Option Timestamp) :
    List DateDividerOperation :=
  match scan.prevItem with
  | some ⟨j, ⟨.dateDivider ts, _⟩, n⟩ =>
    match fate timestampToDate false j ts scan.latestEventTs next with
    | some op => scan.ops.insertIdx n op
    | none => scan.ops
  | _ => scan.ops

lemma settle_append {ops : List DateDividerOperation} {j n : ℕ} {ts : Timestamp} {id : TimelineUniqueId}
    {last next : Option Timestamp} (hn : n ≤ ops.length) (op : DateDividerOperation) :
    settle timestampToDate (⟨ops ++ [op], some ⟨j, ⟨.dateDivider ts, id⟩, n⟩, last⟩ : Scan C) next =
      settle timestampToDate (⟨ops, some ⟨j, ⟨.dateDivider ts, id⟩, n⟩, last⟩ : Scan C) next ++ [op] := by
  simp only [settle]
  cases fate timestampToDate false j ts last next with
  | none => rfl
  | some decided => exact insertIdx_append_of_le hn decided op

lemma settle_kept (ops : List DateDividerOperation) (i : ℕ) (ts : Timestamp) (id : TimelineUniqueId)
    (last next : Option Timestamp) (rest : List (Option DateDividerOperation)) :
    settle timestampToDate (⟨ops, some ⟨i, ⟨.dateDivider ts, id⟩, ops.length⟩, last⟩ : Scan C) next ++
      rest.reduceOption = ops ++ (fate timestampToDate false i ts last next :: rest).reduceOption := by
  simp only [settle]
  cases fate timestampToDate false i ts last next with
  | none => rw [reduceOption_cons_of_none]
  | some op => simp [reduceOption_cons_of_some]

lemma handleEvent_divider (ops : List DateDividerOperation) (i j n : ℕ) (ts event : Timestamp)
    (id : TimelineUniqueId) (last : Option Timestamp) :
    handleEvent timestampToDate mode ops i event (some (⟨j, ⟨.dateDivider ts, id⟩, n⟩ : PrevItemDesc C)) last =
      settle timestampToDate (⟨ops, some ⟨j, ⟨.dateDivider ts, id⟩, n⟩, last⟩ : Scan C) (some event) := by
  simp only [handleEvent, settle, fate]
  split_ifs <;> rfl

variable {prev : Prev}

/-- **The loop records the plan**, except for the removal of a trailing divider. -/
theorem scan_ops {scan : Scan C} (hr : Reads scan prev) (i : ℕ) (items : List (TimelineItem C)) :
    ((enumerateFrom i items).foldl (scanItem timestampToDate mode) scan).ops =
      settle timestampToDate scan (nextEvent items) ++ (plan timestampToDate mode false prev i items).reduceOption := by
  induction items generalizing scan prev i with
  | nil =>
    cases hr <;> simp [enumerateFrom, settle, plan, nextEvent, fate]
  | cons x items ih =>
    obtain ⟨kind, id⟩ := x
    rw [enumerateFrom_cons, foldl_cons, nextEvent_cons, plan]
    cases kind with
    | event event =>
      cases hr with
      | nothing ops =>
        rw [scanItem, ih (.event ..)]
        simp [planItem, advance, handleEvent, settle, reduceOption_cons_of_some]
      | event ops j id' n =>
        rw [scanItem, ih (.event ..)]
        simp only [planItem, advance, handleEvent, settle]
        split_ifs <;> simp [reduceOption_cons_of_some, reduceOption_cons_of_none]
      | divider j ts id' last hn =>
        rw [scanItem, ih (.event ..), handleEvent_divider]
        simp [planItem, advance, settle, reduceOption_cons_of_none]
    | dateDivider ts =>
      cases hr with
      | nothing ops =>
        simp only [scanItem, handleDateDivider, Option.map_none, Bool.false_eq_true, if_false]
        rw [ih (.divider _ _ _ _ le_rfl), settle_kept]
        simp only [planItem, advance, settle]
      | @event event ops j id' n =>
        by_cases hsame : isSameDateDividerGroupAs timestampToDate mode event.timestamp ts
        · simp only [scanItem, handleDateDivider, Option.map_some, hsame, if_true]
          rw [ih (.event ..)]
          simp [planItem, advance, hsame, settle, reduceOption_cons_of_some]
        · simp only [scanItem, handleDateDivider, Option.map_some, hsame, Bool.false_eq_true, if_false]
          rw [ih (.divider _ _ _ _ le_rfl), settle_kept]
          simp only [planItem, advance, if_neg hsame, settle]
      | @divider n ops j ts' id' last hn =>
        simp only [scanItem, handleDateDivider, Option.map_some, if_true]
        rw [ih (.divider _ _ _ _ (by simp; omega)), settle_append hn]
        simp only [planItem, advance]
        rw [reduceOption_cons_of_some, append_assoc, singleton_append]
    | readMarker | timelineStart =>
      rw [scanItem, ih hr]
      cases hr <;> simp [planItem, advance, reduceOption_cons_of_none]

/-! ## Trailing dividers -/

section Trailing

variable {ops : List DateDividerOperation}

variable {op : DateDividerOperation} {x : TimelineItem C} {next : Option Timestamp} {chased : Bool}

lemma insertRemoval_cons (h : op.index < i) : insertRemoval i (op :: ops) = op :: insertRemoval i ops := by
  have hne : remove i ≠ op := by
    rintro rfl
    exact lt_irrefl i h
  unfold insertRemoval
  simp only [mem_cons, hne, false_or]
  split
  · rfl
  · have hskip : decide (i < op.index) = false := by simp; omega
    rw [List.findIdx?_cons, hskip]
    cases hfind : ops.findIdx? fun op => decide (i < op.index) <;> simp

lemma insertRemoval_append {before : List DateDividerOperation} (h : ∀ op ∈ before, op.index < i) :
    insertRemoval i (before ++ ops) = before ++ insertRemoval i ops := by
  induction before with
  | nil => rfl
  | cons op before ih =>
    rw [cons_append, insertRemoval_cons (h op (by simp)), ih fun op' hop => h op' (by simp [hop]), cons_append]

lemma insertRemoval_front (h : ∀ op ∈ ops, i < op.index) : insertRemoval i ops = .remove i :: ops := by
  unfold insertRemoval
  have hnot : remove i ∉ ops := fun hmem => lt_irrefl i (h (.remove i) hmem)
  rw [if_neg hnot]
  cases ops with
  | nil => rfl
  | cons op ops => simp [List.findIdx?_cons, h op (by simp)]

lemma chaseTrailing_append {before : List DateDividerOperation} {l : List (ℕ × TimelineItem C)}
    (h : ∀ op ∈ before, ∀ x ∈ l, op.index < x.1) :
    chaseTrailing l (before ++ ops) = before ++ chaseTrailing l ops := by
  induction l generalizing ops with
  | nil => rfl
  | cons x l ih =>
    obtain ⟨i, item⟩ := x
    have hl : ∀ op ∈ before, ∀ x ∈ l, op.index < x.1 := fun op hop x hx => h op hop x (by simp [hx])
    simp only [chaseTrailing]
    split
    · rfl
    · split
      · rw [insertRemoval_append fun op hop => h op hop (i, item) (by simp), ih hl]
      · exact ih hl

lemma chaseTrailing_concat (l : List (ℕ × TimelineItem C)) (i : ℕ) (item : TimelineItem C) :
    chaseTrailing (l ++ [(i, item)]) ops =
      if l.any (·.2.isEvent) ∨ ¬ item.isDateDivider then chaseTrailing l ops else insertRemoval i (chaseTrailing l ops) := by
  induction l generalizing ops with
  | nil =>
    rcases item with ⟨kind, id⟩
    cases kind <;> simp [chaseTrailing]
  | cons x l ih =>
    obtain ⟨j, y⟩ := x
    rw [cons_append, chaseTrailing, chaseTrailing]
    by_cases hy : y.isEvent
    · rw [if_pos hy, if_pos hy, if_pos (by simp [hy])]
    · rw [if_neg hy, if_neg hy, ih]
      have hany : ((j, y) :: l).any (·.2.isEvent) = l.any (·.2.isEvent) := by
        rw [any_cons, Bool.eq_false_iff.2 hy, Bool.false_or]
      rw [hany]

lemma fate_cases {ts : Timestamp} {last next : Option Timestamp}
    (h : fate timestampToDate chased i ts last next = some op) :
      op = .remove i ∨ ∃ event, op = .replace i event := by
  unfold fate at h
  split at h
  · split at h <;> cases h
    exact .inl rfl
  · next event =>
    split_ifs at h <;> cases h
    · exact .inl rfl
    · exact .inr ⟨event, rfl⟩

section

variable (h : planItem timestampToDate mode chased prev i x next = some op)
include h

lemma planItem_cases :
    (x.isEvent ∧ ∃ ts, op = .insert i ts) ∨ (x.isDateDivider ∧
      (op = .remove i ∨ ∃ ts, op = .replace i ts)) := by
  obtain ⟨kind, id⟩ := x
  cases kind with
  | event event =>
    refine .inl ⟨rfl, event.timestamp, ?_⟩
    cases prev with
    | nothing => exact (Option.some.inj h).symm
    | event ts =>
      simp only [planItem] at h
      split at h <;> cases h
      rfl
    | divider last => cases h
  | dateDivider ts =>
    refine .inr ⟨rfl, ?_⟩
    cases prev with
    | nothing => exact fate_cases h
    | event last =>
      simp only [planItem] at h
      split at h
      · exact .inl (Option.some.inj h).symm
      · exact fate_cases h
    | divider last => exact .inl (Option.some.inj h).symm
  | readMarker | timelineStart => cases prev <;> cases h

lemma planItem_index : op.index = i := by
  obtain ⟨-, ts, rfl⟩ | ⟨-, rfl | ⟨ts, rfl⟩⟩ := planItem_cases h <;> rfl

end

lemma le_index_of_mem_plan {items : List (TimelineItem C)}
    (h : op ∈ (plan timestampToDate mode chased prev i items).reduceOption) : i ≤ op.index := by
  induction items generalizing prev i with
  | nil => simp [plan] at h
  | cons x items ih =>
    rw [plan, reduceOption_mem_iff, mem_cons] at h
    rcases h with h | h
    · exact (planItem_index h.symm).ge
    · exact (Nat.le_succ i).trans (ih (reduceOption_mem_iff.2 h))

lemma any_isEvent_enumerateFrom (i : ℕ) (items : List (TimelineItem C)) :
    (enumerateFrom i items).reverse.any (·.2.isEvent) = (nextEvent items).isSome := by
  rw [any_reverse]
  induction items generalizing i with
  | nil => rfl
  | cons x items ih =>
    rw [enumerateFrom_cons, any_cons, ih, nextEvent_cons]
    rcases x with ⟨kind, id⟩
    cases kind <;> simp

lemma planItem_chased (h : next.isSome ∨ ¬ x.isDateDivider) :
    planItem timestampToDate mode false prev i x next = planItem timestampToDate mode true prev i x next := by
  obtain ⟨kind, id⟩ := x
  cases kind with
  | dateDivider ts =>
    obtain ⟨event, rfl⟩ : ∃ event, next = some event := Option.isSome_iff_exists.1
      (h.resolve_right (by simp))
    cases prev <;> rfl
  | event | readMarker | timelineStart => cases prev <;> rfl

lemma planItem_trailing (hx : x.isDateDivider) :
    (planItem timestampToDate mode false prev i x none = some (.remove i) ∨
      planItem timestampToDate mode false prev i x none = none) ∧
    planItem timestampToDate mode true prev i x none = some (.remove i) := by
  obtain ⟨kind, id⟩ := x
  cases kind with
  | dateDivider ts =>
    cases prev with
    | nothing => exact ⟨.inr rfl, rfl⟩
    | event last =>
      simp only [planItem, fate]
      split <;> simp
    | divider last => exact ⟨.inl rfl, rfl⟩
  | event | readMarker | timelineStart => cases hx

/-- **With the trailing dividers the operations are the plan.** -/
theorem chase_plan (prev : Prev) (i : ℕ) (items : List (TimelineItem C)) :
    chaseTrailing (enumerateFrom i items).reverse (plan timestampToDate mode false prev i items).reduceOption =
      (plan timestampToDate mode true prev i items).reduceOption := by
  induction items generalizing prev i with
  | nil => rfl
  | cons x items ih =>
    have hlater : ∀ y ∈ (enumerateFrom (i + 1) items).reverse, i < y.1 := by
      intro y hy
      simp only [enumerateFrom, mem_reverse, mem_map] at hy
      obtain ⟨z, hz, rfl⟩ := hy
      exact le_snd_of_mem_zipIdx hz
    rw [enumerateFrom_cons, reverse_cons, chaseTrailing_concat, any_isEvent_enumerateFrom, plan, plan]
    have hrest : chaseTrailing (enumerateFrom (i + 1) items).reverse
        (planItem timestampToDate mode false prev i x (nextEvent items) ::
          plan timestampToDate mode false (advance timestampToDate mode prev x) (i + 1) items).reduceOption =
        (planItem timestampToDate mode false prev i x (nextEvent items) ::
          plan timestampToDate mode true (advance timestampToDate mode prev x) (i + 1) items).reduceOption := by
      cases hop : planItem timestampToDate mode false prev i x (nextEvent items) with
      | none => rw [reduceOption_cons_of_none, reduceOption_cons_of_none, ih]
      | some op =>
        rw [reduceOption_cons_of_some, reduceOption_cons_of_some, ← singleton_append,
          chaseTrailing_append, ih, singleton_append]
        intro op' hop' y hy
        obtain rfl := mem_singleton.1 hop'
        rw [planItem_index hop]
        exact hlater y hy
    rw [hrest]
    by_cases h : (nextEvent items).isSome ∨ ¬ x.isDateDivider
    · rw [if_pos h, planItem_chased h]
    · rw [if_neg h]
      obtain ⟨hnext, hx⟩ := not_or.1 h
      rw [Option.not_isSome_iff_eq_none.1 hnext]
      obtain ⟨hfalse, htrue⟩ := @planItem_trailing _ i timestampToDate mode prev x (not_not.1 hx)
      rw [htrue, reduceOption_cons_of_some]
      rcases hfalse with hfalse | hfalse
      · rw [hfalse, reduceOption_cons_of_some, insertRemoval, if_pos (by simp)]
      · rw [hfalse, reduceOption_cons_of_none]
        exact insertRemoval_front fun op hop => le_index_of_mem_plan hop

end Trailing

lemma iterRemotesAndLocalsRegions_eq (o : ObservableItems C) :
    o.iterRemotesAndLocalsRegions =
      enumerateFrom o.firstRemotesRegionIndex (o.items.drop o.firstRemotesRegionIndex) := by
  unfold ObservableItems.iterRemotesAndLocalsRegions ObservableItems.enumerate enumerateFrom
  generalize o.firstRemotesRegionIndex = n
  apply ext_getElem?
  intro k
  simp [List.getElem?_drop, List.getElem?_zipIdx]

/-- **The operations that are recorded are the plan.** -/
theorem recordOps_eq (o : ObservableItems C) :
    recordOps timestampToDate mode o =
      (plan timestampToDate mode true .nothing o.firstRemotesRegionIndex
        (o.items.drop o.firstRemotesRegionIndex)).reduceOption := by
  unfold recordOps
  rw [iterRemotesAndLocalsRegions_eq]
  simp only
  rw [scan_ops (.nothing []), ← chase_plan]
  rfl

end Record

/-! ## Applying a plan -/

/-- The items after a plan was applied: dividers go before events, and dividers only are replaced
and removed. -/
inductive Rebuilt : List (Option DateDividerOperation) → List (TimelineItem C) → List (TimelineItem C) → Prop
  | nil : Rebuilt [] [] []
  | keep {p : List (Option DateDividerOperation)} {items out : List (TimelineItem C)} (x : TimelineItem C)
      (h : Rebuilt p items out) : Rebuilt (none :: p) (x :: items) (x :: out)
  | insert {p : List (Option DateDividerOperation)} {items out : List (TimelineItem C)} {x : TimelineItem C} (i : ℕ)
      (ts : Timestamp) (id : TimelineUniqueId) (hx : x.isEvent) (h : Rebuilt p items out) :
      Rebuilt (some (.insert i ts) :: p) (x :: items) (⟨.dateDivider ts, id⟩ :: x :: out)
  | replace {p : List (Option DateDividerOperation)} {items out : List (TimelineItem C)} {x : TimelineItem C} (i : ℕ)
      (ts : Timestamp) (id : TimelineUniqueId) (hx : x.isDateDivider) (h : Rebuilt p items out) :
      Rebuilt (some (.replace i ts) :: p) (x :: items) (⟨.dateDivider ts, id⟩ :: out)
  | remove {p : List (Option DateDividerOperation)} {items out : List (TimelineItem C)} {x : TimelineItem C} (i : ℕ)
      (hx : x.isDateDivider) (h : Rebuilt p items out) : Rebuilt (some (.remove i) :: p) (x :: items) out

section Apply

variable {o : ObservableItems C} {done items : List (TimelineItem C)} {x : TimelineItem C}

section

variable (ho : o.items = done ++ x :: items)
include ho

lemma pushDateDivider_split (hx : x.isEvent) (ts : Timestamp) (id : TimelineUniqueId) :
    ∃ o', o.pushDateDivider done.length ⟨.dateDivider ts, id⟩ = some o' ∧
      o'.items = done ++ ⟨.dateDivider ts, id⟩ :: x :: items := by
  have hstart : ¬ (done.length = 0 ∧ o.items.head?.any (·.isTimelineStart)) := by
    rintro ⟨hlen, hhead⟩
    obtain rfl := length_eq_zero_iff.1 hlen
    rw [ho] at hhead
    obtain ⟨kind, id⟩ := x
    cases kind <;> simp at hx hhead
  unfold ObservableItems.pushDateDivider
  rw [if_neg (by simp), if_neg hstart, if_neg (by simp [ho])]
  split
  · next hlen =>
    obtain rfl := length_eq_zero_iff.1 hlen
    exact ⟨_, rfl, by simp [ObservableItems.pushFront, ho]⟩
  · refine ⟨_, if_pos (by simp [ho]), ?_⟩
    simp only [ho, insertIdx_append_length]

lemma replace_split (y : TimelineItem C) :
    ∃ o', o.replace done.length y = some o' ∧ o'.items = done ++ y :: items :=
  ⟨_, if_pos (by simp [ho]), by simp [ho]⟩

lemma remove_split : ∃ o', o.remove done.length = some (x, o') ∧ o'.items = done ++ items := by
  unfold ObservableItems.remove
  rw [show o.items[done.length]? = some x by simp [ho]]
  exact ⟨_, rfl, by simp only [ho, eraseIdx_append_length]⟩

end

/-- **The plan is applied without a panic**, item by item. The offset is how far the items that are
left have moved. -/
theorem processOps_plan (timestampToDate : Timestamp → Date) (mode : DateDividerMode)
    (chased : Bool) (prev : Prev)
    {offset : ℤ} {maxI : ℕ} (metadata : TimelineMetadata A) (ho : o.items = done ++ items)
    (hoffset : (done.length : ℤ) = i + offset) (hmax : maxI ≤ i) :
    ∃ o' metadata' out, processOps (plan timestampToDate mode chased prev i items).reduceOption offset maxI o metadata =
        some (o', metadata') ∧
      o'.items = done ++ out ∧ Rebuilt (plan timestampToDate mode chased prev i items) items out := by
  induction items generalizing prev i o done offset maxI metadata with
  | nil => exact ⟨o, metadata, [], rfl, ho, .nil⟩
  | cons x items ih =>
    rw [plan]
    -- The rest of the plan, after `x` has become `new`.
    have hrest (new : List (TimelineItem C)) (offset' : ℤ) (metadata' : TimelineMetadata A) {o' : ObservableItems C}
        {maxI' : ℕ} (ho' : o'.items = done ++ (new ++ items)) (hnew : new.length + offset = 1 + offset')
        (hmax' : maxI' ≤ i + 1) := ih (advance timestampToDate mode prev x) metadata' (ho'.trans (append_assoc ..).symm)
          (show ((done ++ new).length : ℤ) = (i + 1 : ℕ) + offset' by push_cast [length_append]; omega) hmax'
    cases hop : planItem timestampToDate mode chased prev i x (nextEvent items) with
    | none =>
      obtain ⟨o', metadata', out, hrun, hout, hrebuilt⟩ :=
        hrest [x] offset metadata ho rfl (hmax.trans (Nat.le_succ i))
      exact ⟨o', metadata', x :: out, hrun, by simpa using hout, .keep x hrebuilt⟩
    | some op =>
      rw [reduceOption_cons_of_some, processOps]
      obtain ⟨hx, ts, rfl⟩ | ⟨hx, rfl | ⟨ts, rfl⟩⟩ := planItem_cases hop
      · have htarget : min ((i : ℤ) + offset) o.items.length = done.length := by
          rw [ho, ← hoffset, length_append, length_cons]
          omega
        obtain ⟨o₁, hpush, ho₁⟩ := pushDateDivider_split ho hx ts metadata.takeInternalId.1
        obtain ⟨o', metadata', out, hrun, hout, hrebuilt⟩ :=
          hrest [⟨.dateDivider ts, metadata.takeInternalId.1⟩, x]
          (offset + 1) metadata.takeInternalId.2 ho₁ (by simp; omega) (Nat.le_succ i)
        refine ⟨o', metadata', ⟨.dateDivider ts, metadata.takeInternalId.1⟩ :: x :: out, ?_, by simpa using hout,
          .insert i ts _ hx hrebuilt⟩
        rw [← hrun]
        simp only [processOp, htarget]
        rw [Int.toNat_natCast, show metadata.newTimelineItem (ItemKind.dateDivider ts : ItemKind C) =
          (⟨.dateDivider ts, metadata.takeInternalId.1⟩, metadata.takeInternalId.2) from rfl]
        simp [index, hmax, guard, hpush]
      · obtain ⟨o₁, hremove, ho₁⟩ := remove_split ho
        obtain ⟨o', metadata', out, hrun, hout, hrebuilt⟩ := hrest [] (offset - 1) metadata ho₁ (by simp) (Nat.le_succ i)
        refine ⟨o', metadata', out, ?_, by simpa using hout, .remove i hx hrebuilt⟩
        rw [← hrun]
        simp only [processOp, ← hoffset, Int.toNat_natCast]
        simp [index, hmax, guard, hremove]
      · have hget : o.items[done.length]? = some x := by simp [ho]
        obtain ⟨o₁, hset, ho₁⟩ := replace_split ho (⟨.dateDivider ts, x.internalId⟩ : TimelineItem C)
        obtain ⟨o', metadata', out, hrun, hout, hrebuilt⟩ :=
          hrest [⟨.dateDivider ts, x.internalId⟩] offset metadata ho₁ rfl (Nat.le_succ i)
        refine ⟨o', metadata', ⟨.dateDivider ts, x.internalId⟩ :: out, ?_, by simpa using hout, .replace i ts _ hx hrebuilt⟩
        rw [← hrun]
        simp only [processOp, ← hoffset, Int.toNat_natCast]
        simp [index, hmax, guard, hget, hset]

end Apply

end DateDividerAdjuster

end HaranaMatrix.Timeline
