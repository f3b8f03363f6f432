import HaranaMatrix.Timeline.Items

/-!
# Adjusting date dividers

The adjuster reads the items once, records operations on the original indices, and applies them with
a running offset. How a timestamp is read as a date of the local time zone is the parameter
`timestampToDate`. -/

namespace HaranaMatrix.Timeline

variable {C A : Type}

structure Date where
  year : ℤ
  month : ℕ
  day : ℕ
deriving DecidableEq

def Date.isSameMonthAs (a b : Date) : Bool := a.year = b.year ∧ a.month = b.month

inductive DateDividerMode
  | daily
  | monthly
  | none
deriving DecidableEq

inductive DateDividerOperation
  | insert (index : ℕ) (ts : Timestamp)
  | replace (index : ℕ) (ts : Timestamp)
  | remove (index : ℕ)
deriving DecidableEq

def DateDividerOperation.index : DateDividerOperation → ℕ
  | insert index _ | replace index _ | remove index => index

inductive DateDividerInsertError
  | firstItemNotDateDivider
  | duplicateDateDivider (index : ℕ)
  | trailingDateDivider
  | missingDateDividerBetweenEvents (index : ℕ)
  | missingDateDividerBeforeEvent (index : ℕ)
  | inconsistentDateAfterPreviousDateDivider (index : ℕ)
  | readMarkerDisappeared
deriving DecidableEq

/-- The previous item, and where the operation on it goes if there is one. -/
structure PrevItemDesc (C : Type) where
  itemIndex : ℕ
  item : TimelineItem C
  insertOpAt : ℕ

/-- What the loop over the items carries. -/
structure Scan (C : Type) where
  ops : List DateDividerOperation
  prevItem : Option (PrevItemDesc C)
  latestEventTs : Option Timestamp

namespace DateDividerAdjuster

section Adjuster

variable (timestampToDate : Timestamp → Date) (mode : DateDividerMode)

def isSameDateDividerGroupAs (lhs rhs : Timestamp) : Bool :=
  match mode with
  | .daily => timestampToDate lhs = timestampToDate rhs
  | .monthly => (timestampToDate lhs).isSameMonthAs (timestampToDate rhs)
  | .none => true

/-- The operations, and whether the divider is removed. -/
def handleDateDivider (ops : List DateDividerOperation) (i : ℕ) (ts : Timestamp)
    (prevItem : Option (TimelineItem C)) :
    List DateDividerOperation × Bool :=
  match prevItem with
  | none => (ops, false)
  | some prev =>
    match prev.kind with
    | .event event =>
      if isSameDateDividerGroupAs timestampToDate mode event.timestamp ts then (ops ++ [.remove i], true)
      else (ops, false)
    | .dateDivider _ => (ops ++ [.remove i], true)
    | _ => (ops, false)

def handleEvent (ops : List DateDividerOperation) (i : ℕ) (ts : Timestamp)
    (prevItemDesc : Option (PrevItemDesc C))
    (latestEventTs : Option Timestamp) : List DateDividerOperation :=
  match prevItemDesc with
  | none => ops ++ [.insert i ts]
  | some prev =>
    match prev.item.kind with
    | .event prevEvent =>
      if isSameDateDividerGroupAs timestampToDate mode prevEvent.timestamp ts then ops else ops ++ [.insert i ts]
    | .dateDivider prevTs =>
      -- these comparisons are of days, in every mode
      if timestampToDate prevTs = timestampToDate ts then ops
      else if latestEventTs.any fun last => timestampToDate last = timestampToDate ts then
        ops.insertIdx prev.insertOpAt (.remove prev.itemIndex)
      else ops.insertIdx prev.insertOpAt (.replace prev.itemIndex ts)
    | _ => ops

/-- One item of the loop. -/
def scanItem (scan : Scan C) (x : ℕ × TimelineItem C) : Scan C :=
  match x.2.kind with
  | .dateDivider ts =>
    let handled := handleDateDivider timestampToDate mode scan.ops x.1 ts (scan.prevItem.map (·.item))
    if handled.2 then { scan with ops := handled.1 }
    else { scan with ops := handled.1, prevItem := some ⟨x.1, x.2, handled.1.length⟩ }
  | .event event =>
    let ops := handleEvent timestampToDate mode scan.ops x.1 event.timestamp scan.prevItem scan.latestEventTs
    ⟨ops, some ⟨x.1, x.2, ops.length⟩, some event.timestamp⟩
  | _ => scan

/-- The removal goes before the operations on greater indices. -/
def insertRemoval (i : ℕ) (ops : List DateDividerOperation) : List DateDividerOperation :=
  if .remove i ∈ ops then ops
  else ops.insertIdx ((ops.findIdx? (i < ·.index)).getD ops.length) (.remove i)

/-- The trailing dividers, from the end; the loop stops at the last event. -/
def chaseTrailing : List (ℕ × TimelineItem C) → List DateDividerOperation → List DateDividerOperation
  | [], ops => ops
  | (i, item) :: items, ops =>
    if item.isEvent then ops else chaseTrailing items (if item.isDateDivider then insertRemoval i ops else ops)

/-- One operation, with the offset that the earlier ones have left. -/
def processOp (op : DateDividerOperation) (offset : ℤ) (o : ObservableItems C)
    (metadata : TimelineMetadata A) :
    Option (ℤ × ObservableItems C × TimelineMetadata A) :=
  match op with
  | .insert i ts => do
    let target := min (i + offset) o.items.length
    guard (0 ≤ target)
    let item := metadata.newTimelineItem (.dateDivider ts)
    let o ← o.pushDateDivider target.toNat item.1
    return (offset + 1, o, item.2)
  | .replace i ts => do
    guard (0 ≤ i + offset)
    let replaced ← o.items[(i + offset).toNat]?
    let o ← o.replace (i + offset).toNat ⟨.dateDivider ts, replaced.internalId⟩
    return (offset, o, metadata)
  | .remove i => do
    guard (0 ≤ i + offset)
    let (_, o) ← o.remove (i + offset).toNat
    return (offset - 1, o, metadata)

/-- The indices of the operations must not decrease. -/
def processOps : List DateDividerOperation → ℤ → ℕ → ObservableItems C → TimelineMetadata A →
    Option (ObservableItems C × TimelineMetadata A)
  | [], _, _, o, metadata => some (o, metadata)
  | op :: ops, offset, maxI, o, metadata => do
    guard (maxI ≤ op.index)
    let (offset, o, metadata) ← processOp op offset o metadata
    processOps ops offset op.index o metadata

/-! ## The invariants that are checked -/

/-- The first item that is an event or a date divider is no event. -/
def checkFirst : List (ℕ × TimelineItem C) → List DateDividerInsertError
  | [] => []
  | (_, item) :: items =>
    if item.isEvent then [.firstItemNotDateDivider] else if item.isDateDivider then [] else checkFirst items

def checkDuplicates : Bool → List (ℕ × TimelineItem C) → List DateDividerInsertError
  | _, [] => []
  | prevWasDateDivider, (i, item) :: items =>
    (if item.isDateDivider ∧ prevWasDateDivider then [.duplicateDateDivider i] else []) ++
      checkDuplicates item.isDateDivider items

/-- The dates of the events and of the dividers before them. -/
def checkDates : Option Timestamp → Option Timestamp → List (ℕ × TimelineItem C) → List DateDividerInsertError
  | _, _, [] => []
  | prevEventTs, prevDateDividerTs, (i, item) :: items =>
    match item.kind with
    | .event event =>
      (if prevEventTs.any fun prev => !isSameDateDividerGroupAs timestampToDate mode prev event.timestamp then
        [.missingDateDividerBetweenEvents i] else []) ++
      (match prevDateDividerTs with
        | some prev =>
          if isSameDateDividerGroupAs timestampToDate mode prev event.timestamp then []
          else [.inconsistentDateAfterPreviousDateDivider i]
        | none => [.missingDateDividerBeforeEvent i]) ++
      checkDates (some event.timestamp) prevDateDividerTs items
    | .dateDivider ts =>
      (if prevDateDividerTs.any fun prev => isSameDateDividerGroupAs timestampToDate mode prev ts then
        [.duplicateDateDivider i] else []) ++
      checkDates none (some ts) items
    | _ => checkDates prevEventTs prevDateDividerTs items

variable (o : ObservableItems C)

/-- The errors that are found; the initial state is recorded if traces are enabled. -/
def checkInvariants (initialState : Option (List (TimelineItem C))) : List DateDividerInsertError :=
  checkFirst o.iterRemotesAndLocalsRegions ++ checkDuplicates false o.iterRemotesAndLocalsRegions ++
    (if o.items.getLast?.any (·.isDateDivider) then [.trailingDateDivider] else []) ++
    checkDates timestampToDate mode none none o.iterRemotesAndLocalsRegions ++
    (if initialState.any (fun state => state.any (·.isReadMarker)) ∧
        ¬ o.iterRemotesAndLocalsRegions.any (·.2.isReadMarker) then [.readMarkerDisappeared] else [])

/-! ## Running the adjuster -/

/-- The operations that are recorded. -/
def recordOps : List DateDividerOperation :=
  let scan := o.iterRemotesAndLocalsRegions.foldl (scanItem timestampToDate mode) ⟨[], none, none⟩
  chaseTrailing o.iterRemotesAndLocalsRegions.reverse scan.ops

/-- In the mode without dividers. -/
def removeAllDateDividers (metadata : TimelineMetadata A) (debugAssertions : Bool) :
    Option (ObservableItems C × TimelineMetadata A) := do
  let ops := (o.iterRemotesAndLocalsRegions.filter (·.2.isDateDivider)).map fun x => .remove x.1
  let (o, metadata) ← processOps ops 0 0 o metadata
  guard ¬ (debugAssertions ∧ o.iterRemotesAndLocalsRegions.any (·.2.isDateDivider))
  return (o, metadata)

/-- With debug assertions a violated invariant is a panic. -/
def run (metadata : TimelineMetadata A) (debugAssertions traceEnabled : Bool) :
    Option (ObservableItems C × TimelineMetadata A) :=
  match mode with
  | .none => removeAllDateDividers o metadata debugAssertions
  | _ => do
    let initialState := if traceEnabled then some (o.iterRemotesAndLocalsRegions.map Prod.snd) else none
    let (o, metadata) ← processOps (recordOps timestampToDate mode o) 0 0 o metadata
    guard ¬ (debugAssertions ∧ checkInvariants timestampToDate mode o initialState ≠ [])
    return (o, metadata)

end Adjuster

end DateDividerAdjuster

end HaranaMatrix.Timeline
