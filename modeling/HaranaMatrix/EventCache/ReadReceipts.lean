import HaranaMatrix.Common.RingBuffer

/-!
# Unread counts

`compute_unread_counts` looks for the most recent receipt of the user among the events of the linked chunk,
in one loop from the last event back that also shrinks the stash of pending receipts, and then counts the
events after it. What an event is asked for here is its id, its sender, its type, its relation and its push
actions. Counters are not bounded.
-/

set_option linter.unusedSectionVars false

namespace HaranaMatrix.EventCache

open Common (RingBuffer Std)
open List
open Common.RingBuffer (Exact)

/-! ## Events -/

/-- The message-like event types that can mark a room as unread, and all others. -/
inductive MessageLikeEventType
  | message
  | pollStart
  | unstablePollStart
  | pollEnd
  | unstablePollEnd
  | roomEncrypted
  | roomMessage
  | sticker
  | other
deriving DecidableEq, Repr

inductive RelationType
  | annotation
  | reference
  | replacement
  | thread
  | other
deriving DecidableEq, Repr

/-- A push action. -/
inductive Action
  | notify
  /-- `set_tweak` with a highlight that is on -/
  | highlight
  | other
deriving DecidableEq, Repr

def Action.shouldNotify : Action → Bool
  | .notify => true
  | _ => false

def Action.isHighlight : Action → Bool
  | .highlight => true
  | _ => false

/-- What is read off an event: fields that are missing or do not parse are `none`. -/
structure TimelineEvent (EventId UserId : Type) where
  eventId : Option EventId
  sender : Option UserId
  eventType : Option MessageLikeEventType
  relation : Option RelationType
  threadRoot : Option EventId
  /-- `unsigned` has a `redacted_because` -/
  redacted : Bool
  pushActions : Option (List Action)
deriving DecidableEq, Repr

/-! ## Receipts -/

inductive ReceiptType
  | read
  | readPrivate
deriving DecidableEq, Repr

inductive ReceiptThread (EventId : Type)
  | unthreaded
  | main
  | thread (root : EventId)
  | custom
deriving DecidableEq, Repr

/-- The content of a receipt event: for every event, in the order of the map, the thread of the
receipt of each type and user. -/
abbrev ReceiptEventContent (EventId UserId : Type) :=
  List (EventId × (ReceiptType → UserId → Option (ReceiptThread EventId)))

def allReceiptTypes : List ReceiptType := [.readPrivate, .read]

/-- The trait `EventFilter`. -/
structure EventFilter (EventId UserId : Type) where
  filter : TimelineEvent EventId UserId → Bool
  receiptThreadMatches : ReceiptThread EventId → Bool
  storedReceiptEventForUser : UserId → ReceiptType → Option EventId

variable {EventId UserId : Type} [DecidableEq EventId] [DecidableEq UserId]

/-- `get_user_room_receipt_event` of the state store, for the room. A failure is `none`. -/
abbrev StateStore (EventId UserId : Type) :=
  ReceiptType → ReceiptThread EventId → UserId → Option EventId

def roomReadReceiptEventFilter (withThreadingSupport : Bool) (stateStore : StateStore EventId UserId) :
    EventFilter EventId UserId where
  filter event := !(withThreadingSupport && event.threadRoot.isSome)
  receiptThreadMatches
    | .unthreaded | .main => true
    | .thread _ => !withThreadingSupport
    | .custom => false
  storedReceiptEventForUser userId receiptType :=
    (stateStore receiptType .unthreaded userId).or (stateStore receiptType .main userId)

/-- The counts, the event of the latest receipt, and the events of receipts that were not found
yet. -/
structure ReadReceipts (EventId : Type) where
  numUnread : ℕ
  numNotifications : ℕ
  numMentions : ℕ
  latestActive : Option EventId
  pending : RingBuffer EventId

variable (event : TimelineEvent EventId UserId)

/-- Is the event worth marking a timeline as unread? -/
def marksAsUnread (userId : UserId) : Bool :=
  if event.sender = some userId then false
  else
    match event.eventType with
    | none | some .other => false
    | some _ => !(decide (event.relation = some .replacement)) && !event.redacted

namespace ReadReceipts

def default (std : Std) : ReadReceipts EventId := ⟨0, 0, 0, none, RingBuffer.new std ⟨10, by decide⟩⟩

/-- The loop of `process_event` over the push actions. -/
def processActions (hasNotify hasMention : Bool) : List Action → ReadReceipts EventId → ReadReceipts EventId
  | [], rr => rr
  | action :: actions, rr =>
    let notify := !hasNotify && action.shouldNotify
    let mention := !hasMention && action.isHighlight
    processActions (hasNotify || notify) (hasMention || mention) actions
      { rr with
        numNotifications := rr.numNotifications + notify.toNat
        numMentions := rr.numMentions + mention.toNat }

def processEvent (userId : UserId) (rr : ReadReceipts EventId) (event : TimelineEvent EventId UserId) :
    ReadReceipts EventId :=
  let rr := if marksAsUnread event userId then { rr with numUnread := rr.numUnread + 1 } else rr
  match event.pushActions with
  | none => rr
  | some actions =>
    if event.relation = some .replacement ∧ !actions.any Action.isHighlight then rr
    else processActions false false actions rr

def reset (rr : ReadReceipts EventId) : ReadReceipts EventId :=
  { rr with numUnread := 0, numNotifications := 0, numMentions := 0 }

/-- The counts, and whether the event of the receipt was found. -/
def findAndProcessEvents (receiptEventId : EventId) (userId : UserId) (countingReceipts : Bool) :
    List (TimelineEvent EventId UserId) → ReadReceipts EventId → ReadReceipts EventId × Bool
  | [], rr => (rr, countingReceipts)
  | event :: events, rr =>
    if event.eventId = some receiptEventId then
      findAndProcessEvents receiptEventId userId true events rr.reset
    else
      findAndProcessEvents receiptEventId userId countingReceipts events
        (if countingReceipts then rr.processEvent userId event else rr)

end ReadReceipts

section Compute

variable (std : Std) (userId : UserId) (eventFilter : EventFilter EventId UserId)

/-- The first loop of `select_best_receipt`: receipts of the user for this timeline go to the
stash. -/
def pushNewReceipts (newReceiptEvents : List (ReceiptEventContent EventId UserId))
    (pendingReceipts : RingBuffer EventId) : RingBuffer EventId :=
  newReceiptEvents.foldl (fun pending receiptEvent =>
    receiptEvent.foldl (fun pending x =>
      allReceiptTypes.foldl (fun pending ty =>
        match x.2 ty userId with
        | some thread => if eventFilter.receiptThreadMatches thread then pending.push std x.1 else pending
        | none => pending) pending) pending) pendingReceipts

/-- The receipt after an event was compared with the latest active receipt and with the user. -/
def selectActive (latestActive : Option EventId) (event : TimelineEvent EventId UserId) (eventId : EventId)
    (receipt : Option EventId) : Option EventId :=
  if receipt.isNone then
    if latestActive = some eventId then some eventId
    else if event.sender = some userId then some eventId
    else none
  else receipt

/-- The receipt after the stash was retained: the closure takes the event if an element of the stash
is it. -/
def selectPending (eventId : EventId) (pendingReceipts : RingBuffer EventId) (receipt : Option EventId) :
    Option EventId :=
  if receipt.isNone && pendingReceipts.inner.items.contains eventId then some eventId else receipt

/-- The second loop of `select_best_receipt`, over the events from the last one back. -/
def selectLoop (latestActive : Option EventId) :
    List (TimelineEvent EventId UserId × EventId) → Option EventId → RingBuffer EventId →
      Option EventId × RingBuffer EventId
  | [], receipt, pendingReceipts => (receipt, pendingReceipts)
  | (event, eventId) :: events, receipt, pendingReceipts =>
    let receipt := selectActive userId latestActive event eventId receipt
    if receipt.isSome && pendingReceipts.isEmpty then (receipt, pendingReceipts)
    else
      selectLoop latestActive events (selectPending eventId pendingReceipts receipt)
        (pendingReceipts.retain std fun pending => pending != eventId)

def selectBestReceipt (linkedChunk : List (TimelineEvent EventId UserId))
    (pendingReceipts : RingBuffer EventId)
    (newReceiptEvents : List (ReceiptEventContent EventId UserId)) (latestActive : Option EventId) :
    Option EventId × RingBuffer EventId :=
  selectLoop std userId latestActive
    (linkedChunk.reverse.filterMap fun event =>
      if eventFilter.filter event then event.eventId.map fun eventId => (event, eventId) else none)
    none (pushNewReceipts std userId eventFilter newReceiptEvents pendingReceipts)

def tryFindStoredReceipts (readReceipts : ReadReceipts EventId) : ReadReceipts EventId :=
  allReceiptTypes.foldl (fun rr receiptType =>
    match eventFilter.storedReceiptEventForUser userId receiptType with
    | none => rr
    | some eventId =>
      if rr.latestActive.isNone then { rr with latestActive := some eventId }
      else { rr with pending := rr.pending.push std eventId }) readReceipts

/-- The read receipts after it, and the events that a back-pagination was asked to look for, if one
was. -/
def computeUnreadCounts (receiptEvents : List (ReceiptEventContent EventId UserId))
    (linkedChunk : List (TimelineEvent EventId UserId)) (readReceipts : ReadReceipts EventId)
    (backPaginationQueue : Bool) : ReadReceipts EventId × Option (Finset EventId) :=
  let readReceipts :=
    if readReceipts.latestActive.isNone then tryFindStoredReceipts std userId eventFilter readReceipts
    else readReceipts
  let (betterReceipt, pending) :=
    selectBestReceipt std userId eventFilter linkedChunk readReceipts.pending receiptEvents readReceipts.latestActive
  let readReceipts := { readReceipts with pending }
  match betterReceipt with
  | some eventId =>
    (({ readReceipts with latestActive := some eventId }.findAndProcessEvents eventId userId false
      (linkedChunk.filter eventFilter.filter)).1, none)
  | none =>
    let targets := (readReceipts.pending.inner.items ++ readReceipts.latestActive.toList).toFinset
    ((linkedChunk.filter eventFilter.filter).foldl (ReadReceipts.processEvent userId) readReceipts.reset,
      if backPaginationQueue then some targets else none)

end Compute

/-! ## Counting -/

/-- An event notifies, an edit only when it highlights. -/
def notifies : Bool :=
  match event.pushActions with
  | none => false
  | some actions => actions.any Action.shouldNotify &&
      (!decide (event.relation = some .replacement) || actions.any Action.isHighlight)

def highlights : Bool :=
  match event.pushActions with
  | none => false
  | some actions => actions.any Action.isHighlight

namespace ReadReceipts

/-- The counts are those of `events`. -/
structure Counts (userId : UserId) (rr : ReadReceipts EventId)
    (events : List (TimelineEvent EventId UserId)) :
    Prop where
  unread : rr.numUnread = events.countP fun event => marksAsUnread event userId
  notifications : rr.numNotifications = events.countP notifies
  mentions : rr.numMentions = events.countP highlights

variable {userId : UserId} {rr : ReadReceipts EventId} {events : List (TimelineEvent EventId UserId)}

lemma processActions_eq (hasNotify hasMention : Bool) (actions : List Action) (rr : ReadReceipts EventId) :
    processActions hasNotify hasMention actions rr =
      { rr with
        numNotifications := rr.numNotifications + (!hasNotify && actions.any Action.shouldNotify).toNat
        numMentions := rr.numMentions + (!hasMention && actions.any Action.isHighlight).toNat } := by
  induction actions generalizing hasNotify hasMention rr with
  | nil => simp [processActions]
  | cons action actions ih =>
    rw [processActions, ih]
    cases hasNotify <;> cases hasMention <;> cases action.shouldNotify.eq_false_or_eq_true <;>
      cases action.isHighlight.eq_false_or_eq_true <;> simp_all

lemma processEvent_eq (event : TimelineEvent EventId UserId) (rr : ReadReceipts EventId) :
    rr.processEvent userId event =
      { rr with
        numUnread := rr.numUnread + (marksAsUnread event userId).toNat
        numNotifications := rr.numNotifications + (notifies event).toNat
        numMentions := rr.numMentions + (highlights event).toNat } := by
  unfold processEvent notifies highlights
  cases event.pushActions with
  | none => cases marksAsUnread event userId <;> rfl
  | some actions =>
    simp only [processActions_eq]
    by_cases hedit : event.relation = some .replacement <;>
      cases hmark : marksAsUnread event userId <;> cases hhigh : actions.any Action.isHighlight <;>
      simp [hedit]

lemma foldl_processEvent_eq (events : List (TimelineEvent EventId UserId)) (rr : ReadReceipts EventId) :
    events.foldl (processEvent userId) rr =
      { rr with
        numUnread := rr.numUnread + events.countP fun event => marksAsUnread event userId
        numNotifications := rr.numNotifications + events.countP notifies
        numMentions := rr.numMentions + events.countP highlights } := by
  induction events generalizing rr with
  | nil => rfl
  | cons event events ih =>
    have htoNat : ∀ b : Bool, b.toNat = if b = true then 1 else 0 := by decide
    rw [foldl_cons, ih, processEvent_eq]
    simp only [countP_cons, htoNat, mk.injEq, and_true]
    omega

/-- The counts that a recount of `events` gives. -/
def recount (userId : UserId) (rr : ReadReceipts EventId) (events : List (TimelineEvent EventId UserId)) :
    ReadReceipts EventId :=
  { rr with
    numUnread := events.countP fun event => marksAsUnread event userId
    numNotifications := events.countP notifies
    numMentions := events.countP highlights }

lemma foldl_processEvent_reset : events.foldl (processEvent userId) rr.reset = rr.recount userId events := by
  rw [foldl_processEvent_eq]
  simp [reset, recount]

lemma counts_recount : (rr.recount userId events).Counts userId events := ⟨rfl, rfl, rfl⟩

variable {receiptEventId : EventId}

/-- The events after the last one with the id. -/
def after (receiptEventId : EventId) (events : List (TimelineEvent EventId UserId)) :
    List (TimelineEvent EventId UserId) :=
  events.rtakeWhile fun event => event.eventId ≠ some receiptEventId

lemma after_eq {before : List (TimelineEvent EventId UserId)} {event : TimelineEvent EventId UserId}
    {rest : List (TimelineEvent EventId UserId)} (hevent : event.eventId = some receiptEventId)
    (hrest : ∀ y ∈ rest, y.eventId ≠ some receiptEventId) :
    after receiptEventId (before ++ event :: rest) = rest := by
  unfold after
  induction rest using List.reverseRecOn with
  | nil => rw [rtakeWhile_concat_neg _ _ _ (by simpa using hevent)]
  | append_singleton rest y ih =>
    have hy : y.eventId ≠ some receiptEventId := hrest y (by simp)
    have hinit : ∀ z ∈ rest, z.eventId ≠ some receiptEventId := fun z hz => hrest z (by simp [hz])
    rw [← cons_append, ← append_assoc, rtakeWhile_concat_pos _ _ _ (by simpa using hy), ih hinit]

lemma findAndProcessEvents_rest (hevents : ∀ y ∈ events, y.eventId ≠ some receiptEventId) :
    findAndProcessEvents receiptEventId userId true events rr =
      (events.foldl (processEvent userId) rr, true) := by
  induction events generalizing rr with
  | nil => rfl
  | cons event events ih =>
    obtain ⟨hevent, hrest⟩ := forall_mem_cons.1 hevents
    rw [findAndProcessEvents, if_neg hevent, ih hrest]
    rfl

lemma findAndProcessEvents_append (counting : Bool) (before rest : List (TimelineEvent EventId UserId))
    (rr : ReadReceipts EventId) : findAndProcessEvents receiptEventId userId counting (before ++ rest) rr =
      findAndProcessEvents receiptEventId userId
        (findAndProcessEvents receiptEventId userId counting before rr).2 rest
        (findAndProcessEvents receiptEventId userId counting before rr).1 := by
  induction before generalizing counting rr with
  | nil => rfl
  | cons event before ih =>
    rw [cons_append, findAndProcessEvents, findAndProcessEvents]
    split <;> exact ih _ _

lemma recount_findAndProcessEvents (counting : Bool) (before rest : List (TimelineEvent EventId UserId))
    (rr : ReadReceipts EventId) :
    (findAndProcessEvents receiptEventId userId counting before rr).1.recount userId rest =
      rr.recount userId rest := by
  induction before generalizing counting rr with
  | nil => rfl
  | cons event before ih =>
    rw [findAndProcessEvents]
    split
    · rw [ih]
      rfl
    · rw [ih]
      split
      · rw [processEvent_eq]
        rfl
      · rfl

lemma exists_last {p : TimelineEvent EventId UserId → Prop} (h : ∃ y ∈ events, p y) :
    ∃ before event rest, events = before ++ event :: rest ∧ p event ∧ ∀ y ∈ rest, ¬ p y := by
  induction events with
  | nil => simp at h
  | cons event events ih =>
    by_cases hlater : ∃ y ∈ events, p y
    · obtain ⟨before, last, rest, rfl, hlast, hrest⟩ := ih hlater
      exact ⟨event :: before, last, rest, rfl, hlast, hrest⟩
    · push Not at hlater
      obtain ⟨y, hy, hp⟩ := h
      rcases mem_cons.1 hy with rfl | hy
      · exact ⟨[], y, events, rfl, hp, hlater⟩
      · exact absurd hp (hlater y hy)

/-- **The counts are those of the events after the last occurrence.** -/
lemma findAndProcessEvents_found (hfound : ∃ y ∈ events, y.eventId = some receiptEventId) :
    findAndProcessEvents receiptEventId userId false events rr =
      (rr.recount userId (after receiptEventId events), true) := by
  obtain ⟨before, event, rest, rfl, hevent, hrest⟩ := exists_last hfound
  rw [after_eq hevent hrest, findAndProcessEvents_append, findAndProcessEvents, if_pos hevent,
    findAndProcessEvents_rest hrest, foldl_processEvent_reset, recount_findAndProcessEvents]

end ReadReceipts

/-! ## Selecting the receipt -/

section Select

variable {std : Std} {userId : UserId} {eventFilter : EventFilter EventId UserId}
  {latestActive : Option EventId}
  {events : List (TimelineEvent EventId UserId × EventId)} {pendingReceipts : RingBuffer EventId}

/-- The events that the user has read: it is the latest receipt, the user sent it, or a receipt
names it. -/
def isRead (userId : UserId) (latestActive : Option EventId) (named : List EventId)
    (x : TimelineEvent EventId UserId × EventId) : Bool :=
  decide (latestActive = some x.2) || decide (x.1.sender = some userId) || named.contains x.2

@[simp] lemma selectPending_some (x eventId : EventId) :
    selectPending x pendingReceipts (some eventId) = some eventId := rfl

@[simp] lemma selectActive_some (event : TimelineEvent EventId UserId) (x eventId : EventId) :
    selectActive userId latestActive event x (some eventId) = some eventId := rfl

lemma selectLoop_cons (x : TimelineEvent EventId UserId × EventId) (receipt : Option EventId) :
    selectLoop std userId latestActive (x :: events) receipt pendingReceipts =
      if (selectActive userId latestActive x.1 x.2 receipt).isSome && pendingReceipts.isEmpty then
        (selectActive userId latestActive x.1 x.2 receipt, pendingReceipts)
      else
        selectLoop std userId latestActive events
          (selectPending x.2 pendingReceipts (selectActive userId latestActive x.1 x.2 receipt))
          (pendingReceipts.retain std fun pending => pending != x.2) := rfl

lemma selectLoop_found (eventId : EventId) :
    (selectLoop std userId latestActive events (some eventId) pendingReceipts).1 = some eventId := by
  induction events generalizing pendingReceipts with
  | nil => rfl
  | cons x events ih =>
    rw [selectLoop_cons, selectActive_some, selectPending_some]
    by_cases hbreak : (some eventId).isSome && pendingReceipts.isEmpty
    · rw [if_pos hbreak]
    · rw [if_neg hbreak, ih]

lemma selectActive_none (x : TimelineEvent EventId UserId × EventId) :
    selectPending x.2 pendingReceipts (selectActive userId latestActive x.1 x.2 none) =
      if isRead userId latestActive pendingReceipts.inner.items x then some x.2 else none := by
  unfold selectPending selectActive isRead
  by_cases hlatest : latestActive = some x.2
  · simp [hlatest]
  · by_cases hsender : x.1.sender = some userId <;> simp [hlatest, hsender]

lemma selectLoop_receipt : (selectLoop std userId latestActive events none pendingReceipts).1 =
    (events.find? (isRead userId latestActive pendingReceipts.inner.items)).map Prod.snd := by
  induction events generalizing pendingReceipts with
  | nil => rfl
  | cons x events ih =>
    have hselect : selectPending x.2 pendingReceipts (selectActive userId latestActive x.1 x.2 none) =
      if isRead userId latestActive pendingReceipts.inner.items x then some x.2 else none := selectActive_none x
    rw [selectLoop_cons]
    by_cases hbreak : (selectActive userId latestActive x.1 x.2 none).isSome && pendingReceipts.isEmpty
    · obtain ⟨eventId, hactive⟩ := Option.isSome_iff_exists.1 (Bool.and_eq_true_iff.1 hbreak).1
      rw [hactive, selectPending_some] at hselect
      rw [if_pos hbreak, hactive, hselect]
      by_cases hread : isRead userId latestActive pendingReceipts.inner.items x
      · rw [if_pos hread, List.find?_cons_of_pos hread]
        rfl
      · rw [if_neg hread] at hselect
        cases hselect
    · rw [if_neg hbreak, hselect]
      by_cases hread : isRead userId latestActive pendingReceipts.inner.items x
      · rw [if_pos hread, selectLoop_found, List.find?_cons_of_pos hread]
        rfl
      · -- no element of the stash is the event, so the stash stays as it is
        have hmem : x.2 ∉ pendingReceipts.inner.items := by
          intro hmem
          simp [isRead, hmem] at hread
        have hkept : (pendingReceipts.retain std fun pending => pending != x.2).inner.items =
            pendingReceipts.inner.items := by
          refine filter_eq_self.2 fun pending hpending => ?_
          rw [bne_iff_ne]
          rintro rfl
          exact hmem hpending
        rw [if_neg hread, ih, hkept, List.find?_cons_of_neg hread]

lemma selectLoop_pending (receipt : Option EventId) :
    (selectLoop std userId latestActive events receipt pendingReceipts).2.inner.items =
      pendingReceipts.inner.items.filter fun pending => events.all fun x => x.2 != pending := by
  induction events generalizing receipt pendingReceipts with
  | nil => simp [selectLoop]
  | cons x events ih =>
    rw [selectLoop_cons]
    by_cases hbreak : (selectActive userId latestActive x.1 x.2 receipt).isSome && pendingReceipts.isEmpty
    · -- the loop ends early only with an empty stash
      have hempty : pendingReceipts.inner.items = [] := isEmpty_iff.1 (Bool.and_eq_true_iff.1 hbreak).2
      rw [if_pos hbreak]
      simp [hempty]
    · rw [if_neg hbreak, ih]
      simp only [RingBuffer.retain, Common.VecDeque.retain, Common.VecDeque.alloc, filter_filter, all_cons]
      refine filter_congr fun pending _ => ?_
      rw [Bool.and_comm, bne_comm]

lemma selectLoop_capacity (he : Exact std) (receipt : Option EventId) :
    (selectLoop std userId latestActive events receipt pendingReceipts).2.inner.capacity =
        pendingReceipts.inner.capacity ∧
      (selectLoop std userId latestActive events receipt pendingReceipts).2.capacity =
        pendingReceipts.capacity := by
  induction events generalizing receipt pendingReceipts with
  | nil => exact ⟨rfl, rfl⟩
  | cons x events ih =>
    rw [selectLoop_cons]
    by_cases hbreak : (selectActive userId latestActive x.1 x.2 receipt).isSome && pendingReceipts.isEmpty
    · rw [if_pos hbreak]
      exact ⟨rfl, rfl⟩
    · rw [if_neg hbreak]
      obtain ⟨hinner, hcapacity⟩ := ih
        (selectPending x.2 pendingReceipts (selectActive userId latestActive x.1 x.2 receipt))
      exact ⟨hinner.trans (he.retain_capacity _), hcapacity⟩

end Select

/-! ## The receipts that count -/

section Compute

variable (std : Std) (userId : UserId) (eventFilter : EventFilter EventId UserId)

/-- The events that the new receipts of the user for this timeline name. -/
def matching (newReceiptEvents : List (ReceiptEventContent EventId UserId)) : List EventId :=
  newReceiptEvents.flatMap fun receiptEvent =>
    receiptEvent.flatMap fun x =>
      (allReceiptTypes.filter fun ty => (x.2 ty userId).any eventFilter.receiptThreadMatches).map fun _ => x.1

/-- The events that the stored receipts of the user name. -/
def stored : List EventId := allReceiptTypes.filterMap (eventFilter.storedReceiptEventForUser userId)

/-- The latest receipt, or the first one reloaded when there was none. -/
def previous (rr : ReadReceipts EventId) : Option EventId :=
    rr.latestActive.or (stored userId eventFilter).head?

/-- The events that go to the stash when receipts are reloaded. -/
def reloaded (rr : ReadReceipts EventId) : List EventId :=
  if rr.latestActive.isNone then (stored userId eventFilter).tail else []

lemma pushNewReceipts_eq (newReceiptEvents : List (ReceiptEventContent EventId UserId))
    (pendingReceipts : RingBuffer EventId) :
    pushNewReceipts std userId eventFilter newReceiptEvents pendingReceipts =
      pendingReceipts.extend std (matching userId eventFilter newReceiptEvents) := by
  unfold pushNewReceipts matching RingBuffer.extend
  rw [foldl_flatMap]
  congr 1
  funext pending receiptEvent
  rw [foldl_flatMap]
  congr 1
  funext pending x
  rw [foldl_map, foldl_filter]
  congr 1
  funext pending ty
  cases x.2 ty userId <;> rfl

lemma tryFindStoredReceipts_eq {rr : ReadReceipts EventId} :
    (if rr.latestActive.isNone then tryFindStoredReceipts std userId eventFilter rr else rr) =
      { rr with
        latestActive := previous userId eventFilter rr
        pending := rr.pending.extend std (reloaded userId eventFilter rr) } := by
  obtain ⟨unread, notifications, mentions, latestActive, pending⟩ := rr
  cases latestActive with
  | some eventId => rfl
  | none =>
    simp only [previous, reloaded, stored, tryFindStoredReceipts, allReceiptTypes, foldl_cons, foldl_nil]
    cases h₁ : eventFilter.storedReceiptEventForUser userId .readPrivate <;>
      cases h₂ : eventFilter.storedReceiptEventForUser userId .read <;>
      simp [h₁, h₂, RingBuffer.extend]

/-- The events of the linked chunk that the loop looks at, from the last one back. -/
def candidates (linkedChunk : List (TimelineEvent EventId UserId)) :
    List (TimelineEvent EventId UserId × EventId) :=
  linkedChunk.reverse.filterMap fun event =>
    if eventFilter.filter event then event.eventId.map fun eventId => (event, eventId) else none

lemma mem_candidates {linkedChunk : List (TimelineEvent EventId UserId)}
    {x : TimelineEvent EventId UserId × EventId} :
    x ∈ candidates eventFilter linkedChunk ↔ x.1 ∈ linkedChunk.filter eventFilter.filter ∧
      x.1.eventId = some x.2 := by
  obtain ⟨event, eventId⟩ := x
  simp only [candidates, mem_filterMap, mem_reverse, mem_filter]
  constructor
  · rintro ⟨event', hmem, hx⟩
    split at hx
    next hfilter =>
      obtain ⟨id, hid, hx⟩ := Option.map_eq_some_iff.1 hx
      cases hx
      exact ⟨⟨hmem, hfilter⟩, hid⟩
    next => cases hx
  · rintro ⟨⟨hmem, hfilter⟩, hid⟩
    exact ⟨event, hmem, by rw [if_pos hfilter, hid]; rfl⟩

/-- The receipt that is selected, and the stash then. -/
def selected (receiptEvents : List (ReceiptEventContent EventId UserId))
    (linkedChunk : List (TimelineEvent EventId UserId)) (rr : ReadReceipts EventId) :
    Option EventId × RingBuffer EventId :=
  selectLoop std userId (previous userId eventFilter rr) (candidates eventFilter linkedChunk) none
    (rr.pending.extend std (reloaded userId eventFilter rr ++ matching userId eventFilter receiptEvents))

variable {std userId eventFilter} {receiptEvents : List (ReceiptEventContent EventId UserId)}
  {linkedChunk : List (TimelineEvent EventId UserId)} {rr : ReadReceipts EventId} {backPaginationQueue : Bool}

lemma selectBestReceipt_eq :
    selectBestReceipt std userId eventFilter linkedChunk
        (rr.pending.extend std (reloaded userId eventFilter rr)) receiptEvents (previous userId eventFilter rr) =
      selected std userId eventFilter receiptEvents linkedChunk rr := by
  unfold selectBestReceipt selected candidates
  rw [pushNewReceipts_eq]
  congr 1
  exact (foldl_append ..).symm

/-- The events that the counts are those of. -/
def counted (filtered : List (TimelineEvent EventId UserId)) :
    Option EventId → List (TimelineEvent EventId UserId)
  | some eventId => ReadReceipts.after eventId filtered
  | none => filtered

/-- **What the computation gives**, in terms of the receipt selected. -/
lemma computeUnreadCounts_eq :
    (computeUnreadCounts std userId eventFilter receiptEvents linkedChunk rr backPaginationQueue).1 =
      ReadReceipts.recount userId
        { rr with
          latestActive := (selected std userId eventFilter receiptEvents linkedChunk rr).1.or
            (previous userId eventFilter rr)
          pending := (selected std userId eventFilter receiptEvents linkedChunk rr).2 }
        (counted (linkedChunk.filter eventFilter.filter)
          (selected std userId eventFilter receiptEvents linkedChunk rr).1) := by
  unfold computeUnreadCounts
  rw [tryFindStoredReceipts_eq]
  simp only [selectBestReceipt_eq]
  cases hselected : (selected std userId eventFilter receiptEvents linkedChunk rr).1 with
  | none => exact ReadReceipts.foldl_processEvent_reset
  | some eventId =>
    have hfound : ∃ y ∈ linkedChunk.filter eventFilter.filter, y.eventId = some eventId := by
      unfold selected at hselected
      rw [selectLoop_receipt] at hselected
      obtain ⟨x, hx, rfl⟩ := Option.map_eq_some_iff.1 hselected
      exact ⟨x.1, (mem_candidates eventFilter).1 (mem_of_find?_eq_some hx)⟩
    simp only [ReadReceipts.findAndProcessEvents_found hfound]
    rfl

/-- The events named by a receipt that has not been matched to its event: the old ones, those
reloaded and the new ones. -/
def named (userId : UserId) (eventFilter : EventFilter EventId UserId)
    (receiptEvents : List (ReceiptEventContent EventId UserId)) (rr : ReadReceipts EventId) : List EventId :=
  rr.pending.inner.items ++ (reloaded userId eventFilter rr ++ matching userId eventFilter receiptEvents)

/-- The stash has room for them. -/
def HasRoom (userId : UserId) (eventFilter : EventFilter EventId UserId)
    (receiptEvents : List (ReceiptEventContent EventId UserId)) (rr : ReadReceipts EventId) : Prop :=
  (named userId eventFilter receiptEvents rr).length ≤ rr.pending.inner.capacity

/-- The event has this id, and it is the latest receipt, the user sent it or a receipt names it. -/
def IsRead (userId : UserId) (latestActive : Option EventId) (named : List EventId)
    (event : TimelineEvent EventId UserId) (eventId : EventId) : Prop :=
  event.eventId = some eventId ∧ (latestActive = some eventId ∨ event.sender = some userId ∨ eventId ∈ named)

lemma isRead_iff {latestActive : Option EventId} {named : List EventId}
    {x : TimelineEvent EventId UserId × EventId} (hx : x.1.eventId = some x.2) :
    isRead userId latestActive named x = true ↔ IsRead userId latestActive named x.1 x.2 := by
  simp [isRead, IsRead, hx, or_assoc]

lemma candidates_eq : candidates eventFilter linkedChunk =
    (linkedChunk.filter eventFilter.filter).reverse.filterMap fun event =>
      event.eventId.map fun eventId => (event, eventId) := by
  rw [candidates, ← filter_reverse, filterMap_filter]

section Room

variable (he : Exact std) (hroom : HasRoom userId eventFilter receiptEvents rr)
include he hroom

lemma extend_named :
    (rr.pending.extend std (reloaded userId eventFilter rr ++ matching userId eventFilter receiptEvents)).inner.items =
      named userId eventFilter receiptEvents rr :=
  (he.extend_room _ ((length_append ..).symm.trans_le hroom)).1

lemma selected_fst :
    (selected std userId eventFilter receiptEvents linkedChunk rr).1 =
      ((candidates eventFilter linkedChunk).find?
        (isRead userId (previous userId eventFilter rr) (named userId eventFilter receiptEvents rr))).map Prod.snd := by
  rw [selected, selectLoop_receipt, extend_named he hroom]

lemma selected_pending :
    (selected std userId eventFilter receiptEvents linkedChunk rr).2.inner.items =
      (named userId eventFilter receiptEvents rr).filter fun pending =>
        (linkedChunk.filter eventFilter.filter).all fun event => event.eventId != some pending := by
  rw [selected, selectLoop_pending, extend_named he hroom]
  refine filter_congr fun pending _ => ?_
  rw [Bool.eq_iff_iff, all_eq_true, all_eq_true]
  simp only [bne_iff_ne]
  constructor
  · rintro h event hevent hid
    exact h (event, pending) ((mem_candidates eventFilter).2 ⟨hevent, hid⟩) rfl
  · rintro h x hx rfl
    obtain ⟨hmem, hid⟩ := (mem_candidates eventFilter).1 hx
    exact h x.1 hmem hid

lemma selected_of_last {before rest : List (TimelineEvent EventId UserId)}
    {event : TimelineEvent EventId UserId}
    {eventId : EventId} (hfiltered : linkedChunk.filter eventFilter.filter = before ++ event :: rest)
    (hread : IsRead userId (previous userId eventFilter rr) (named userId eventFilter receiptEvents rr) event eventId)
    (hrest : ∀ y ∈ rest, ∀ id,
      ¬ IsRead userId (previous userId eventFilter rr) (named userId eventFilter receiptEvents rr) y id) :
    (selected std userId eventFilter receiptEvents linkedChunk rr).1 = some eventId := by
  have hnone : (rest.reverse.filterMap fun event => event.eventId.map fun eventId => (event, eventId)).find?
      (isRead userId (previous userId eventFilter rr) (named userId eventFilter receiptEvents rr)) = none := by
    refine List.find?_eq_none.2 fun x hx hisRead => ?_
    obtain ⟨y, hy, hx⟩ := mem_filterMap.1 hx
    obtain ⟨id, hid, rfl⟩ := Option.map_eq_some_iff.1 hx
    exact hrest y (mem_reverse.1 hy) id ((isRead_iff hid).1 hisRead)
  rw [selected_fst he hroom, candidates_eq, hfiltered, reverse_append, reverse_cons, append_assoc,
    filterMap_append, List.find?_append, hnone, Option.none_or, singleton_append,
    filterMap_cons, hread.1]
  simp only [Option.map_some]
  rw [List.find?_cons_of_pos ((isRead_iff hread.1).2 hread)]
  rfl

lemma selected_of_none (h : ∀ event ∈ linkedChunk.filter eventFilter.filter, ∀ eventId,
      ¬ IsRead userId (previous userId eventFilter rr)
        (named userId eventFilter receiptEvents rr) event eventId) :
    (selected std userId eventFilter receiptEvents linkedChunk rr).1 = none := by
  rw [selected_fst he hroom, Option.map_eq_none_iff]
  refine List.find?_eq_none.2 fun x hx hisRead => ?_
  obtain ⟨hmem, hid⟩ := (mem_candidates eventFilter).1 hx
  exact h x.1 hmem x.2 ((isRead_iff hid).1 hisRead)

end Room

/-! ### Running it again -/

section Again

variable {rr' : ReadReceipts EventId} {receipt : Option EventId}

lemma reload_again (h : rr'.latestActive = receipt.or (previous userId eventFilter rr)) :
    previous userId eventFilter rr' = rr'.latestActive ∧ reloaded userId eventFilter rr' = [] := by
  cases hlatest : rr'.latestActive with
  | some eventId => simp [previous, reloaded, hlatest]
  | none =>
    rw [hlatest, eq_comm, Option.or_eq_none_iff] at h
    have hstored : (stored userId eventFilter).head? = none := (Option.or_eq_none_iff.1 h.2).2
    have hnil : stored userId eventFilter = [] := List.head?_eq_none_iff.1 hstored
    simp [previous, reloaded, hlatest, hnil]

lemma find?_again {events : List (TimelineEvent EventId UserId × EventId)} {latestActive : Option EventId}
    {names : List EventId} :
    (events.find? (isRead userId (((events.find? (isRead userId latestActive names)).map Prod.snd).or latestActive)
      (names.filter fun pending => events.all fun x => x.2 != pending))).map Prod.snd =
      (events.find? (isRead userId latestActive names)).map Prod.snd := by
  -- what is left in the stash names no event
  have hleft : ∀ y ∈ events, y.2 ∉ names.filter fun pending => events.all fun x => x.2 != pending := by
    intro y hy hmem
    have hall := all_eq_true.1 (mem_filter.1 hmem).2 y hy
    exact bne_iff_ne.1 hall rfl
  cases hfind : events.find? (isRead userId latestActive names) with
  | none =>
    rw [Option.map_none, Option.none_or, Option.map_eq_none_iff]
    refine List.find?_eq_none.2 fun y hy hagain => List.find?_eq_none.1 hfind y hy ?_
    simp only [isRead, Bool.or_eq_true, decide_eq_true_eq, contains_iff_mem] at hagain ⊢
    rcases hagain with hagain | hmem
    · exact .inl hagain
    · exact absurd hmem (hleft y hy)
  | some x =>
    obtain ⟨hx, earlier, later, rfl, hearlier⟩ := List.find?_eq_some_iff_append.1 hfind
    rw [Option.map_some, Option.some_or, List.find?_append, List.find?_cons_of_pos (by simp [isRead])]
    cases hagain : earlier.find? (isRead userId (some x.2)
        (names.filter fun pending => (earlier ++ x :: later).all fun x => x.2 != pending)) with
    | none => rfl
    | some y =>
      have hy : y ∈ earlier := mem_of_find?_eq_some hagain
      have hread := List.find?_some hagain
      have hnot := hearlier y hy
      simp only [isRead, Bool.or_eq_true, decide_eq_true_eq, contains_iff_mem, Bool.not_eq_true',
        Bool.or_eq_false_iff, decide_eq_false_iff_not] at hread hnot
      rcases hread with (hlatest | hsender) | hmem
      · simp [hlatest]
      · exact absurd hsender hnot.1.2
      · exact absurd hmem (hleft y (mem_append_left _ hy))

lemma ringBuffer_ext {a b : RingBuffer EventId} (hitems : a.inner.items = b.inner.items)
    (hinner : a.inner.capacity = b.inner.capacity) (hcapacity : a.capacity = b.capacity) : a = b := by
  obtain ⟨⟨items', capacity', le'⟩, c'⟩ := b
  cases hitems
  cases hinner
  cases hcapacity
  rfl

lemma selected_again (he : Exact std) (hroom : HasRoom userId eventFilter receiptEvents rr)
    (hlatest : rr'.latestActive = (selected std userId eventFilter receiptEvents linkedChunk rr).1.or
      (previous userId eventFilter rr))
    (hpending : rr'.pending = (selected std userId eventFilter receiptEvents linkedChunk rr).2) :
    selected std userId eventFilter [] linkedChunk rr' =
      ((selected std userId eventFilter receiptEvents linkedChunk rr).1, rr'.pending) := by
  obtain ⟨hprevious, hreloaded⟩ := reload_again hlatest
  have hselected : selected std userId eventFilter [] linkedChunk rr' =
      selectLoop std userId rr'.latestActive (candidates eventFilter linkedChunk) none rr'.pending := by
    rw [selected, hprevious, hreloaded]
    rfl
  have hitems : rr'.pending.inner.items = (named userId eventFilter receiptEvents rr).filter fun pending =>
      (candidates eventFilter linkedChunk).all fun x => x.2 != pending := by
    rw [hpending, selected, selectLoop_pending, extend_named he hroom]
  rw [hselected]
  refine Prod.ext ?_ (ringBuffer_ext ?_ (selectLoop_capacity he none).1 (selectLoop_capacity he none).2)
  · rw [selectLoop_receipt, hlatest, hitems, selected_fst he hroom]
    exact find?_again
  · rw [selectLoop_pending, hitems, filter_filter]
    simp only [Bool.and_self]

lemma computeUnreadCounts_again (he : Exact std) (hroom : HasRoom userId eventFilter receiptEvents rr)
    (hout : (computeUnreadCounts std userId eventFilter receiptEvents linkedChunk rr backPaginationQueue).1 = rr') :
    (computeUnreadCounts std userId eventFilter [] linkedChunk rr' backPaginationQueue).1 = rr' := by
  rw [computeUnreadCounts_eq] at hout ⊢
  have hlatest : rr'.latestActive = (selected std userId eventFilter receiptEvents linkedChunk rr).1.or
      (previous userId eventFilter rr) := by rw [← hout]; rfl
  have hpending : rr'.pending = (selected std userId eventFilter receiptEvents linkedChunk rr).2 := by
    rw [← hout]
    rfl
  have hor : (selected std userId eventFilter receiptEvents linkedChunk rr).1.or rr'.latestActive =
      rr'.latestActive := by rw [hlatest, ← Option.or_assoc, Option.or_self]
  rw [selected_again he hroom hlatest hpending, (reload_again hlatest).1]
  simp only [hor]
  rw [← hout]
  rfl

end Again

/-- **Unread counts start right after the latest receipt.** If an event was read, the last one is
the latest receipt and the counts are those of the events after its last occurrence. Otherwise the
latest receipt is the previous one, or the one reloaded when there was none, and the counts are
those of all events. The receipts left in the stash are those of no event, and running it again
changes nothing. -/
theorem computeUnreadCounts_latest (he : Exact std) (hroom : HasRoom userId eventFilter receiptEvents rr) :
    let filtered := linkedChunk.filter eventFilter.filter
    let read := IsRead userId (previous userId eventFilter rr) (named userId eventFilter receiptEvents rr)
    let out := (computeUnreadCounts std userId eventFilter receiptEvents linkedChunk rr backPaginationQueue).1
    (∀ before event rest eventId, filtered = before ++ event :: rest → read event eventId →
      (∀ y ∈ rest, ∀ id, ¬ read y id) →
      out.latestActive = some eventId ∧
        ∀ before' event' rest', filtered = before' ++ event' :: rest' → event'.eventId = some eventId →
          (∀ y ∈ rest', y.eventId ≠ some eventId) → out.Counts userId rest') ∧
    ((∀ event ∈ filtered, ∀ eventId, ¬ read event eventId) →
      out.latestActive = previous userId eventFilter rr ∧ out.Counts userId filtered) ∧
    out.pending.inner.items = (named userId eventFilter receiptEvents rr).filter (fun pending =>
      filtered.all fun event => event.eventId != some pending) ∧
    (computeUnreadCounts std userId eventFilter [] linkedChunk out backPaginationQueue).1 = out := by
  refine ⟨?_, ?_, ?_, computeUnreadCounts_again he hroom rfl⟩ <;> rw [computeUnreadCounts_eq]
  · intro before event rest eventId hfiltered hread hrest
    rw [selected_of_last he hroom hfiltered hread hrest]
    refine ⟨rfl, fun before' event' rest' hfiltered' hevent' hrest' => ?_⟩
    rw [hfiltered', counted, ReadReceipts.after_eq hevent' hrest']
    exact ReadReceipts.counts_recount
  · intro hnone
    rw [selected_of_none he hroom hnone]
    exact ⟨rfl, ReadReceipts.counts_recount⟩
  · exact selected_pending he hroom

/-- Three messages, the second one of the user: the last one is unread, and notifies. -/
theorem computeUnreadCounts_latest_own_message :
    let message (eventId sender : ℕ) : TimelineEvent ℕ ℕ :=
      ⟨some eventId, some sender, some .roomMessage, none, none, false, some [.notify]⟩
    let out := (computeUnreadCounts RingBuffer.vecDequeStd 7 (roomReadReceiptEventFilter true fun _ _ _ => none)
      [[(1, fun _ _ => some .unthreaded)]] [message 1 8, message 2 7, message 3 8]
      (ReadReceipts.default RingBuffer.vecDequeStd) false).1
    out.latestActive = some 2 ∧ out.numUnread = 1 ∧ out.numNotifications = 1 ∧ out.numMentions = 0 := by
  intro message out
  obtain ⟨hlast, -, -, -⟩ := @computeUnreadCounts_latest ℕ ℕ _ _ RingBuffer.vecDequeStd 7
    (roomReadReceiptEventFilter true fun _ _ _ => none) [[(1, fun _ _ => some .unthreaded)]]
    [message 1 8, message 2 7, message 3 8] (ReadReceipts.default RingBuffer.vecDequeStd) false
    RingBuffer.exact_vecDequeStd (by unfold HasRoom; decide)
  obtain ⟨hlatest, hcounts⟩ := hlast [message 1 8] (message 2 7) [message 3 8] 2 rfl
    ⟨rfl, .inr (.inl rfl)⟩ (by
      rintro y hy id ⟨hid, hread⟩
      cases mem_singleton.1 hy
      cases hid
      revert hread
      decide)
  have hcount := hcounts [message 1 8] (message 2 7) [message 3 8] rfl rfl (by simp [message])
  exact ⟨hlatest, hcount.unread, hcount.notifications, hcount.mentions⟩

/-- **Reloaded receipts stay.** There is no latest receipt, no pending one and no event; the store
has a private receipt and a public one. The first becomes the latest receipt, the second goes to the
stash. -/
theorem reloaded_receipts_stay :
    let store : StateStore ℕ ℕ := fun
      | .readPrivate, .unthreaded, _ => some 1
      | .read, .unthreaded, _ => some 2
      | _, _, _ => none
    let rr : ReadReceipts ℕ := ReadReceipts.default RingBuffer.vecDequeStd
    let out := (computeUnreadCounts RingBuffer.vecDequeStd 7 (roomReadReceiptEventFilter true store) [] [] rr false).1
    (rr.latestActive = none ∧ rr.pending.inner.items = []) ∧
      out.latestActive = some 1 ∧ out.pending.inner.items = [2] := by
  exact ⟨⟨rfl, rfl⟩, rfl, rfl⟩

end Compute

end HaranaMatrix.EventCache
