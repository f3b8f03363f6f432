import Mathlib.Data.List.Sort
import HaranaMatrix.Lib.Grouped

/-!
# The send queue of a room

Requests wait in a store, and one task sends them. Clients push requests, and edit or abort those
that are queued: one that is being sent cannot be changed any more, so what was asked for is kept as
a dependent request until the outcome is known. Each operation holds the lock of the store and is
one step.

Media, reactions and replies are left out. `C` is the content of an event as a client gives it, `W`
the error of a request that cannot be sent. -/

namespace HaranaMatrix.SendQueue

abbrev TransactionId := String
abbrev EventId := String

/-! ## Requests -/

/-- `SerializableEventContent`: what a client gave, also if it relates to another event, or the edit of an event that
`make_edit_event` made -/
inductive EventContent (C : Type)
  | new (content : C)
  | edit (eventId : EventId) (newContent : C)
deriving DecidableEq

inductive QueuedRequestKind (C : Type)
  | event (content : EventContent C)
  | redaction (redacts : EventId) (reason : Option String)
  | readReceipt (receiptType thread : String) (eventId : EventId)
  | readMarkers (fullyRead read readPrivate : Option EventId)
  | unreadMarker (unread : Bool)
deriving DecidableEq

inductive SupersedesKey
  | readReceipt (receiptType thread : String)
  | readMarkers
  | unreadMarker
deriving DecidableEq

namespace QueuedRequestKind

variable {C : Type}

/-- Whether a failure blocks the requests that were queued later. -/
def isOrderSensitive : QueuedRequestKind C → Bool
  | event _ | redaction _ _ => true
  | readReceipt _ _ _ | readMarkers _ _ _ | unreadMarker _ => false

def supersedesKey : QueuedRequestKind C → Option SupersedesKey
  | readReceipt receiptType thread _ => some (.readReceipt receiptType thread)
  | readMarkers _ _ _ => some .readMarkers
  | unreadMarker _ => some .unreadMarker
  | event _ | redaction _ _ => none

/-- An edit that was made from a dependent request. -/
def isEdit : QueuedRequestKind C → Bool
  | event (.edit _ _) => true
  | _ => false

end QueuedRequestKind

structure QueuedRequest (C W : Type) where
  kind : QueuedRequestKind C
  transactionId : TransactionId
  error : Option W
  priority : ℕ
deriving DecidableEq

def QueuedRequest.isWedged {C W : Type} (request : QueuedRequest C W) : Bool := request.error.isSome

inductive SentRequestKey (C : Type)
  | event (eventId : EventId) (event : EventContent C)
  | redaction (eventId redacts : EventId) (reason : Option String)
  | nothing
deriving DecidableEq

def SentRequestKey.intoEventId {C : Type} : SentRequestKey C → Option EventId
  | event eventId _ | redaction eventId _ _ => some eventId
  | nothing => none

/-- `O` stands for the kinds that no other request overrides: uploads, the ends of uploads and
galleries, reactions and replies. The requests of the queue are edits and redactions. -/
inductive DependentQueuedRequestKind (C : Type) (O : Type := Empty)
  | editEvent (newContent : C)
  | redactEvent
  | redactEventWithReason (reason : Option String)
  | other (kind : O)
deriving DecidableEq

namespace DependentQueuedRequestKind

variable {C O : Type}

def isEdit : DependentQueuedRequestKind C O → Bool
  | editEvent _ => true
  | _ => false

def isRedact : DependentQueuedRequestKind C O → Bool
  | redactEvent | redactEventWithReason _ => true
  | _ => false

end DependentQueuedRequestKind

structure DependentQueuedRequest (C : Type) (O : Type := Empty) where
  kind : DependentQueuedRequestKind C O
  parentTransactionId : TransactionId
  ownTransactionId : TransactionId
  parentKey : Option (SentRequestKey C)
deriving DecidableEq

variable {C W : Type}

/-! ## The store -/

/-- The tables of the store for one room. -/
@[ext] structure Store (C W : Type) where
  requests : List (QueuedRequest C W)
  dependents : List (DependentQueuedRequest C)

namespace Store

variable (store : Store C W)

variable (transactionId : TransactionId)

def saveSendQueueRequest (kind : QueuedRequestKind C) (priority : ℕ) : Store C W :=
  { store with requests := store.requests ++ [⟨kind, transactionId, none, priority⟩] }

/-- The first request with the transaction ID, changed. -/
def updateFirst (f : QueuedRequest C W → QueuedRequest C W) (transactionId : TransactionId) :
    List (QueuedRequest C W) → List (QueuedRequest C W)
  | [] => []
  | request :: requests =>
    if request.transactionId = transactionId then f request :: requests
    else request :: updateFirst f transactionId requests

def hasRequest : Bool :=
  store.requests.any (·.transactionId = transactionId)

/-- A request that is edited is not wedged any more. -/
def updateSendQueueRequest (kind : QueuedRequestKind C) : Bool × Store C W :=
  (store.hasRequest transactionId,
    { store with
      requests := updateFirst (fun request => { request with kind := kind, error := none }) transactionId store.requests })

def removeSendQueueRequest : Bool × Store C W :=
  (store.hasRequest transactionId, { store with requests := store.requests.eraseP (·.transactionId = transactionId) })

/-- By descending priority, and in the order of insertion among equals. -/
def loadSendQueueRequests : List (QueuedRequest C W) :=
  store.requests.insertionSort fun r r' => r'.priority ≤ r.priority

def updateSendQueueRequestStatus (error : Option W) : Store C W :=
  { store with requests := updateFirst (fun request => { request with error := error }) transactionId store.requests }

def saveDependentQueuedRequest (parentTransactionId ownTransactionId : TransactionId)
    (content : DependentQueuedRequestKind C) : Store C W :=
  { store with dependents := store.dependents ++ [⟨content, parentTransactionId, ownTransactionId, none⟩] }

def markDependentQueuedRequestsAsReady (parentTransactionId : TransactionId)
    (sentParentKey : SentRequestKey C) : Store C W :=
  { store with
    dependents := store.dependents.map fun d =>
      if d.parentTransactionId = parentTransactionId then { d with parentKey := some sentParentKey } else d }

def removeDependentQueuedRequest (ownTransactionId : TransactionId) : Store C W :=
  { store with dependents := store.dependents.eraseP (·.ownTransactionId = ownTransactionId) }

end Store

/-! ## Storage -/

/-- The store, and the request that is being sent. -/
structure QueueStorage (C W : Type) where
  store : Store C W
  beingSent : Option TransactionId

namespace QueueStorage

def lowPriority : ℕ := 0
def highPriority : ℕ := 10

variable (q : QueueStorage C W)

def push (request : QueuedRequestKind C) (transactionId : TransactionId) : QueueStorage C W :=
  { q with store := q.store.saveSendQueueRequest transactionId request lowPriority }

/-- Earlier requests with the same key are dropped, unless they are being sent. -/
def supersede (key : SupersedesKey) : Store C W :=
  q.store.loadSendQueueRequests.foldl
    (fun store queued =>
      if queued.kind.supersedesKey ≠ some key then store
      else if q.beingSent = some queued.transactionId then store
      else (store.removeSendQueueRequest queued.transactionId).2)
    q.store

def pushSuperseding (request : QueuedRequestKind C) (transactionId : TransactionId) : QueueStorage C W :=
  let store := match request.supersedesKey with
    | some key => q.supersede key
    | none => q.store
  { q with store := store.saveSendQueueRequest transactionId request highPriority }

/-- Only the head is considered: a wedged request blocks the others. -/
def peekNextToSend : Option (QueuedRequest C W) × QueueStorage C W :=
  match q.store.loadSendQueueRequests.head? with
  | some request =>
    if request.isWedged then (none, q) else (some request, { q with beingSent := some request.transactionId })
  | none => (none, q)

def markAsNotBeingSent : QueueStorage C W := { q with beingSent := none }

variable (transactionId : TransactionId)

def markAsWedged (reason : W) : QueueStorage C W where
  store := q.store.updateSendQueueRequestStatus transactionId (some reason)
  beingSent := none

def markAsUnwedged : QueueStorage C W :=
  { q with store := q.store.updateSendQueueRequestStatus transactionId none }

def markAsSent (parentKey : SentRequestKey C) : QueueStorage C W where
  store := ((q.store.markDependentQueuedRequestsAsReady transactionId parentKey).removeSendQueueRequest transactionId).2
  beingSent := none

def dropFailed : QueueStorage C W where
  store := (q.store.removeSendQueueRequest transactionId).2
  beingSent := none

/-- `cancel_event`; `child` is the transaction ID of the dependent request, if there is one. -/
def cancelEvent (reason : Option String) (child : TransactionId) : Bool × QueueStorage C W :=
  if q.beingSent = some transactionId then
    -- save the intent to redact the event
    (true, { q with store := q.store.saveDependentQueuedRequest transactionId child (.redactEventWithReason reason) })
  else
    let (removed, store) := q.store.removeSendQueueRequest transactionId
    (removed, { q with store := store })

def replaceEvent (content : C) (child : TransactionId) : Bool × QueueStorage C W :=
  if q.beingSent = some transactionId then
    -- save the intent to edit the event
    (true, { q with store := q.store.saveDependentQueuedRequest transactionId child (.editEvent content) })
  else
    let (edited, store) := q.store.updateSendQueueRequest transactionId (.event (.new content))
    (edited, { q with store := store })

end QueueStorage

/-! ## Dependent requests -/

/-- The dependent requests of one parent, with one more. -/
def addCanonical {O : Type} (prevs : List (DependentQueuedRequest C O)) (d : DependentQueuedRequest C O) :
    List (DependentQueuedRequest C O) :=
  if prevs.any (·.kind.isRedact) then prevs
  else
    match d.kind with
    | .editEvent _ =>
      match prevs.findIdx? (·.kind.isEdit) with
      | some i => prevs.set i d
      | none => d :: prevs
    | .other _ => prevs ++ [d]
    | .redactEvent | .redactEventWithReason _ => [d]

/-- The requests are gathered by their parent in a hash map, which is then walked in any order. -/
def canonicalizeDependentRequests {O : Type}
    (walk : HashOrder TransactionId (List (DependentQueuedRequest C O)))
    (dependent : List (DependentQueuedRequest C O)) : List (DependentQueuedRequest C O) :=
  Grouped.walked walk (·.parentTransactionId) addCanonical dependent

/-- What is not up to the queue when dependent requests are applied: in which order the hash map of
the parents is walked, whether the room is still known, which edits can be made (the new content is
a message or a poll, and the edit event of it can be made for the event), and which redactions
succeed. -/
structure Surroundings (C : Type) where
  walk : HashOrder TransactionId (List (DependentQueuedRequest C))
  hasRoom : Bool
  makesEdit : EventId → C → Bool
  redacts : EventId → Bool

/-- What happens to a queue. -/
inductive Entry (C : Type)
  | queued (transactionId : TransactionId) (priority : ℕ)
  | started (transactionId : TransactionId)
  | sent (transactionId : TransactionId) (priority : ℕ) (key : SentRequestKey C)
  | failed (transactionId : TransactionId)
  | edited (transactionId : TransactionId) (content : C) (returned : Bool)
  | aborted (transactionId : TransactionId) (returned : Bool)
  | redactionRequested (eventId : EventId)
deriving DecidableEq

/-- What a single dependent request leads to: the store, whether it is done (`none` if there was an
error, and it is kept as well), and what has happened. -/
structure Applied (C W : Type) where
  store : Store C W
  done : Option Bool
  entries : List (Entry C)

def tryApplySingleDependentRequest (env : Surroundings C) (store : Store C W) (d : DependentQueuedRequest C) :
    Applied C W :=
  match d.kind with
  | .editEvent newContent =>
    match d.parentKey with
    | some parentKey =>
      match parentKey.intoEventId with
      | none => ⟨store, none, []⟩
      | some eventId =>
        if ¬ env.hasRoom then ⟨store, none, []⟩
        else if ¬ env.makesEdit eventId newContent then ⟨store, some true, []⟩
        else
          ⟨store.saveSendQueueRequest d.ownTransactionId (.event (.edit eventId newContent)) QueueStorage.highPriority,
            some true, [.queued d.ownTransactionId QueueStorage.highPriority]⟩
    | none =>
      -- the parent event is still local
      ⟨(store.updateSendQueueRequest d.parentTransactionId (.event (.new newContent))).2, some true, []⟩
  | .redactEvent | .redactEventWithReason _ =>
    match d.parentKey with
    | some parentKey =>
      match parentKey.intoEventId with
      | none => ⟨store, none, []⟩
      | some eventId =>
        if ¬ env.hasRoom then ⟨store, none, []⟩
        else ⟨store, some (env.redacts eventId), [.redactionRequested eventId]⟩
    | none => ⟨(store.removeSendQueueRequest d.parentTransactionId).2, some true, []⟩
  | .other kind => nomatch kind

/-- One turn of the loop: a request that is done is forgotten. -/
def applyDependentRequest (env : Surroundings C) (r : Store C W × List (Entry C))
    (d : DependentQueuedRequest C) :
    Store C W × List (Entry C) :=
  let applied := tryApplySingleDependentRequest env r.1 d
  (if applied.done = some true then applied.store.removeDependentQueuedRequest d.ownTransactionId else applied.store,
    r.2 ++ applied.entries)

/-- The store with the canonical requests only. -/
def removeNonCanonical (store : Store C W) (canonical : List (DependentQueuedRequest C)) : Store C W :=
  store.dependents.foldl
    (fun store original =>
      if canonical.any (·.ownTransactionId = original.ownTransactionId) then store
      else store.removeDependentQueuedRequest original.ownTransactionId)
    store

/-- The storage after `apply_dependent_requests`, and what has happened. -/
def QueueStorage.applyDependentRequests (env : Surroundings C) (q : QueueStorage C W) :
    QueueStorage C W × List (Entry C) :=
  let canonical := canonicalizeDependentRequests env.walk q.store.dependents
  let r := canonical.foldl (applyDependentRequest env) (removeNonCanonical q.store canonical, [])
  ({ q with store := r.1 }, r.2)

/-! ## The sending task -/

/-- Where the sending task is in its loop. -/
inductive Task (C W : Type)
  /-- about to apply dependent requests -/
  | top
  /-- about to peek, if the queue is enabled -/
  | applied
  /-- waiting to be notified -/
  | asleep
  | sending (request : QueuedRequest C W)

/-- The queue with its task and its history; generated transaction IDs are remembered, as they are
never given again. -/
structure System (C W : Type) where
  storage : QueueStorage C W
  task : Task C W
  enabled : Bool
  transactionIds : List TransactionId
  log : List (Entry C)

inductive Action (C W : Type)
  | push (kind : QueuedRequestKind C) (transactionId : TransactionId)
  | pushSuperseding (kind : QueuedRequestKind C) (transactionId : TransactionId)
  | edit (transactionId : TransactionId) (content : C) (child : TransactionId)
  | abort (transactionId : TransactionId) (reason : Option String) (child : TransactionId)
  | unwedge (transactionId : TransactionId)
  | setEnabled (enabled : Bool)
  | wake
  | applyDependentRequests (env : Surroundings C)
  | peek
  | succeed (eventId : EventId)
  | failRecoverably
  | failUnrecoverably (reason : W)

def sentKey (kind : QueuedRequestKind C) (eventId : EventId) : SentRequestKey C :=
  match kind with
  | .event content => .event eventId content
  | .redaction redacts reason => .redaction eventId redacts reason
  | .readReceipt _ _ _ | .readMarkers _ _ _ | .unreadMarker _ => .nothing

namespace System

def init : System C W where
  storage := ⟨⟨[], []⟩, none⟩
  task := .top
  enabled := true
  transactionIds := []
  log := []

/-- One step, unless the action is not possible. -/
def step (s : System C W) : Action C W → Option (System C W)
  | .push kind transactionId =>
    if transactionId ∈ s.transactionIds ∨ kind.isEdit then none
    else some { s with
      storage := s.storage.push kind transactionId
      transactionIds := transactionId :: s.transactionIds
      log := s.log ++ [.queued transactionId QueueStorage.lowPriority] }
  | .pushSuperseding kind transactionId =>
    if transactionId ∈ s.transactionIds ∨ kind.isEdit then none
    else some { s with
      storage := s.storage.pushSuperseding kind transactionId
      transactionIds := transactionId :: s.transactionIds
      log := s.log ++ [.queued transactionId QueueStorage.highPriority] }
  | .edit transactionId content child =>
    if child ∈ s.transactionIds then none
    else
      let (returned, storage) := s.storage.replaceEvent transactionId content child
      some { s with
        storage := storage
        transactionIds := child :: s.transactionIds
        log := s.log ++ [.edited transactionId content returned] }
  | .abort transactionId reason child =>
    if child ∈ s.transactionIds then none
    else
      let (returned, storage) := s.storage.cancelEvent transactionId reason child
      some { s with
        storage := storage
        transactionIds := child :: s.transactionIds
        log := s.log ++ [.aborted transactionId returned] }
  | .unwedge transactionId => some { s with storage := s.storage.markAsUnwedged transactionId }
  | .setEnabled enabled => some { s with enabled := enabled }
  | .wake =>
    match s.task with
    | .asleep => some { s with task := .top }
    | _ => none
  | .applyDependentRequests env =>
    match s.task with
    | .top =>
      let (storage, entries) := s.storage.applyDependentRequests env
      some { s with storage := storage, task := .applied, log := s.log ++ entries }
    | _ => none
  | .peek =>
    match s.task with
    | .applied =>
      if ¬ s.enabled then some { s with task := .asleep }
      else
        match s.storage.peekNextToSend with
        | (some request, storage) =>
          some { s with storage := storage, task := .sending request, log := s.log ++ [.started request.transactionId] }
        | (none, storage) => some { s with storage := storage, task := .asleep }
    | _ => none
  | .succeed eventId =>
    match s.task with
    | .sending request =>
      let key := sentKey request.kind eventId
      some { s with
        storage := s.storage.markAsSent request.transactionId key
        task := .top
        log := s.log ++ [.sent request.transactionId request.priority key] }
    | _ => none
  | .failRecoverably =>
    match s.task with
    | .sending request => some { s with
        storage := s.storage.markAsNotBeingSent
        task := .top
        enabled := false
        log := s.log ++ [.failed request.transactionId] }
    | _ => none
  | .failUnrecoverably reason =>
    match s.task with
    | .sending request =>
      let storage :=
        if request.kind.isOrderSensitive then s.storage.markAsWedged request.transactionId reason
        else s.storage.dropFailed request.transactionId
      some { s with
        storage := storage
        task := .top
        enabled := false
        log := s.log ++ [.failed request.transactionId] }
    | _ => none

def run (s : System C W) (actions : List (Action C W)) : Option (System C W) := actions.foldlM step s

/-- What a step can do. -/
inductive Stepped (s : System C W) : Action C W → System C W → Prop
  | push {kind transactionId} (hnew : transactionId ∉ s.transactionIds) (hkind : kind.isEdit = false) :
      Stepped s (.push kind transactionId) { s with
        storage := s.storage.push kind transactionId
        transactionIds := transactionId :: s.transactionIds
        log := s.log ++ [.queued transactionId QueueStorage.lowPriority] }
  | pushSuperseding {kind transactionId} (hnew : transactionId ∉ s.transactionIds) (hkind : kind.isEdit = false) :
      Stepped s (.pushSuperseding kind transactionId) { s with
        storage := s.storage.pushSuperseding kind transactionId
        transactionIds := transactionId :: s.transactionIds
        log := s.log ++ [.queued transactionId QueueStorage.highPriority] }
  | edit {transactionId content child} (hnew : child ∉ s.transactionIds) :
      Stepped s (.edit transactionId content child) { s with
        storage := (s.storage.replaceEvent transactionId content child).2
        transactionIds := child :: s.transactionIds
        log := s.log ++ [.edited transactionId content (s.storage.replaceEvent transactionId content child).1] }
  | abort {transactionId reason child} (hnew : child ∉ s.transactionIds) :
      Stepped s (.abort transactionId reason child) { s with
        storage := (s.storage.cancelEvent transactionId reason child).2
        transactionIds := child :: s.transactionIds
        log := s.log ++ [.aborted transactionId (s.storage.cancelEvent transactionId reason child).1] }
  | unwedge {transactionId} :
      Stepped s (.unwedge transactionId) { s with storage := s.storage.markAsUnwedged transactionId }
  | setEnabled {enabled} : Stepped s (.setEnabled enabled) { s with enabled := enabled }
  | wake (htask : s.task = .asleep) : Stepped s .wake { s with task := .top }
  | applyDependentRequests {env} (htask : s.task = .top) :
      Stepped s (.applyDependentRequests env) { s with
        storage := (s.storage.applyDependentRequests env).1
        task := .applied
        log := s.log ++ (s.storage.applyDependentRequests env).2 }
  | sleep (htask : s.task = .applied) : Stepped s .peek { s with task := .asleep }
  | start {request} (htask : s.task = .applied)
      (hhead : s.storage.store.loadSendQueueRequests.head? = some request) :
      Stepped s .peek { s with
        storage := { s.storage with beingSent := some request.transactionId }
        task := .sending request
        log := s.log ++ [.started request.transactionId] }
  | succeed {request eventId} (htask : s.task = .sending request) :
      Stepped s (.succeed eventId) { s with
        storage := s.storage.markAsSent request.transactionId (sentKey request.kind eventId)
        task := .top
        log := s.log ++ [.sent request.transactionId request.priority (sentKey request.kind eventId)] }
  | failRecoverably {request} (htask : s.task = .sending request) :
      Stepped s .failRecoverably { s with
        storage := s.storage.markAsNotBeingSent
        task := .top
        enabled := false
        log := s.log ++ [.failed request.transactionId] }
  | wedge {request reason} (htask : s.task =
    .sending request) (hsensitive : request.kind.isOrderSensitive = true) :
      Stepped s (.failUnrecoverably reason) { s with
        storage := s.storage.markAsWedged request.transactionId reason
        task := .top
        enabled := false
        log := s.log ++ [.failed request.transactionId] }
  | dropFailed {request reason} (htask : s.task = .sending request)
      (hsensitive : request.kind.isOrderSensitive = false) :
      Stepped s (.failUnrecoverably reason) { s with
        storage := s.storage.dropFailed request.transactionId
        task := .top
        enabled := false
        log := s.log ++ [.failed request.transactionId] }

theorem stepped {s s' : System C W} {a : Action C W} (h : s.step a = some s') : s.Stepped a s' := by
  cases a with
  | push kind transactionId | pushSuperseding kind transactionId =>
    rw [step, Option.ite_none_left_eq_some] at h
    obtain ⟨hguard, hs'⟩ := h
    obtain ⟨hnew, hkind⟩ := not_or.1 hguard
    obtain rfl := Option.some.inj hs'
    constructor
    · exact hnew
    · simpa using hkind
  | edit transactionId _ child | abort transactionId _ child =>
    rw [step, Option.ite_none_left_eq_some] at h
    obtain ⟨hnew, hs'⟩ := h
    obtain rfl := Option.some.inj hs'
    constructor
    exact hnew
  | unwedge | setEnabled =>
    obtain rfl := Option.some.inj h
    constructor
  | wake =>
    cases htask : s.task with
    | asleep =>
      simp only [step, htask, Option.some.injEq] at h
      exact h ▸ .wake htask
    | _ => simp [step, htask] at h
  | applyDependentRequests env =>
    cases htask : s.task with
    | top =>
      simp only [step, htask, Option.some.injEq] at h
      exact h ▸ .applyDependentRequests htask
    | _ => simp [step, htask] at h
  | peek =>
    cases htask : s.task with
    | applied =>
      simp only [step, htask, QueueStorage.peekNextToSend] at h
      split at h
      · obtain rfl := Option.some.inj h
        exact .sleep htask
      · cases hhead : s.storage.store.loadSendQueueRequests.head? with
        | none =>
          simp only [hhead, Option.some.injEq] at h
          exact h ▸ .sleep htask
        | some request =>
          cases hwedged : request.isWedged with
          | true =>
            simp only [hhead, hwedged, if_true, Option.some.injEq] at h
            exact h ▸ .sleep htask
          | false =>
            simp only [hhead, hwedged, Bool.false_eq_true, if_false, Option.some.injEq] at h
            exact h ▸ .start htask hhead
    | _ => simp [step, htask] at h
  | succeed eventId =>
    cases htask : s.task with
    | sending request =>
      simp only [step, htask, Option.some.injEq] at h
      exact h ▸ .succeed htask
    | _ => simp [step, htask] at h
  | failRecoverably =>
    cases htask : s.task with
    | sending request =>
      simp only [step, htask, Option.some.injEq] at h
      exact h ▸ .failRecoverably htask
    | _ => simp [step, htask] at h
  | failUnrecoverably reason =>
    cases htask : s.task with
    | sending request =>
      simp only [step, htask, Option.some.injEq] at h
      cases hsensitive : request.kind.isOrderSensitive with
      | true =>
        simp only [hsensitive, if_true] at h
        exact h ▸ .wedge htask hsensitive
      | false =>
        simp only [hsensitive, Bool.false_eq_true, if_false] at h
        exact h ▸ .dropFailed htask hsensitive
    | _ => simp [step, htask] at h

end System

end HaranaMatrix.SendQueue
