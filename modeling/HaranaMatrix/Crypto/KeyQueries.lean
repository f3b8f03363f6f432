import HaranaMatrix.Crypto.OutboundSession
import HaranaMatrix.Lib.Splice

/-!
# Key queries

Users whose device list is out of date wait for a `/keys/query`. Every invalidation gets the next
sequence number, every batch of queries remembers the last one, and the response of a query counts
for the users that were not invalidated since. The calls and the parts of the calls during which a
lock is held are the steps of a run. -/

namespace HaranaMatrix.Crypto

/-! ## Users for a key query -/

structure KeysQueryWaiter where
  id : ℕ
  user : UserId
  sequenceNumber : SequenceNumber
deriving DecidableEq

structure UsersForKeyQuery where
  nextSequenceNumber : SequenceNumber
  userMap : List (UserId × SequenceNumber)
  tasksAwaitingKeyQuery : List KeysQueryWaiter

namespace UsersForKeyQuery

variable (q : UsersForKeyQuery)

def insertUser (user : UserId) : UsersForKeyQuery :=
  { q with
    userMap := IndexMap.insert q.userMap user q.nextSequenceNumber
    nextSequenceNumber := q.nextSequenceNumber.increment }

/-- A query with this sequence number satisfies the waiter. -/
def satisfies (user : UserId) (querySequence : SequenceNumber) (waiter : KeysQueryWaiter) : Bool :=
  waiter.user = user && waiter.sequenceNumber.cmp querySequence ≠ .gt

/-- The waiters that the query completes; `alive` are those that were not dropped. -/
def completedBy (alive : ℕ → Bool) (user : UserId) (querySequence : SequenceNumber) : List KeysQueryWaiter :=
  q.tasksAwaitingKeyQuery.filter fun w => alive w.id && satisfies user querySequence w

/-- `maybe_remove_user`, and whether the user is up to date now. -/
def maybeRemoveUser (alive : ℕ → Bool) (user : UserId) (querySequence : SequenceNumber) :
    Bool × UsersForKeyQuery :=
  let retained := { q with
    tasksAwaitingKeyQuery := q.tasksAwaitingKeyQuery.filter fun w => alive w.id && !satisfies user querySequence w }
  match IndexMap.get q.userMap user with
  | some lastInvalidation =>
    if lastInvalidation.cmp querySequence = .gt then (false, retained)
    else (true, { retained with userMap := q.userMap.filter (·.1 ≠ user) })
  | none => (true, retained)

/-- The users, and the sequence number of the last invalidation. -/
def usersForKeyQuery : List UserId × SequenceNumber :=
  (q.userMap.map Prod.fst, q.nextSequenceNumber.previous)

def maybeRegisterWaitingTask (id : ℕ) (user : UserId) : Option (KeysQueryWaiter × UsersForKeyQuery) :=
  (IndexMap.get q.userMap user).map fun sequenceNumber =>
    let waiter := ⟨id, user, sequenceNumber⟩
    (waiter, { q with tasksAwaitingKeyQuery := q.tasksAwaitingKeyQuery ++ [waiter] })

end UsersForKeyQuery

/-! ## The manager -/

structure KeysQueryRequestDetails where
  sequenceNumber : SequenceNumber
  requestIds : List RequestId

/-- A response to a query in flight, with the sequence number of its batch, on its way to the
manager. -/
structure KeysQueryResponse where
  requestId : RequestId
  users : List UserId
  sequenceNumber : SequenceNumber

/-- What happened so far, for the record only: no code reads it. Invalidations are counted, without
an end. -/
structure QueryLog where
  invalidations : ℕ
  lastInvalidation : UserId → Option ℕ
  /-- How many invalidations there were when the request was built. -/
  builtAt : RequestId → ℕ
  /-- A response made the user up to date. -/
  refreshed : List (UserId × RequestId)
  /-- The last invalidation of the user when the waiter was registered. -/
  waitingFor : ℕ → ℕ
  completed : List (ℕ × RequestId)

/-- `unsaved` are users that `mark_user_as_changed` has flagged and not yet saved, as it does not
keep the lock. -/
structure KeyQueryManager where
  usersForKeyQuery : UsersForKeyQuery
  trackedUsers : List UserId
  storedTrackedUsers : List (UserId × Bool)
  requestDetails : Option KeysQueryRequestDetails
  processing : List KeysQueryResponse
  unsaved : List UserId
  droppedWaiters : List ℕ
  nextWaiterId : ℕ
  nextRequestId : RequestId
  log : QueryLog

namespace KeyQueryManager

def MAX_KEY_QUERY_USERS : ℕ := 250

variable (m : KeyQueryManager)

variable (user : UserId)

def isPending : Bool := (IndexMap.get m.usersForKeyQuery.userMap user).isSome

/-- The user is flagged as dirty in the store. -/
def isStoredDirty : Bool := IndexMap.get m.storedTrackedUsers user = some true

/-- `insert_user` -/
def flag : KeyQueryManager :=
  { m with
    usersForKeyQuery := m.usersForKeyQuery.insertUser user
    log := { m.log with
      invalidations := m.log.invalidations + 1
      lastInvalidation := Function.update m.log.lastInvalidation user (some m.log.invalidations) } }

def track : KeyQueryManager :=
  { m with trackedUsers := if user ∈ m.trackedUsers then m.trackedUsers else m.trackedUsers ++ [user] }

/-- `save_tracked_users`, for one user; the lock is kept until all are saved. -/
def saveTrackedUser (dirty : Bool) : KeyQueryManager :=
  { m with storedTrackedUsers := IndexMap.insert m.storedTrackedUsers user dirty }

def updateTrackedUsers (users : List UserId) : KeyQueryManager :=
  users.foldl (fun m user => if user ∈ m.trackedUsers then m else ((m.track user).flag user).saveTrackedUser user true) m

def markTrackedUsersAsChanged (users : List UserId) : KeyQueryManager :=
  users.foldl (fun m user => if user ∈ m.trackedUsers then (m.flag user).saveTrackedUser user true else m) m

/-- The first part of `mark_user_as_changed`. -/
def flagUserAsChanged : KeyQueryManager :=
  { (m.flag user).track user with unsaved := m.unsaved ++ [user] }

/-- The second part. -/
def saveUserAsChanged : KeyQueryManager :=
  if user ∈ m.unsaved then { m.saveTrackedUser user true with unsaved := m.unsaved.erase user } else m

variable (response : KeysQueryResponse)

/-- One user of a response. -/
def markUserAsUpToDate (user : UserId) : KeyQueryManager :=
  if user ∈ m.trackedUsers then
    let alive := fun id => !m.droppedWaiters.contains id
    let result := m.usersForKeyQuery.maybeRemoveUser alive user response.sequenceNumber
    let m' := { m with
      usersForKeyQuery := result.2
      log := { m.log with
        refreshed := if result.1 then m.log.refreshed ++ [(user, response.requestId)] else m.log.refreshed
        completed := m.log.completed ++
          (m.usersForKeyQuery.completedBy alive user response.sequenceNumber).map fun w : KeysQueryWaiter =>
            (w.id, response.requestId) } }
    m'.saveTrackedUser user (!result.1)
  else m

def markTrackedUsersAsUpToDate : KeyQueryManager :=
  response.users.foldl (markUserAsUpToDate · response) m

/-- `users_for_key_query` of the identity manager; servers that failed are left out. -/
def buildKeyQueries (ownUser : UserId) (failed : UserId → Bool) : KeyQueryManager :=
  let m := { m with requestDetails := none }
  let m := if m.usersForKeyQuery.userMap = [] ∧ ownUser ∉ m.trackedUsers then
      ((m.flag ownUser).track ownUser).saveTrackedUser ownUser true
    else m
  let (users, sequenceNumber) := m.usersForKeyQuery.usersForKeyQuery
  if users = [] then m
  else
    let requests := chunks MAX_KEY_QUERY_USERS (users.filter fun u => !failed u)
    let requestIds := List.range' m.nextRequestId requests.length
    { m with
      requestDetails := some ⟨sequenceNumber, requestIds⟩
      nextRequestId := m.nextRequestId + requests.length
      log := { m.log with builtAt := fun r => if r ∈ requestIds then m.log.invalidations else m.log.builtAt r } }

/-- `receive_keys_query_response` up to the point where the request is taken from those in
flight. -/
def takeResponse (requestId : RequestId) (users : List UserId) : KeyQueryManager :=
  match m.requestDetails with
  | some details =>
    if requestId ∈ details.requestIds then
      { m with
        requestDetails := some { details with requestIds := details.requestIds.erase requestId }
        processing := m.processing ++ [⟨requestId, users, details.sequenceNumber⟩] }
    else m
  | none => m

/-- The rest of it, for any of the responses that are being processed. -/
def applyResponse (i : ℕ) : KeyQueryManager :=
  match m.processing[i]? with
  | some response => { m with processing := m.processing.eraseIdx i }.markTrackedUsersAsUpToDate response
  | none => m

def registerWaiter : KeyQueryManager :=
  match m.usersForKeyQuery.maybeRegisterWaitingTask m.nextWaiterId user with
  | some (_, usersForKeyQuery) =>
    { m with
      usersForKeyQuery := usersForKeyQuery
      nextWaiterId := m.nextWaiterId + 1
      log := { m.log with
        waitingFor := Function.update m.log.waitingFor m.nextWaiterId ((m.log.lastInvalidation user).getD 0) } }
  | none => m

def dropWaiter (id : ℕ) : KeyQueryManager := { m with droppedWaiters := id :: m.droppedWaiters }

/-- The manager with what was loaded from the store. -/
def load (tracked : List (UserId × Bool)) : KeyQueryManager :=
  tracked.foldl (fun m entry => if entry.2 then (m.track entry.1).flag entry.1 else m.track entry.1)
    { usersForKeyQuery := ⟨⟨0⟩, [], []⟩
      trackedUsers := []
      storedTrackedUsers := tracked
      requestDetails := none
      processing := []
      unsaved := []
      droppedWaiters := []
      nextWaiterId := 0
      nextRequestId := 0
      log := ⟨0, fun _ => none, fun _ => 0, [], fun _ => 0, []⟩ }

/-! ## Runs -/

inductive Action
  | updateTrackedUsers (users : List UserId)
  | markTrackedUsersAsChanged (users : List UserId)
  | flagUserAsChanged (user : UserId)
  | saveUserAsChanged (user : UserId)
  | buildKeyQueries (ownUser : UserId) (failed : UserId → Bool)
  | takeResponse (requestId : RequestId) (users : List UserId)
  | applyResponse (i : ℕ)
  | registerWaiter (user : UserId)
  | dropWaiter (id : ℕ)

def step : Action → KeyQueryManager
  | .updateTrackedUsers users => m.updateTrackedUsers users
  | .markTrackedUsersAsChanged users => m.markTrackedUsersAsChanged users
  | .flagUserAsChanged user => m.flagUserAsChanged user
  | .saveUserAsChanged user => m.saveUserAsChanged user
  | .buildKeyQueries ownUser failed => m.buildKeyQueries ownUser failed
  | .takeResponse requestId users => m.takeResponse requestId users
  | .applyResponse i => m.applyResponse i
  | .registerWaiter user => m.registerWaiter user
  | .dropWaiter id => m.dropWaiter id

def run (actions : List Action) : KeyQueryManager := actions.foldl step m

/-- Fewer than `2 ^ 63` invalidations between the query and its response. -/
def Within : Prop :=
  m.log.invalidations < m.log.builtAt response.requestId + 2 ^ 63

def Action.Within : Action → Prop
  | .applyResponse i => ∀ response ∈ m.processing[i]?, m.Within response
  | _ => True

def RunWithin (m : KeyQueryManager) : List Action → Prop
  | [] => True
  | action :: actions => action.Within m ∧ RunWithin (m.step action) actions

end KeyQueryManager

end HaranaMatrix.Crypto
