import HaranaMatrix.Lib.IndexMap

/-!
# The members of a room

The member events of a room reach the store by syncs and by `/members` responses. Beside the events,
the store keeps the profiles that the members set themselves, the users of every display name, and
the member counts of the room summary.

* `dispatch`, `receiveSync` — the member events of a sync, with the display name ambiguities they make and resolve;
* `receiveAllMembers` — a complete member list, without the users that a sync wrote while the list was requested;
* `SyncMemberWrites` — the record of these users, kept while a request is in flight.
-/

namespace HaranaMatrix.Base

open IndexMap

inductive MembershipState
  | ban
  | invite
  | join
  | knock
  | leave
  | custom
deriving DecidableEq, Repr

def isMemberActive : MembershipState → Bool
  | .join | .invite | .knock => true
  | .ban | .leave | .custom => false

/-- A member event. A redacted one has no display name. -/
structure RoomMemberEvent (U N : Type) where
  eventId : ℕ
  sender : U
  stateKey : U
  membership : MembershipState
  displayname : Option N
deriving DecidableEq, Repr

/-- The localpart of a user, the normal form by which names are compared, and the names that are
ambiguous by themselves: they look like a user, have hidden characters, or have no normal form. -/
structure Naming (U N D : Type) where
  localpart : U → N
  displayName : N → D
  isInherentlyAmbiguous : N → Bool

/-- Users and names are numbers, and the localpart of a user is its number. -/
def numberNames : Naming ℕ ℕ ℕ := ⟨id, id, fun _ => false⟩

variable {U N D : Type}

/-- The changes that are about to be saved for the room. The profiles are the display names that the
members set. -/
structure StateChanges (U N D : Type) where
  state : List (U × RoomMemberEvent U N) := []
  profiles : List (U × Option N) := []
  profilesToDelete : List U := []
  ambiguityMap : List (D × Finset U) := []

structure RoomSummary where
  joinedMemberCount : ℕ := 0
  invitedMemberCount : ℕ := 0
deriving DecidableEq, Repr

/-- What the store has for the room. -/
structure MemoryStore (U N D : Type) where
  roomState : List (U × RoomMemberEvent U N) := []
  profiles : List (U × Option N) := []
  displayNames : List (D × Finset U) := []
  summary : RoomSummary := {}

section Store

variable [DecidableEq U] [DecidableEq D]

def StateChanges.member (changes : StateChanges U N D) (user : U) : Option (RoomMemberEvent U N) :=
    get changes.state user

namespace MemoryStore

variable (store : MemoryStore U N D)

def getMemberEvent (user : U) : Option (RoomMemberEvent U N) := get store.roomState user

def getProfile (user : U) : Option (Option N) := get store.profiles user

def getUsersWithDisplayName (d : D) : Finset U := (get store.displayNames d).getD ∅

/-- The profiles that are deleted come before the new ones. A display name that is not in the
changes keeps its users. -/
def saveChanges (changes : StateChanges U N D) : MemoryStore U N D where
  roomState := insertAll store.roomState changes.state
  profiles := insertAll (store.profiles.filter (·.1 ∉ changes.profilesToDelete)) changes.profiles
  displayNames := insertAll store.displayNames changes.ambiguityMap
  summary := store.summary

end MemoryStore

/-- `processors::profiles`: the profile that a member set, unless they leave; none after an
invitation or a ban. -/
def upsertOrDelete (changes : StateChanges U N D) (event : RoomMemberEvent U N) : StateChanges U N D :=
  let changes :=
    if event.stateKey = event.sender ∧ event.membership ≠ .leave then
      { changes with profiles := IndexMap.insert changes.profiles event.sender event.displayname }
    else changes
  if event.membership = .invite ∨ event.membership = .ban then
    { changes with
      profilesToDelete := changes.profilesToDelete ++ [event.stateKey]
      profiles := changes.profiles.filter (·.1 ≠ event.stateKey) }
  else changes

end Store

/-! ## Display names -/

section Ambiguity

variable [LinearOrder U] [DecidableEq D] (names : Naming U N D)

/-- The first user of a set. -/
def first (users : Finset U) : Option U := WithTop.recTopCoe none some users.min

@[simp] lemma first_singleton (user : U) : first {user} = some user := rfl

structure DisplayNameUsers (U N : Type) where
  displayName : N
  users : Finset U

namespace DisplayNameUsers

variable (m : DisplayNameUsers U N)

/-- The user that is left alone with the name, if there is one. -/
def remove (user : U) : DisplayNameUsers U N × Option U :=
  let users := m.users.erase user
  (⟨m.displayName, users⟩, if users.card = 1 then first users else none)

/-- The user that had the name alone, if there was one. -/
def add (user : U) : DisplayNameUsers U N × Option U :=
  (⟨m.displayName, insert user m.users⟩, if m.users.card = 1 then first m.users else none)

def isAmbiguous : Bool := names.isInherentlyAmbiguous m.displayName || decide (1 < m.users.card)

end DisplayNameUsers

structure AmbiguityChange (U : Type) where
  memberId : U
  memberAmbiguous : Bool
  disambiguatedMember : Option U
  ambiguatedMember : Option U
deriving DecidableEq, Repr

structure AmbiguityCache (U D : Type) where
  cache : List (D × Finset U) := []
  changes : List (ℕ × AmbiguityChange U) := []

namespace AmbiguityCache

variable (store : MemoryStore U N D)

variable (changes : StateChanges U N D)

/-- The display name of the member before the event: from the pending or the stored profile, or from
the old event. -/
def getOldDisplayName (event : RoomMemberEvent U N) : Option N :=
  let user := event.stateKey
  match (changes.member user).or (store.getMemberEvent user) with
  | none => none
  | some oldEvent =>
    if isMemberActive oldEvent.membership then
      some ((((get changes.profiles user).join.or (store.getProfile user).join).or oldEvent.displayname).getD
        (names.localpart user))
    else none

variable (c : AmbiguityCache U D)

def getUsersWithDisplayName (name : N) : DisplayNameUsers U N :=
  ⟨name, (get c.cache (names.displayName name)).getD (store.getUsersWithDisplayName (names.displayName name))⟩

/-- The users of the old and of the new name. The name that others give to a member is not
trusted. -/
def calculateChanges (event : RoomMemberEvent U N) :
    Option (DisplayNameUsers U N) × Option (DisplayNameUsers U N) :=
  let oldDisplayName := getOldDisplayName names store changes event
  let oldMap := oldDisplayName.map (c.getUsersWithDisplayName names store)
  let newMap :=
    if isMemberActive event.membership then
      let new := event.displayname.getD (names.localpart event.stateKey)
      some (c.getUsersWithDisplayName names store
        (if event.sender = event.stateKey then new else oldDisplayName.getD new))
    else none
  (oldMap, newMap)

def displayNamesSame : Option (DisplayNameUsers U N) → Option (DisplayNameUsers U N) → Bool
  | some a, some b => decide (names.displayName a.displayName = names.displayName b.displayName)
  | _, _ => false

def update (cache : List (D × Finset U)) (m : Option (DisplayNameUsers U N)) : List (D × Finset U) :=
  match m with
  | none => cache
  | some m => IndexMap.insert cache (names.displayName m.displayName) m.users

/-- The member leaves the old name for the new one. -/
def applyChange (event : RoomMemberEvent U N) (oldMap newMap : Option (DisplayNameUsers U N)) :
    AmbiguityCache U D :=
  let removed := oldMap.map (·.remove event.stateKey)
  let added := newMap.map (·.add event.stateKey)
  let change : AmbiguityChange U :=
    { memberId := event.stateKey
      memberAmbiguous := added.any fun m => m.1.isAmbiguous names
      disambiguatedMember := removed.bind Prod.snd
      ambiguatedMember := added.bind Prod.snd }
  { cache := update names (update names c.cache (removed.map Prod.fst)) (added.map Prod.fst)
    changes := IndexMap.insert c.changes event.eventId change }

/-- An event that has been handled is ignored, and so is one that keeps the name. -/
def handleEvent (event : RoomMemberEvent U N) : AmbiguityCache U D :=
  if (get c.changes event.eventId).isSome then c
  else
    let maps := c.calculateChanges names store changes event
    if displayNamesSame names maps.1 maps.2 then c else c.applyChange names event maps.1 maps.2

end AmbiguityCache

/-! ## Syncs -/

/-- The changes and the ambiguities of a sync so far. -/
structure SyncContext (U N D : Type) where
  stateChanges : StateChanges U N D := {}
  ambiguityCache : AmbiguityCache U D := {}

variable (store : MemoryStore U N D)

/-- `dispatch` for a member event. -/
def dispatch (context : SyncContext U N D) (event : RoomMemberEvent U N) : SyncContext U N D :=
  let ambiguityCache := context.ambiguityCache.handleEvent names store context.stateChanges event
  let changes := upsertOrDelete context.stateChanges event
  { stateChanges := { changes with state := IndexMap.insert changes.state event.stateKey event }
    ambiguityCache }

variable (events : List (RoomMemberEvent U N))

def dispatchAll : SyncContext U N D :=
  events.foldl (dispatch names store) {}

/-- The changes of a sync when it is saved. -/
def syncChanges : StateChanges U N D :=
  let context := dispatchAll names store events
  { context.stateChanges with ambiguityMap := context.ambiguityCache.cache }

/-- The member counts that the server sends along, if it does. -/
structure RumaSummary where
  joinedMemberCount : Option ℕ := none
  invitedMemberCount : Option ℕ := none

def RoomSummary.updateFromRumaSummary (s : RoomSummary) (summary : RumaSummary) : RoomSummary where
  joinedMemberCount := summary.joinedMemberCount.getD s.joinedMemberCount
  invitedMemberCount := summary.invitedMemberCount.getD s.invitedMemberCount

def receiveSync (summary : RumaSummary) : MemoryStore U N D :=
  { store.saveChanges (syncChanges names store events) with summary := store.summary.updateFromRumaSummary summary }

/-! ## Requests in flight -/

/-- The users that a sync wrote while at least one `/members` request was in flight. -/
structure SyncMemberWrites (U : Type) where
  inFlight : ℕ := 0
  users : Finset U := ∅

namespace SyncMemberWrites

variable (writes : SyncMemberWrites U)

def startMembersRequest : SyncMemberWrites U := { writes with inFlight := writes.inFlight + 1 }

def recordSyncMemberWrite (user : U) : SyncMemberWrites U :=
  if 0 < writes.inFlight then { writes with users := insert user writes.users } else writes

def recordMemberWritesFromSync (changes : StateChanges U N D) : SyncMemberWrites U :=
  (changes.state.map Prod.fst).foldl recordSyncMemberWrite writes

/-- `MembersRequestGuard::drop`: with the last request, the users are forgotten. -/
def drop : SyncMemberWrites U :=
  let inFlight := writes.inFlight - 1
  { inFlight, users := if inFlight = 0 then ∅ else writes.users }

end SyncMemberWrites

/-! ## Member lists -/

structure MembersRequest where
  membership : Option MembershipState := none
  notMembership : Option MembershipState := none
  at_ : Option String := none

inductive MembersError
  | invalidReceiveMembersParameters
deriving DecidableEq, Repr

/-- A response while it is processed. -/
structure MemberList (U N D : Type) where
  stateChanges : StateChanges U N D := {}
  ambiguityMap : List (D × Finset U) := []
  summary : RoomSummary := {}
  outdatedMembers : List U := []

namespace MemberList

def count (l : MemberList U N D) : MembershipState → MemberList U N D
  | .join => { l with summary := { l.summary with joinedMemberCount := l.summary.joinedMemberCount + 1 } }
  | .invite => { l with summary := { l.summary with invitedMemberCount := l.summary.invitedMemberCount + 1 } }
  | _ => l

/-- An active member is one of the users of its display name, if it has set one. -/
def addName (l : MemberList U N D) (member : RoomMemberEvent U N) : MemberList U N D :=
  match member.displayname with
  | none => l
  | some name =>
    if isMemberActive member.membership then
      let d := names.displayName name
      { l with ambiguityMap := IndexMap.insert l.ambiguityMap d (insert member.stateKey ((get l.ambiguityMap d).getD ∅)) }
    else l

/-- A member of the response. One that a sync wrote in the meantime is left alone. -/
def addMember (writes : SyncMemberWrites U) (l : MemberList U N D) (member : RoomMemberEvent U N) :
    MemberList U N D :=
  if member.stateKey ∈ writes.users then { l with outdatedMembers := l.outdatedMembers ++ [member.stateKey] }
  else
    let l := (l.count member.membership).addName names member
    let changes := upsertOrDelete l.stateChanges member
    { l with stateChanges := { changes with state := IndexMap.insert changes.state member.stateKey member } }

/-- A member that was left alone contributes what the store has. -/
def addOutdated (store : MemoryStore U N D) (l : MemberList U N D) (user : U) : MemberList U N D :=
  match store.getMemberEvent user with
  | none => l
  | some member => (l.count member.membership).addName names member

/-- The whole response. -/
def ofResponse (writes : SyncMemberWrites U) (store : MemoryStore U N D)
    (chunk : List (RoomMemberEvent U N)) :
    MemberList U N D :=
  let l := chunk.foldl (addMember names writes) {}
  l.outdatedMembers.foldl (addOutdated names store) l

end MemberList

/-- The response is saved, with the member counts. -/
def saveMembers (writes : SyncMemberWrites U) (store : MemoryStore U N D)
    (chunk : List (RoomMemberEvent U N)) :
    MemoryStore U N D :=
  let l := MemberList.ofResponse names writes store chunk
  { store.saveChanges { l.stateChanges with ambiguityMap := l.ambiguityMap } with summary := l.summary }

/-- Only the response to a request without filters is complete. -/
def receiveAllMembers (writes : SyncMemberWrites U) (store : MemoryStore U N D) (request : MembersRequest)
    (chunk : List (RoomMemberEvent U N)) : Except MembersError (MemoryStore U N D) :=
  if request.membership.isSome ∨ request.notMembership.isSome ∨ request.at_.isSome then
    .error .invalidReceiveMembersParameters
  else
    .ok (saveMembers names writes store chunk)

end Ambiguity

end HaranaMatrix.Base
