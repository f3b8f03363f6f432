import HaranaMatrix.Lib.Query

/-!
# Events, as the authorization rules read them

An event is what the trait `Event` gives. Its content is JSON that is deserialized one field at a
time, when the field is asked for; here a content is what each of these fields deserializes to, or
the error text. What the rules use of identifiers and of signatures is the class `Ruma`. -/

namespace HaranaMatrix.StateRes

abbrev UserId := String
abbrev EventId := String
abbrev RoomId := String
abbrev ServerName := String

/-- `TimelineEventType`, and `StateEventType` with the same names -/
inductive EventType
  | roomCreate
  | roomMember
  | roomPowerLevels
  | roomJoinRules
  | roomThirdPartyInvite
  | roomRedaction
  | other (name : String)
deriving DecidableEq

def EventType.name : EventType → String
  | .roomCreate => "m.room.create"
  | .roomMember => "m.room.member"
  | .roomPowerLevels => "m.room.power_levels"
  | .roomJoinRules => "m.room.join_rules"
  | .roomThirdPartyInvite => "m.room.third_party_invite"
  | .roomRedaction => "m.room.redaction"
  | .other name => name

abbrev StateKey := EventType × String

inductive MembershipState
  | ban
  | invite
  | join
  | knock
  | leave
  | custom (name : String)
deriving DecidableEq

inductive JoinRuleKind
  | invite
  | knock
  | privateRule
  | restricted
  | knockRestricted
  | publicRule
  | custom (name : String)
deriving DecidableEq

/-- The rules of a room version. -/
structure AuthorizationRules where
  specialCaseRoomRedaction : Bool
  specialCaseRoomAliases : Bool
  limitNotificationsPowerLevels : Bool
  knocking : Bool
  restrictedJoinRule : Bool
  knockRestrictedJoinRule : Bool
  integerPowerLevels : Bool
  useRoomCreateSender : Bool
  explicitlyPrivilegeRoomCreators : Bool
  additionalRoomCreators : Bool
  roomCreateEventIdAsRoomId : Bool

inductive RoomPowerLevelsIntField
  | usersDefault
  | eventsDefault
  | stateDefault
  | ban
  | redact
  | kick
  | invite
deriving DecidableEq

namespace RoomPowerLevelsIntField

def all : List RoomPowerLevelsIntField :=
  [usersDefault, eventsDefault, stateDefault, ban, redact, kick, invite]

def asStr : RoomPowerLevelsIntField → String
  | usersDefault => "users_default"
  | eventsDefault => "events_default"
  | stateDefault => "state_default"
  | ban => "ban"
  | redact => "redact"
  | kick => "kick"
  | invite => "invite"

def defaultValue : RoomPowerLevelsIntField → ℤ
  | usersDefault | eventsDefault | invite => 0
  | stateDefault | kick | ban | redact => 50

end RoomPowerLevelsIntField

/-- The power level of a user; creators may have an infinite one. -/
inductive UserPowerLevel
  | infinite
  | int (level : ℤ)
deriving DecidableEq

namespace UserPowerLevel

/-- `self < other` -/
def ltInt : UserPowerLevel → ℤ → Bool
  | infinite, _ => false
  | int level, other => level < other

/-- `self <= other` -/
def leInt : UserPowerLevel → ℤ → Bool
  | infinite, _ => false
  | int level, other => level ≤ other

/-- `self < other`, between users -/
def lt : UserPowerLevel → UserPowerLevel → Bool
  | infinite, _ => false
  | int _, infinite => true
  | int level, int other => level < other

end UserPowerLevel

/-- `content.third_party_invite` of a member event; `signatures` has the entities in order, each
with its signatures if it is an object, and each signature if it is a string. -/
structure ThirdPartyInvite where
  token : Except String String
  mxid : Except String String
  signatures : Except String (List (Option (List (String × Option String))))
  signedCanonicalJson : Except String String

/-- What the fields of a content deserialize to. The integers of power levels are read in two ways, for
`integer_power_levels` and for the rules without it. -/
structure Content where
  membership : Except String MembershipState
  joinAuthorisedViaUsersServer : Except String (Option UserId)
  thirdPartyInvite : Except String (Option ThirdPartyInvite)
  joinRule : Except String JoinRuleKind
  federate : Except String (Option Bool)
  creator : Except String UserId
  hasCreator : Except String Bool
  additionalCreators : Except String (List UserId)
  publicKeys : Except String (List String)
  intField : Bool → RoomPowerLevelsIntField → Except String (Option ℤ)
  events : Bool → Except String (Option (List (EventType × ℤ)))
  notifications : Bool → Except String (Option (List (String × ℤ)))
  users : Bool → Except String (Option (List (UserId × ℤ)))

structure Event where
  eventId : EventId
  roomId : Option RoomId
  sender : UserId
  originServerTs : ℕ
  eventType : EventType
  content : Content
  stateKey : Option String
  prevEvents : List EventId
  authEvents : List EventId
  redacts : Option EventId
  rejected : Bool

/-- What the rules use of identifiers and signatures. -/
class Ruma where
  /-- The error of a string that is not a user ID. -/
  validateUserId : String → Except String Unit
  userServerName : UserId → ServerName
  roomServerName : RoomId → Option ServerName
  eventServerName : EventId → Option ServerName
  /-- The event ID with the characters of the room ID, if it is one. -/
  roomCreateEventId : RoomId → Except String EventId
  /-- The key ID, the signature and the public key can be read, and the signature is one of the JSON. -/
  verifyCanonicalJsonBytes (keyId signature publicKey json : String) : Bool

/-! ## Fields of events -/

namespace Event

variable (rules : AuthorizationRules)

variable (event : Event)

def federate : Except String Bool := event.content.federate.map (·.getD true)

def creator : Except String UserId :=
  if rules.useRoomCreateSender then .ok event.sender else event.content.creator

def additionalCreators : Except String (List UserId) :=
  if rules.additionalRoomCreators then event.content.additionalCreators else .ok []

def creators : Except String (List UserId) := do
  let creators ← event.additionalCreators rules
  let creator ← event.creator rules
  return creators.insert creator

def getAsInt (field : RoomPowerLevelsIntField) : Except String (Option ℤ) :=
  event.content.intField rules.integerPowerLevels field

def getAsIntOrDefault (field : RoomPowerLevelsIntField) : Except String ℤ :=
  (event.getAsInt rules field).map (·.getD field.defaultValue)

def intFieldsMap : Except String (List (RoomPowerLevelsIntField × ℤ)) :=
  RoomPowerLevelsIntField.all.foldlM (fun fields field => do
    match ← event.getAsInt rules field with
    | some value => return fields ++ [(field, value)]
    | none => return fields) []

end Event

/-! ## The current power levels -/

section PowerLevels

variable (rules : AuthorizationRules) (powerLevels : Option Event)

/-- `user_power_level` of the current power levels, if there are any. -/
def userPowerLevel (userId : UserId) (creators : List UserId) : Except String UserPowerLevel :=
  if rules.explicitlyPrivilegeRoomCreators ∧ userId ∈ creators then .ok .infinite
  else
    match powerLevels with
    | some event => do
      let users ← event.content.users rules.integerPowerLevels
      match users.bind (·.lookup userId) with
      | some level => return .int level
      | none => (event.getAsIntOrDefault rules .usersDefault).map .int
    | none =>
      .ok (.int (if userId ∈ creators then 100 else RoomPowerLevelsIntField.usersDefault.defaultValue))

/-- `get_as_int_or_default` of the current power levels, if there are any. -/
def intOrDefault (field : RoomPowerLevelsIntField) : Except String ℤ :=
  match powerLevels with
  | some event => event.getAsIntOrDefault rules field
  | none => .ok field.defaultValue

def eventPowerLevel (eventType : EventType) (stateKey : Option String) : Except String ℤ :=
  let defaultField : RoomPowerLevelsIntField := if stateKey.isSome then .stateDefault else .eventsDefault
  match powerLevels with
  | some event => do
    let events ← event.content.events rules.integerPowerLevels
    match events.bind (·.lookup eventType) with
    | some level => return level
    | none => event.getAsIntOrDefault rules defaultField
  | none => .ok defaultField.defaultValue

end PowerLevels

end HaranaMatrix.StateRes
