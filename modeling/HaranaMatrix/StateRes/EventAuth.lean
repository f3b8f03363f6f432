import HaranaMatrix.StateRes.Event

/-!
# The authorization rules

The synchronous checks, as programs that look events up by identifier or by state key. An event that
is not allowed is an error with the description of the rule. -/

namespace HaranaMatrix.StateRes

open Query (lookup fail lift)

abbrev EventQuery (α : Type) := Query EventId Event String α
abbrev StateQuery (α : Type) := Query StateKey Event String α

/-- If the condition holds, reject. -/
def reject {K : Type} (c : Prop) [Decidable c] (reason : String) : Query K Event String Unit :=
  if c then fail reason else pure ()

/-! ## Which events are needed -/

/-- The key is added unless it is there. -/
def addAuthType (authTypes : List StateKey) (key : StateKey) : List StateKey :=
  if key ∈ authTypes then authTypes else authTypes ++ [key]

/-- The event of a third-party invite. -/
def thirdPartyInviteKeys (membership : MembershipState) (content : Content) : Except String (List StateKey) :=
  if membership = .invite then do
    let thirdPartyInvite ← content.thirdPartyInvite
    match thirdPartyInvite with
    | some thirdPartyInvite => thirdPartyInvite.token.map fun token => [(.roomThirdPartyInvite, token)]
    | none => .ok []
  else .ok []

/-- The user who authorised a restricted join. -/
def authorisedUserKeys (membership : MembershipState) (content : Content) (rules : AuthorizationRules) :
    Except String (List StateKey) :=
  if membership = .join ∧ rules.restrictedJoinRule then do
    let userId ← content.joinAuthorisedViaUsersServer
    .ok (userId.toList.map fun userId => (.roomMember, userId))
  else .ok []

/-- The part for member events of `auth_types_for_event`. -/
def authTypesForMember (authTypes : List StateKey) (stateKey : Option String) (content : Content)
    (rules : AuthorizationRules) : Except String (List StateKey) :=
  match stateKey with
  | none => .error "missing `state_key` field for `m.room.member` event"
  | some stateKey => do
    let membership ← content.membership
    let joinRules : List StateKey :=
      if membership = .join ∨ membership = .invite ∨ membership = .knock then [(.roomJoinRules, "")] else []
    let thirdPartyInvite ← thirdPartyInviteKeys membership content
    let authorisedUser ← authorisedUserKeys membership content rules
    .ok (((.roomMember, stateKey) :: joinRules ++ thirdPartyInvite ++ authorisedUser).foldl addAuthType authTypes)

def authTypesForEvent (eventType : EventType) (sender : UserId) (stateKey : Option String) (content : Content)
    (rules : AuthorizationRules) : Except String (List StateKey) :=
  if eventType = .roomCreate then .ok []
  else
    let authTypes : List StateKey := [(.roomPowerLevels, ""), (.roomMember, sender)]
    let authTypes := if rules.roomCreateEventIdAsRoomId then authTypes else authTypes ++ [(.roomCreate, "")]
    if eventType = .roomMember then authTypesForMember authTypes stateKey content rules else .ok authTypes

section Rules

variable [Ruma] (rules : AuthorizationRules)

/-! ## The state-independent rules -/

variable (event : Event)

def checkRoomCreate : Except String Unit := do
  if event.prevEvents ≠ [] then .error "`m.room.create` event cannot have previous events" else .ok ()
  if rules.roomCreateEventIdAsRoomId then
    if event.roomId.isSome then .error "`m.room.create` event cannot have a `room_id` field" else .ok ()
  else
    match event.roomId with
    | none => .error "missing `room_id` field in `m.room.create` event"
    | some roomId =>
      match Ruma.roomServerName roomId with
      | none => .error "invalid `room_id` field in `m.room.create` event: could not parse server name"
      | some serverName =>
        if serverName ≠ Ruma.userServerName event.sender then
          .error "invalid `room_id` field in `m.room.create` event: server name does not match sender's server name"
        else .ok ()
  if rules.useRoomCreateSender then .ok ()
  else do
    if ← event.content.hasCreator then .ok () else .error "missing `creator` field in `m.room.create` event"
  let _ ← event.additionalCreators rules

/-- The loop over the auth events: the types and keys that were seen. -/
def checkAuthEvents (expectedAuthTypes : List StateKey) (roomId : RoomId) :
    List EventId → List StateKey → EventQuery (List StateKey)
  | [], seenAuthTypes => pure seenAuthTypes
  | eventId :: authEvents, seenAuthTypes => do
    match ← lookup eventId with
    | none => fail s!"failed to find auth event {eventId}"
    | some authEvent => do
      reject (authEvent.roomId ≠ some roomId) s!"auth event {eventId} not in the same room"
      match authEvent.stateKey with
      | none => fail s!"auth event {eventId} has no `state_key`"
      | some stateKey => do
        let key := (authEvent.eventType, stateKey)
        reject (key ∈ seenAuthTypes) s!"duplicate auth event {eventId} for ({authEvent.eventType.name}, {stateKey}) pair"
        reject (key ∉ expectedAuthTypes)
          s!"unexpected auth event {eventId} with ({authEvent.eventType.name}, {stateKey}) pair"
        reject (authEvent.rejected = true) s!"rejected auth event {eventId}"
        checkAuthEvents expectedAuthTypes roomId authEvents (seenAuthTypes ++ [key])

/-- Since v12 the room ID is the ID of an accepted create event. -/
def checkRoomCreateOf (roomId : RoomId) : EventQuery Unit :=
  match Ruma.roomCreateEventId roomId with
  | .error error => fail s!"could not construct `m.room.create` event ID from room ID: {error}"
  | .ok roomCreateEventId => do
    match ← lookup roomCreateEventId with
    | none => fail s!"failed to find `m.room.create` event {roomCreateEventId}"
    | some roomCreateEvent =>
      reject (roomCreateEvent.rejected = true) s!"rejected `m.room.create` event {roomCreateEventId}"

def checkStateIndependentAuthRules : EventQuery Unit :=
  if event.eventType = .roomCreate then lift (checkRoomCreate rules event)
  else do
    let expectedAuthTypes ← lift (authTypesForEvent event.eventType event.sender event.stateKey event.content rules)
    match event.roomId with
    | none => fail "missing `room_id` field for event"
    | some roomId => do
      let seenAuthTypes ← checkAuthEvents expectedAuthTypes roomId event.authEvents []
      reject (rules.roomCreateEventIdAsRoomId = false ∧ ∀ key ∈ seenAuthTypes, key.1 ≠ .roomCreate)
        "no `m.room.create` event in auth events"
      if rules.roomCreateEventIdAsRoomId then checkRoomCreateOf roomId else pure ()

/-! ## Reading the state -/

def roomCreateEvent : StateQuery Event := do
  match ← lookup (.roomCreate, "") with
  | some event => pure event
  | none => fail "no `m.room.create` event in current state"

/-- Without a member event the membership is `leave`. -/
def userMembership (userId : UserId) : StateQuery MembershipState := do
  match ← lookup (.roomMember, userId) with
  | some event => lift event.content.membership
  | none => pure .leave

def roomPowerLevelsEvent : StateQuery (Option Event) := lookup (.roomPowerLevels, "")

def joinRule : StateQuery JoinRuleKind := do
  match ← lookup (.roomJoinRules, "") with
  | some event => lift event.content.joinRule
  | none => fail "no `m.room.join_rules` event in current state"

def roomThirdPartyInviteEvent (token : String) : StateQuery (Option Event) :=
    lookup (.roomThirdPartyInvite, token)

/-! ## Member events -/

/-- The user who authorised a restricted join is joined and may invite. -/
def checkAuthorisedJoin (creators : List UserId) : StateQuery Unit := do
  match ← lift event.content.joinAuthorisedViaUsersServer with
  | none =>
    fail "cannot join restricted room without `join_authorised_via_users_server` field if not invited"
  | some authorizedViaUser => do
    let membership ← userMembership authorizedViaUser
    reject (membership ≠ .join) "`join_authorised_via_users_server` is not joined"
    let powerLevels ← roomPowerLevelsEvent
    let userLevel ← lift (userPowerLevel rules powerLevels authorizedViaUser creators)
    let inviteLevel ← lift (intOrDefault rules powerLevels .invite)
    reject (userLevel.ltInt inviteLevel =
      true) "`join_authorised_via_users_server` does not have enough power"

/-- What a join needs, once the sender is the target. -/
def checkJoinRule (targetUser : UserId) (creators : List UserId) : StateQuery Unit := do
  let currentMembership ← userMembership targetUser
  reject (currentMembership = .ban) "banned user cannot join room"
  let rule ← joinRule
  if (rule = .invite ∨ (rules.knocking ∧ rule = .knock)) ∧
    (currentMembership = .invite ∨ currentMembership = .join) then
    pure ()
  else if (rules.restrictedJoinRule ∧ rule = .restricted) ∨ (rules.knockRestrictedJoinRule ∧ rule = .knockRestricted) then
    if currentMembership = .join ∨ currentMembership = .invite then pure ()
    else checkAuthorisedJoin rules event creators
  else reject (rule ≠ .publicRule) "cannot join a room that is not `public`"

section

variable (event : Event) (targetUser : UserId) (create : Event)

def checkRoomMemberJoin : StateQuery Unit := do
  let creator ← lift (create.creator rules)
  let creators ← lift (create.creators rules)
  -- the creator joins right after the create event
  if event.prevEvents = [create.eventId] ∧ targetUser = creator then pure ()
  else do
    reject (event.sender ≠ targetUser) "sender of join event must match target user"
    checkJoinRule rules event targetUser creators

/-- Some signature of some entity matches a public key; an entity that is not an object is an
error. -/
def findSignature (publicKeys : List String) (json : String) : List (Option (List (String × Option String))) →
    Except String Bool
  | [] => .ok false
  | none :: _ => .error "unexpected format of `signatures` field in `third_party_invite.signed` of `m.room.member` event"
  | some signatures :: entities =>
    if signatures.any fun x => x.2.any fun signature =>
        publicKeys.any fun publicKey => Ruma.verifyCanonicalJsonBytes x.1 signature publicKey json then .ok true
    else findSignature publicKeys json entities

def checkThirdPartyInvite (event : Event) (thirdPartyInvite : ThirdPartyInvite) (targetUser : UserId) :
    StateQuery Unit := do
  let currentMembership ← userMembership targetUser
  reject (currentMembership = .ban) "cannot invite user that is banned"
  let token ← lift thirdPartyInvite.token
  let mxid ← lift thirdPartyInvite.mxid
  reject (targetUser ≠ mxid) "third-party invite mxid does not match target user"
  match ← roomThirdPartyInviteEvent token with
  | none => fail "no `m.room.third_party_invite` in room state matches the token"
  | some inviteEvent => do
    reject (event.sender ≠ inviteEvent.sender)
      "sender of `m.room.third_party_invite` does not match sender of `m.room.member`"
    let publicKeys ← lift inviteEvent.content.publicKeys
    let signatures ← lift thirdPartyInvite.signatures
    let json ← lift thirdPartyInvite.signedCanonicalJson
    let found ← lift (findSignature publicKeys json signatures)
    reject (found = false) "no signature on third-party invite matches a public key in `m.room.third_party_invite` event"

def checkRoomMemberInvite : StateQuery Unit := do
  match ← lift event.content.thirdPartyInvite with
  | some thirdPartyInvite => checkThirdPartyInvite event thirdPartyInvite targetUser
  | none => do
    let senderMembership ← userMembership event.sender
    reject (senderMembership ≠ .join) "cannot invite user if sender is not joined"
    let targetMembership ← userMembership targetUser
    reject (targetMembership = .join ∨ targetMembership = .ban) "cannot invite user that is joined or banned"
    let creators ← lift (create.creators rules)
    let powerLevels ← roomPowerLevelsEvent
    let senderLevel ← lift (userPowerLevel rules powerLevels event.sender creators)
    let inviteLevel ← lift (intOrDefault rules powerLevels .invite)
    reject (senderLevel.ltInt inviteLevel = true) "sender does not have enough power to invite"

/-- A member that is removed by another one. -/
def checkKick : StateQuery Unit := do
  let creators ← lift (create.creators rules)
  let powerLevels ← roomPowerLevelsEvent
  let targetMembership ← userMembership targetUser
  let senderLevel ← lift (userPowerLevel rules powerLevels event.sender creators)
  let banLevel ← lift (intOrDefault rules powerLevels .ban)
  reject (targetMembership = .ban ∧ senderLevel.ltInt banLevel =
    true) "sender does not have enough power to unban"
  let kickLevel ← lift (intOrDefault rules powerLevels .kick)
  let targetLevel ← lift (userPowerLevel rules powerLevels targetUser creators)
  reject (¬ (senderLevel.ltInt kickLevel = false ∧ targetLevel.lt senderLevel = true))
    "sender does not have enough power to kick target user"

def checkRoomMemberLeave : StateQuery Unit := do
  let senderMembership ← userMembership event.sender
  if event.sender = targetUser then
    reject (¬ (senderMembership = .join ∨ senderMembership = .invite ∨
      (rules.knocking ∧ senderMembership = .knock)))
      "cannot leave if not joined, invited or knocked"
  else do
    reject (senderMembership ≠ .join) "cannot kick if sender is not joined"
    checkKick rules event targetUser create

def checkRoomMemberBan : StateQuery Unit := do
  let senderMembership ← userMembership event.sender
  reject (senderMembership ≠ .join) "cannot ban if sender is not joined"
  let creators ← lift (create.creators rules)
  let powerLevels ← roomPowerLevelsEvent
  let senderLevel ← lift (userPowerLevel rules powerLevels event.sender creators)
  let banLevel ← lift (intOrDefault rules powerLevels .ban)
  let targetLevel ← lift (userPowerLevel rules powerLevels targetUser creators)
  reject (¬ (senderLevel.ltInt banLevel = false ∧ targetLevel.lt senderLevel = true))
    "sender does not have enough power to ban target user"

end

def checkRoomMemberKnock (targetUser : UserId) : StateQuery Unit := do
  let rule ← joinRule
  reject (¬ (rule = .knock ∨ (rules.knockRestrictedJoinRule ∧ rule = .knockRestricted)))
    "join rule is not set to knock or knock_restricted, knocking is not allowed"
  reject (event.sender ≠ targetUser) "cannot make another user knock, sender does not match target user"
  let senderMembership ← userMembership event.sender
  reject (senderMembership = .ban ∨ senderMembership = .invite ∨ senderMembership = .join)
    "cannot knock if user is banned, invited or joined"

/-- The rules of a membership. -/
def checkMembership (targetUser : UserId) (create : Event) : MembershipState → StateQuery Unit
  | .join => checkRoomMemberJoin rules event targetUser create
  | .invite => checkRoomMemberInvite rules event targetUser create
  | .leave => checkRoomMemberLeave rules event targetUser create
  | .ban => checkRoomMemberBan rules event targetUser create
  | .knock => if rules.knocking then checkRoomMemberKnock rules event targetUser else fail "unknown membership"
  | .custom _ => fail "unknown membership"

def checkRoomMember (create : Event) : StateQuery Unit :=
  match event.stateKey with
  | none => fail "missing `state_key` field in `m.room.member` event"
  | some stateKey => do
    match Ruma.validateUserId stateKey with
    | .error e => fail s!"invalid `state_key` field in `m.room.member` event: {e}"
    | .ok () => do
      let targetMembership ← lift event.content.membership
      checkMembership rules event stateKey create targetMembership

/-! ## Power levels -/

/-- The changes between two maps of power levels. -/
def checkPowerLevelMaps {K : Type} [DecidableEq K] (keyName : K → String)
    (current new : Option (List (K × ℤ)))
    (senderPowerLevel : UserPowerLevel) (rejectCurrent : K → ℤ → Bool) (error : K → String) :
      Except String Unit :=
  let keysToCheck := ((current.getD [] ++ new.getD []).map Prod.fst).dedup.insertionSort
    fun a b => keyName a ≤ keyName b
  keysToCheck.foldlM (fun _ key =>
    let currentPowerLevel := current.bind (·.lookup key)
    let newPowerLevel := new.bind (·.lookup key)
    if currentPowerLevel = newPowerLevel then .ok ()
    else if currentPowerLevel.any (rejectCurrent key) || newPowerLevel.any senderPowerLevel.ltInt then
      .error (error key)
    else .ok ()) ()

/-- The changes of the fields with an integer value. -/
def checkIntFields (current : Event) (newIntFields : List (RoomPowerLevelsIntField × ℤ))
    (senderPowerLevel : UserPowerLevel) : Except String Unit :=
  RoomPowerLevelsIntField.all.foldlM (fun _ field => do
    let currentPowerLevel ← current.getAsInt rules field
    let newPowerLevel := newIntFields.lookup field
    if currentPowerLevel = newPowerLevel then .ok ()
    else if senderPowerLevel.ltInt (currentPowerLevel.getD field.defaultValue) ||
        senderPowerLevel.ltInt (newPowerLevel.getD field.defaultValue) then
      .error s!"sender does not have enough power to change the power level of `{field.asStr}`"
    else .ok ()) ()

def checkRoomPowerLevels (current : Option Event) (senderPowerLevel : UserPowerLevel)
    (roomCreators : List UserId) : Except String Unit := do
  let newIntFields ← event.intFieldsMap rules
  let newEvents ← event.content.events rules.integerPowerLevels
  let newNotifications ← event.content.notifications rules.integerPowerLevels
  let newUsers ← event.content.users rules.integerPowerLevels
  if rules.explicitlyPrivilegeRoomCreators ∧
      roomCreators.any (fun creator => (newUsers.getD []).any fun x => x.1 = creator) then
    .error "creator user IDs are not allowed in the `users` field"
  else
    match current with
    | none => .ok ()
    | some current => do
      checkIntFields rules current newIntFields senderPowerLevel
      let currentEvents ← current.content.events rules.integerPowerLevels
      checkPowerLevelMaps EventType.name currentEvents newEvents senderPowerLevel (fun _ level => senderPowerLevel.ltInt level)
        fun key => s!"sender does not have enough power to change the `{key.name}` event type power level"
      if rules.limitNotificationsPowerLevels then do
        let currentNotifications ← current.content.notifications rules.integerPowerLevels
        checkPowerLevelMaps id currentNotifications newNotifications senderPowerLevel
          (fun _ level => senderPowerLevel.ltInt level)
          fun key => s!"sender does not have enough power to change the `{key}` notification power level"
      let currentUsers ← current.content.users rules.integerPowerLevels
      checkPowerLevelMaps id currentUsers newUsers senderPowerLevel
        (fun userId level => userId ≠ event.sender && senderPowerLevel.leInt level)
        fun userId => s!"sender does not have enough power to change `{userId}`'s  power level"

def checkRoomRedaction (current : Option Event) (senderLevel : UserPowerLevel) : Except String Unit := do
  let redactLevel ← intOrDefault rules current .redact
  if senderLevel.ltInt redactLevel = false then .ok ()
  else if Ruma.eventServerName event.eventId = event.redacts.bind Ruma.eventServerName then .ok ()
  else .error "`m.room.redaction` event did not pass any of the allow rules"

/-! ## The state-dependent rules -/

/-- The rules for events of a joined sender. -/
def checkSenderPower (creators : List UserId) (powerLevels : Option Event) : Except String Unit := do
  let senderPowerLevel ← userPowerLevel rules powerLevels event.sender creators
  if event.eventType = .roomThirdPartyInvite then do
    let invitePowerLevel ← intOrDefault rules powerLevels .invite
    if senderPowerLevel.ltInt invitePowerLevel then
      .error "sender does not have enough power to send invites in this room"
    else .ok ()
  else do
    let eventTypePowerLevel ← eventPowerLevel rules powerLevels event.eventType event.stateKey
    if senderPowerLevel.ltInt eventTypePowerLevel then
      .error s!"sender does not have enough power to send event of type `{event.eventType.name}`"
    else if event.stateKey.any (·.startsWith "@") ∧ event.stateKey ≠ some event.sender then
      .error "sender cannot send event with `state_key` matching another user's ID"
    else if event.eventType = .roomPowerLevels then
      checkRoomPowerLevels rules event powerLevels senderPowerLevel creators
    else if rules.specialCaseRoomRedaction ∧ event.eventType = .roomRedaction then
      checkRoomRedaction rules event powerLevels senderPowerLevel
    else .ok ()

def checkStateDependentAuthRules : StateQuery Unit :=
  if event.eventType = .roomCreate then pure ()
  else do
    let create ← roomCreateEvent
    let federate ← lift create.federate
    reject (federate = false ∧ Ruma.userServerName create.sender ≠ Ruma.userServerName event.sender)
      "room is not federated and event's sender domain does not match `m.room.create` event's sender domain"
    if rules.specialCaseRoomAliases ∧ event.eventType = .other "m.room.aliases" then
      reject (event.stateKey ≠ some (Ruma.userServerName event.sender))
        "server name of the `state_key` of `m.room.aliases` event does not match the server name of the sender"
    else if event.eventType = .roomMember then checkRoomMember rules event create
    else do
      let senderMembership ← userMembership event.sender
      reject (senderMembership ≠ .join) "sender's membership is not `join`"
      let creators ← lift (create.creators rules)
      let powerLevels ← roomPowerLevelsEvent
      lift (checkSenderPower rules event creators powerLevels)

end Rules

end HaranaMatrix.StateRes
