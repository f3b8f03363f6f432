import HaranaMatrix.Crypto.OutboundSession

/-!
# Who gets a room key

The devices of the members of a room are split into those that get the key and those from which it
is withheld, by one of four strategies. -/

namespace HaranaMatrix.Crypto

/-- What the store gives while recipients are collected; only our own user has an identity of our
own. -/
structure CryptoStore where
  userId : UserId
  deviceId : DeviceId
  userDevices : (userId : UserId) → UserDevices userId
  userIdentity : UserId → Option UserIdentityData
  own_only : ∀ user identity, userIdentity user = some (.own identity) → user = userId

/-- The devices of a user, without our own. -/
def CryptoStore.deviceDataForUserFiltered (store : CryptoStore) (userId : UserId) : List DeviceData :=
  let devices := (store.userDevices userId).devices
  if userId = store.userId then devices.filter (·.deviceId ≠ store.deviceId) else devices

structure CollectRecipientsResult where
  shouldRotate : Bool
  devices : List (UserId × List DeviceData)
  withheldDevices : List (DeviceData × WithheldCode)

structure RecipientDevicesForUser where
  allowedDevices : List DeviceData
  deniedDevicesWithCode : List (DeviceData × WithheldCode)

inductive SessionRecipientCollectionError
  | verifiedUserHasUnsignedDevice (devices : List (UserId × List DeviceId))
  | verifiedUserChangedIdentity (users : List UserId)
  | crossSigningNotSetup
  | sendingFromUnverifiedDevice

section Decisions

variable (sigs : Signatures) (ownIdentity : Option OwnUserIdentityData)
  (deviceOwnerIdentity : Option UserIdentityData)

/-- A user who was verified and is not any more. -/
def hasIdentityVerificationViolation : Bool :=
  deviceOwnerIdentity.any fun owner => owner.wasPreviouslyVerified && !isUserVerified sigs ownIdentity owner

variable (device : DeviceData)

def isUnsignedDeviceOfVerifiedUser : Bool :=
  deviceOwnerIdentity.any fun owner =>
    isUserVerified sigs ownIdentity owner && !device.isCrossSignedByOwner sigs owner

def shouldWithholdToDehydratedDevice : Bool :=
  deviceOwnerIdentity.all fun owner =>
    !device.isCrossSignedByOwner sigs owner || (owner.wasPreviouslyVerified && !isUserVerified sigs ownIdentity owner)

def withheldCodeForDeviceForAllDevicesStrategy : Option WithheldCode :=
  if device.isBlacklisted then some .blacklisted
  else if device.isDehydrated && shouldWithholdToDehydratedDevice sigs ownIdentity deviceOwnerIdentity device then
    some .unverified
  else none

inductive ErrorOnVerifiedUserProblemDeviceDecision
  | ok
  | withhold (code : WithheldCode)
  | unsignedOfVerified

def handleDeviceForUserForErrorOnVerifiedUserProblemStrategy : ErrorOnVerifiedUserProblemDeviceDecision :=
  if device.isBlacklisted then .withhold .blacklisted
  else if device.localTrustState = .ignored then .ok
  else if isUnsignedDeviceOfVerifiedUser sigs ownIdentity deviceOwnerIdentity device then .unsignedOfVerified
  else if device.isDehydrated && deviceOwnerIdentity.all fun owner => !device.isCrossSignedByOwner sigs owner then
    .withhold .unverified
  else .ok

def withheldCodeForDeviceWithOwnerForIdentityBasedStrategy (owner : UserIdentityData) (device : DeviceData) :
    Option WithheldCode :=
  if device.isCrossSignedByOwner sigs owner then none else some .unverified

def withheldCodeForDeviceForOnlyTrustedDevicesStrategy : Option WithheldCode :=
  match device.localTrustState, device.isCrossSigningTrusted sigs ownIdentity deviceOwnerIdentity with
  | .blackListed, _ => some .blacklisted
  | .ignored, _ | .verified, _ => none
  | .unset, false => some .unverified
  | .unset, true => none

end Decisions

/-! ## Splitting the devices of a user -/

/-- The devices without a code, and those with one. -/
def partitionDevices (code : DeviceData → Option WithheldCode) (devices : List DeviceData) :
    RecipientDevicesForUser where
  allowedDevices := devices.filter fun d => (code d).isNone
  deniedDevicesWithCode := devices.filterMap fun d => (code d).map fun code => (d, code)

section Split

variable (sigs : Signatures) (ownIdentity : Option OwnUserIdentityData)
  (deviceOwnerIdentity : Option UserIdentityData)
  (userDevices : List DeviceData)

def splitDevicesForUserForAllDevicesStrategy : RecipientDevicesForUser :=
  partitionDevices (withheldCodeForDeviceForAllDevicesStrategy sigs ownIdentity deviceOwnerIdentity) userDevices

/-- The unsigned devices of a verified user, or else the split. -/
def splitDevicesForUserForErrorOnVerifiedUserProblemStrategy : List DeviceId ⊕ RecipientDevicesForUser :=
  let decide := handleDeviceForUserForErrorOnVerifiedUserProblemStrategy sigs ownIdentity deviceOwnerIdentity
  let unsigned := userDevices.filterMap fun d =>
    match decide d with
    | .unsignedOfVerified => some d.deviceId
    | _ => none
  if unsigned = [] then
    .inr {
      allowedDevices := userDevices.filter fun d =>
        match decide d with
        | .ok => true
        | _ => false
      deniedDevicesWithCode := userDevices.filterMap fun d =>
        match decide d with
        | .withhold code => some (d, code)
        | _ => none }
  else .inl unsigned

def splitDevicesForUserForIdentityBasedStrategy : RecipientDevicesForUser :=
  match deviceOwnerIdentity with
  | none => ⟨[], userDevices.map fun d => (d, .unverified)⟩
  | some owner => partitionDevices (withheldCodeForDeviceWithOwnerForIdentityBasedStrategy sigs owner) userDevices

def splitDevicesForUserForOnlyTrustedDevices : RecipientDevicesForUser :=
  partitionDevices (withheldCodeForDeviceForOnlyTrustedDevicesStrategy sigs ownIdentity deviceOwnerIdentity) userDevices

end Split

/-! ## Collecting recipients -/

/-- The session was shared with a device of the user that is not a recipient. -/
def isSessionOversharedForUser (session : OutboundGroupSession) (userId : UserId)
    (recipientDevices : List DeviceData) :
    Bool :=
  session.iterShares.any fun entry =>
    entry.1.1 = userId && entry.2.isShared && !recipientDevices.any (·.deviceId = entry.1.2)

def updateRecipientsForUser (recipients : CollectRecipientsResult) (outbound : Option OutboundGroupSession)
    (userId : UserId) (recipientDevices : RecipientDevicesForUser) : CollectRecipientsResult where
  shouldRotate := recipients.shouldRotate ||
    outbound.any (isSessionOversharedForUser · userId recipientDevices.allowedDevices)
  devices := recipients.devices ++ [(userId, recipientDevices.allowedDevices)]
  withheldDevices := recipients.withheldDevices ++ recipientDevices.deniedDevicesWithCode

/-- What has been collected so far. -/
structure Collected where
  result : CollectRecipientsResult
  verifiedUsersWithNewIdentities : List UserId
  unsignedDevicesOfVerifiedUsers : List (UserId × List DeviceId)

/-- The collection fails if a user has an unsigned device or another identity. -/
def Collected.finish (collected : Collected) :
    Except SessionRecipientCollectionError CollectRecipientsResult :=
  if collected.unsignedDevicesOfVerifiedUsers ≠ [] then
    .error (.verifiedUserHasUnsignedDevice collected.unsignedDevicesOfVerifiedUsers)
  else if collected.verifiedUsersWithNewIdentities ≠ [] then
    .error (.verifiedUserChangedIdentity collected.verifiedUsersWithNewIdentities)
  else .ok collected.result

section Collect

variable (sigs : Signatures) (store : CryptoStore) (shareStrategy : CollectStrategy)
  (outbound : Option OutboundGroupSession)

def CryptoStore.ownIdentity : Option OwnUserIdentityData :=
  (store.userIdentity store.userId).bind UserIdentityData.intoOwn

/-- One user of the list. -/
def collectForUser (collected : Collected) (userId : UserId) : Collected :=
  let userDevices := store.deviceDataForUserFiltered userId
  let owner := store.userIdentity userId
  let update (split : RecipientDevicesForUser) : Collected :=
    { collected with result := updateRecipientsForUser collected.result outbound userId split }
  match shareStrategy with
  | .allDevices => update (splitDevicesForUserForAllDevicesStrategy sigs store.ownIdentity owner userDevices)
  | .errorOnVerifiedUserProblem =>
    if hasIdentityVerificationViolation sigs store.ownIdentity owner then
      { collected with verifiedUsersWithNewIdentities := collected.verifiedUsersWithNewIdentities ++ [userId] }
    else
      match splitDevicesForUserForErrorOnVerifiedUserProblemStrategy sigs store.ownIdentity owner userDevices with
      | .inl devices =>
        { collected with unsignedDevicesOfVerifiedUsers := collected.unsignedDevicesOfVerifiedUsers ++ [(userId, devices)] }
      | .inr split => update split
  | .identityBasedStrategy =>
    if hasIdentityVerificationViolation sigs store.ownIdentity owner then
      { collected with verifiedUsersWithNewIdentities := collected.verifiedUsersWithNewIdentities ++ [userId] }
    else update (splitDevicesForUserForIdentityBasedStrategy sigs owner userDevices)
  | .onlyTrustedDevices => update (splitDevicesForUserForOnlyTrustedDevices sigs store.ownIdentity owner userDevices)

/-- Some user with whom the session was shared is not in the list. -/
def hasLeftUsers (users : List UserId) : Bool :=
  outbound.any fun session => session.sharedWithUsers.any fun userId => !users.contains userId

def collectRecipientsForShareStrategy (users : List UserId) :
    Except SessionRecipientCollectionError CollectRecipientsResult :=
  let collected := users.dedup.foldl (collectForUser sigs store shareStrategy outbound)
    ⟨⟨hasLeftUsers outbound users, [], []⟩, [], []⟩
  match shareStrategy with
  | .identityBasedStrategy =>
    match store.ownIdentity with
    | none => .error .crossSigningNotSetup
    | some identity => if ¬ identity.isVerified then .error .sendingFromUnverifiedDevice else collected.finish
  | _ => collected.finish

/-- `collect_session_recipients`: also rotate if the history visibility or the algorithm changed. -/
def collectSessionRecipients (users : List UserId) (settings : EncryptionSettings)
    (session : OutboundGroupSession) :
    Except SessionRecipientCollectionError CollectRecipientsResult :=
  match collectRecipientsForShareStrategy sigs store settings.sharingStrategy (some session) users with
  | .error e => .error e
  | .ok result => .ok { result with
      shouldRotate := result.shouldRotate || session.settings.historyVisibility ≠ settings.historyVisibility ||
        session.settings.algorithm ≠ settings.algorithm }

end Collect

end HaranaMatrix.Crypto
