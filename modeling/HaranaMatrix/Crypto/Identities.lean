import Mathlib.Data.List.Nodup

/-!
# Devices and identities

What the crypto store knows about the devices of a user and their cross-signing identity, and whom
we trust. -/

namespace HaranaMatrix.Crypto

abbrev UserId := String
abbrev DeviceId := String
abbrev Curve25519PublicKey := String
abbrev MasterPubkey := String
abbrev SelfSigningPubkey := String
abbrev UserSigningPubkey := String

/-! ## Sequence numbers -/

/-- `SequenceNumber(i64)`, which wraps around. -/
structure SequenceNumber where
  value : BitVec 64
deriving DecidableEq

namespace SequenceNumber

/-- `wrapping_sub(other).cmp(&0)` -/
def cmp (a b : SequenceNumber) : Ordering := compare (a.value - b.value).toInt 0

def lt (a b : SequenceNumber) : Bool := a.cmp b = .lt

def increment (a : SequenceNumber) : SequenceNumber := ⟨a.value + 1⟩

def previous (a : SequenceNumber) : SequenceNumber := ⟨a.value - 1⟩

end SequenceNumber

/-! ## Devices -/

inductive LocalTrust
  | verified
  | blackListed
  | ignored
  | unset
deriving DecidableEq

structure DeviceData where
  userId : UserId
  deviceId : DeviceId
  curve25519Key : Option Curve25519PublicKey
  localTrustState : LocalTrust
  isDehydrated : Bool
  wasWithheldCodeSent : Bool
  olmWedgingIndex : SequenceNumber
deriving DecidableEq

def DeviceData.isBlacklisted (device : DeviceData) : Bool := device.localTrustState = .blackListed

/-- The devices of a user, by their device IDs. -/
structure UserDevices (userId : UserId) where
  devices : List DeviceData
  nodup : (devices.map (·.deviceId)).Nodup
  owner : ∀ d ∈ devices, d.userId = userId

/-! ## Identities -/

inductive OwnUserIdentityVerifiedState
  | neverVerified
  | verificationViolation
  | verified
deriving DecidableEq

structure OwnUserIdentityData where
  userId : UserId
  masterKey : MasterPubkey
  selfSigningKey : SelfSigningPubkey
  userSigningKey : UserSigningPubkey
  verified : OwnUserIdentityVerifiedState
deriving DecidableEq

structure OtherUserIdentityData where
  userId : UserId
  masterKey : MasterPubkey
  selfSigningKey : SelfSigningPubkey
  previouslyVerified : Bool
deriving DecidableEq

inductive UserIdentityData
  | own (identity : OwnUserIdentityData)
  | other (identity : OtherUserIdentityData)
deriving DecidableEq

/-- The checks of signatures, which are not part of the source: of a device by a self-signing key,
of a master key by a user-signing key, and of a master key by an X.509 certificate (never, unless
that feature is on). -/
structure Signatures where
  verifyDevice : SelfSigningPubkey → DeviceData → Bool
  verifyMasterKey : UserSigningPubkey → MasterPubkey → Bool
  verifySignedObject : UserId → MasterPubkey → Bool

variable (sigs : Signatures)

namespace OwnUserIdentityData

variable (identity : OwnUserIdentityData)

def isVerified : Bool := identity.verified = .verified

def wasPreviouslyVerified : Bool :=
  identity.verified = .verified || identity.verified = .verificationViolation

def isIdentitySigned (other : OtherUserIdentityData) : Bool :=
  sigs.verifyMasterKey identity.userSigningKey other.masterKey

def isDeviceSigned (device : DeviceData) : Bool :=
  identity.userId = device.userId && sigs.verifyDevice identity.selfSigningKey device

end OwnUserIdentityData

namespace OtherUserIdentityData

def isVerified (identity : OtherUserIdentityData) (ownIdentity : Option OwnUserIdentityData) : Bool :=
  (ownIdentity.any fun own => own.isVerified && own.isIdentitySigned sigs identity) ||
    sigs.verifySignedObject identity.userId identity.masterKey

def isDeviceSigned (identity : OtherUserIdentityData) (device : DeviceData) : Bool :=
  identity.userId = device.userId && sigs.verifyDevice identity.selfSigningKey device

end OtherUserIdentityData

namespace UserIdentityData

def wasPreviouslyVerified : UserIdentityData → Bool
  | own identity => identity.wasPreviouslyVerified
  | other identity => identity.previouslyVerified

def intoOwn : UserIdentityData → Option OwnUserIdentityData
  | own identity => some identity
  | other _ => none

end UserIdentityData

namespace DeviceData

def isCrossSigningTrusted (device : DeviceData) (ownIdentity : Option OwnUserIdentityData)
    (deviceOwner : Option UserIdentityData) : Bool :=
  deviceOwner.any fun owner =>
    match owner with
    | .own _ => ownIdentity.any fun own => own.isVerified && own.isDeviceSigned sigs device
    | .other identity => identity.isVerified sigs ownIdentity && identity.isDeviceSigned sigs device

def isCrossSignedByOwner (device : DeviceData) : UserIdentityData → Bool
  | .own identity => identity.isDeviceSigned sigs device
  | .other identity => identity.isDeviceSigned sigs device

end DeviceData

def isUserVerified (ownIdentity : Option OwnUserIdentityData) : UserIdentityData → Bool
  | .own identity => identity.isVerified
  | .other identity => identity.isVerified sigs ownIdentity

end HaranaMatrix.Crypto
