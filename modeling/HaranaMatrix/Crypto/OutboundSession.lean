import HaranaMatrix.Crypto.Identities
import HaranaMatrix.Lib.IndexMap

/-!
# Outbound group sessions

A session remembers for each device whether its key was shared with it or withheld from it, also in
the requests that are not sent yet. -/

namespace HaranaMatrix.Crypto

abbrev SessionId := ℕ
abbrev RequestId := ℕ

inductive WithheldCode
  | blacklisted
  | unverified
  | noOlm
deriving DecidableEq

structure SharedWith where
  senderKey : Curve25519PublicKey
  messageIndex : ℕ
  olmWedgingIndex : SequenceNumber
deriving DecidableEq

structure WithheldInfo where
  code : WithheldCode
  messageIndex : Option ℕ
deriving DecidableEq

inductive ShareInfo
  | shared (info : SharedWith)
  | withheld (info : WithheldInfo)
deriving DecidableEq

def ShareInfo.isShared : ShareInfo → Bool
  | shared _ => true
  | withheld _ => false

/-- One entry for a device of a user. -/
abbrev ShareInfoSet := List ((UserId × DeviceId) × ShareInfo)

def ShareInfoSet.extend (set infos : ShareInfoSet) : ShareInfoSet :=
  infos.foldl (fun set entry => IndexMap.insert set entry.1 entry.2) set

lemma ShareInfoSet.mem_extend {set infos : ShareInfoSet} {entry : (UserId × DeviceId) × ShareInfo}
    (h : entry ∈ set.extend infos) : entry ∈ set ∨ entry ∈ infos := by
  induction infos generalizing set with
  | nil => exact .inl h
  | cons info infos ih =>
    rcases ih h with h | h
    · rcases IndexMap.mem_insert h with rfl | h
      · exact .inr List.mem_cons_self
      · exact .inl h
    · exact .inr (List.mem_cons_of_mem _ h)

inductive EventEncryptionAlgorithm
  | megolmV1AesSha2
  | unsupported (name : String)
deriving DecidableEq

inductive HistoryVisibility
  | invited
  | joined
  | shared
  | worldReadable
deriving DecidableEq

inductive CollectStrategy
  | allDevices
  | errorOnVerifiedUserProblem
  | identityBasedStrategy
  | onlyTrustedDevices
deriving DecidableEq

structure EncryptionSettings where
  algorithm : EventEncryptionAlgorithm
  rotationPeriodMsgs : ℕ
  historyVisibility : HistoryVisibility
  sharingStrategy : CollectStrategy
deriving DecidableEq

/-- The number of messages is also the message index, as each message moves the ratchet by one. -/
structure OutboundGroupSession where
  sessionId : SessionId
  messageCount : ℕ
  shared : Bool
  invalidated : Bool
  settings : EncryptionSettings
  sharedWithSet : ShareInfoSet
  toShareWithSet : List (RequestId × ShareInfoSet)
deriving DecidableEq

inductive ShareState
  | notShared
  | sharedButChangedSenderKey
  | shared (messageIndex : ℕ) (olmWedgingIndex : SequenceNumber)
deriving DecidableEq

/-- The order of the variants, and then of their fields. -/
def ShareState.cmp : ShareState → ShareState → Ordering
  | notShared, notShared => .eq
  | notShared, _ => .lt
  | sharedButChangedSenderKey, notShared => .gt
  | sharedButChangedSenderKey, sharedButChangedSenderKey => .eq
  | sharedButChangedSenderKey, shared _ _ => .lt
  | shared i w, shared i' w' => (compare i i').then (w.cmp w')
  | shared _ _, _ => .gt

/-- `Iterator::max`, which keeps the last of equal elements. -/
def ShareState.max? : List ShareState → Option ShareState
  | [] => none
  | state :: states => some (states.foldl (fun best state => if best.cmp state = .gt then best else state) state)

namespace OutboundGroupSession

def new (sessionId : SessionId) (settings : EncryptionSettings) : OutboundGroupSession where
  sessionId := sessionId
  messageCount := 0
  shared := false
  invalidated := false
  settings := settings
  sharedWithSet := []
  toShareWithSet := []

variable (session : OutboundGroupSession)

/-- Sent and then pending requests; a device can be there several times. -/
def iterShares : ShareInfoSet :=
  session.sharedWithSet ++ session.toShareWithSet.flatMap Prod.snd

variable (device : DeviceData)

/-- `iter_shares` for one device -/
def sharesOf : List ShareInfo :=
  (session.iterShares.filter (·.1 = (device.userId, device.deviceId))).map Prod.snd

def getShareState : ShareState :=
  let states := (session.sharesOf device).map fun info =>
    match info with
    | .shared info =>
      if device.curve25519Key = some info.senderKey then .shared info.messageIndex info.olmWedgingIndex
      else .sharedButChangedSenderKey
    | .withheld _ => .notShared
  (ShareState.max? states).getD .notShared

/-- `withheld_no_olm_index`; among the indices `None` is the least. -/
def withheldNoOlmIndex : Option ℕ :=
  let indices := (session.sharesOf device).filterMap fun info =>
    match info with
    | .withheld info => if info.code = .noOlm then some info.messageIndex else none
    | .shared _ => none
  match indices with
  | [] => none
  | index :: indices =>
    indices.foldl
      (fun least index =>
        match least, index with
        | some i, some j => some (min i j)
        | _, _ => none)
      index

def isWithheldTo (code : WithheldCode) : Bool :=
  (session.sharesOf device).any fun info =>
    match info with
    | .withheld info => info.code = code
    | .shared _ => false

def sharedWithUsers : List UserId :=
  (session.iterShares.filter (·.2.isShared)).map (·.1.1)

def addRequest (requestId : RequestId) (shareInfos : ShareInfoSet) : OutboundGroupSession :=
  { session with toShareWithSet := IndexMap.insert session.toShareWithSet requestId shareInfos }

/-- `mark_request_as_sent`; the session is shared once nothing is pending. -/
def markRequestAsSent (requestId : RequestId) : OutboundGroupSession :=
  match IndexMap.get session.toShareWithSet requestId with
  | some infos =>
    let toShareWithSet := session.toShareWithSet.filter (·.1 ≠ requestId)
    { session with
      sharedWithSet := session.sharedWithSet.extend infos
      toShareWithSet := toShareWithSet
      shared := session.shared || toShareWithSet.isEmpty }
  | none => session

lemma sessionId_markRequestAsSent (requestId : RequestId) :
    (session.markRequestAsSent requestId).sessionId = session.sessionId := by
  unfold markRequestAsSent
  split <;> rfl

/-- `expired`, where `elapsed` is whether the rotation period is over. -/
def expired (elapsed : Bool) : Bool :=
  max 1 (min session.settings.rotationPeriodMsgs 10000) ≤ session.messageCount || elapsed

end OutboundGroupSession

end HaranaMatrix.Crypto
