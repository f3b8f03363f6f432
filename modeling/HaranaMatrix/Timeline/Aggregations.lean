import HaranaMatrix.Common.EditValidation
import HaranaMatrix.Lib.Greatest
import HaranaMatrix.Lib.IndexMap
import HaranaMatrix.Timeline.Items

/-!
# Aggregations

Events that relate to another one (reactions, poll responses and ends, edits, locations of a beacon, declined calls) are
applied to the item of their target, when they arrive or when the target does. Redactions and beacon stops are left out.
`M` is the content of a message, as it is sanitized, `P` that of a poll, `B` that of a beacon, and `I` has encryption
information.
-/

namespace HaranaMatrix.Timeline

open Common List

inductive TimelineEventItemId
  | transactionId (id : TransactionId)
  | eventId (id : EventId)
deriving DecidableEq

/-! ## Contents -/

/-- `ReactionStatus`, without the handles of local reactions -/
inductive ReactionStatus
  | localToLocal
  | localToRemote
  | remoteToRemote (eventId : EventId)
deriving DecidableEq

def ReactionStatus.sameKind : ReactionStatus → ReactionStatus → Bool
  | localToLocal, localToLocal => true
  | localToRemote, localToRemote => true
  | remoteToRemote _, remoteToRemote _ => true
  | _, _ => false

structure ReactionInfo where
  timestamp : Timestamp
  status : ReactionStatus
deriving DecidableEq

abbrev ReactionsByKeyBySender := List (String × List (UserId × ReactionInfo))

structure Message (M : Type) where
  content : M
  edited : Bool
deriving DecidableEq

structure ResponseData where
  sender : UserId
  timestamp : Timestamp
  answers : List String
deriving DecidableEq

structure PollState (P : Type) where
  fallbackText : Option String
  pollStart : P
  responseData : List ResponseData
  endEventTimestamp : Option Timestamp
  hasBeenEdited : Bool
deriving DecidableEq

structure BeaconInfo (I : Type) where
  geoUri : String
  ts : Timestamp
  description : Option String
  encryptionInfo : Option I
deriving DecidableEq

/-- The locations are sorted by timestamp. -/
structure LiveLocationState (B I : Type) where
  beaconInfo : B
  locations : List (BeaconInfo I)
  sorted : locations.Pairwise (·.ts < ·.ts)
deriving DecidableEq

/-- `MsgLikeKind`; the last four are not changed by aggregations. -/
inductive MsgLikeKind (M P B I : Type)
  | message (msg : Message M)
  | poll (state : PollState P)
  | liveLocation (state : LiveLocationState B I)
  | sticker
  | redacted
  | unableToDecrypt
  | other
deriving DecidableEq

structure MsgLikeContent (M P B I : Type) where
  kind : MsgLikeKind M P B I
  reactions : ReactionsByKeyBySender
deriving DecidableEq

inductive TimelineItemContent (M P B I : Type)
  | msgLike (content : MsgLikeContent M P B I)
  | membershipChange
  | profileChange
  | otherState
  | failedToParseMessageLike
  | failedToParseState
  | callInvite
  | rtcNotification (declinedBy : List UserId)
deriving DecidableEq

/-- The JSON and encryption of a remote item. -/
structure RemoteEventTimelineItem (I : Type) where
  originalJson : Option RawEvent
  latestEditJson : Option RawEvent
  encryptionInfo : Option I
deriving DecidableEq

/-- `EventTimelineItem`; a local echo has no remote part. -/
structure EventTimelineItem (M P B I : Type) where
  content : TimelineItemContent M P B I
  remote : Option (RemoteEventTimelineItem I)
  uneditedItem : Option (TimelineItemContent M P B I × Option RawEvent)
deriving DecidableEq

variable {M P B I : Type}

namespace MsgLikeKind

def debugString : MsgLikeKind M P B I → String
  | message _ => "a message"
  | sticker => "a sticker"
  | poll _ => "a poll"
  | redacted => "a redacted message"
  | unableToDecrypt => "an encrypted message we couldn't decrypt"
  | other => "a custom message-like event"
  | liveLocation _ => "a live location share"

end MsgLikeKind

namespace TimelineItemContent

def debugString : TimelineItemContent M P B I → String
  | msgLike content => content.kind.debugString
  | membershipChange => "a membership change"
  | profileChange => "a profile change"
  | otherState => "a state event"
  | failedToParseMessageLike => "an event that couldn't be parsed"
  | failedToParseState => "an event that couldn't be parsed"
  | callInvite => "a call invite"
  | rtcNotification _ => "a call notification"

end TimelineItemContent

namespace PollState

def edit (state : PollState P) (pollStart : P) (text : Option String) : Option (PollState P) :=
  if state.endEventTimestamp.isNone then
    some { state with pollStart := pollStart, fallbackText := text, hasBeenEdited := true }
  else none

def addResponse (state : PollState P) (sender : UserId) (timestamp : Timestamp)
    (answers : List String) : PollState P :=
  { state with responseData := state.responseData ++ [⟨sender, timestamp, answers⟩] }

/-- `none` if the poll was already ended -/
def endAt (state : PollState P) (timestamp : Timestamp) : Option (PollState P) :=
  if state.endEventTimestamp.isNone then some { state with endEventTimestamp := some timestamp } else none

end PollState

namespace LiveLocationState

lemma sorted_insert {l : List (BeaconInfo I)} (h : l.Pairwise (·.ts < ·.ts)) {location : BeaconInfo I}
    (hnew : ∀ x ∈ l, x.ts ≠ location.ts) :
    (l.takeWhile (·.ts < location.ts) ++ location :: l.dropWhile (·.ts < location.ts)).Pairwise (·.ts < ·.ts) := by
  induction l with
  | nil => simp
  | cons x l ih =>
    obtain ⟨hx, hl⟩ := pairwise_cons.1 h
    by_cases hlt : x.ts < location.ts
    · rw [takeWhile_cons_of_pos (by simpa using hlt), dropWhile_cons_of_pos (by simpa using hlt),
        cons_append, pairwise_cons]
      refine ⟨fun y hy => ?_, ih hl fun y hy => hnew y (mem_cons_of_mem _ hy)⟩
      rcases mem_append.1 hy with hy | hy
      · exact hx y ((takeWhile_sublist _).subset hy)
      · rcases mem_cons.1 hy with rfl | hy
        · exact hlt
        · exact hx y ((dropWhile_sublist _).subset hy)
    · have hgt : location.ts < x.ts := lt_of_le_of_ne (not_lt.1 hlt) (hnew x (by simp)).symm
      rw [takeWhile_cons_of_neg (by simpa using hlt), dropWhile_cons_of_neg (by simpa using hlt)]
      refine pairwise_cons.2 ⟨fun y hy => ?_, h⟩
      rcases mem_cons.1 hy with rfl | hy
      · exact hgt
      · exact hgt.trans (hx y hy)

/-- A location goes to its place, which a binary search finds, unless there is one with its
timestamp. -/
def addLocation (state : LiveLocationState B I) (location : BeaconInfo I) : LiveLocationState B I :=
  if h : ∃ x ∈ state.locations, x.ts = location.ts then state
  else
    { state with
      locations := state.locations.takeWhile (·.ts < location.ts) ++
        location :: state.locations.dropWhile (·.ts < location.ts)
      sorted := sorted_insert state.sorted fun x hx hts => h ⟨x, hx, hts⟩ }

end LiveLocationState

/-! ## Aggregations -/

/-- `PendingEditKind`, with the new content -/
inductive PendingEditKind (M P : Type)
  | roomMessage (newContent : M)
  | poll (pollStart : P) (text : Option String)
deriving DecidableEq

structure PendingEdit (M P I : Type) where
  kind : PendingEditKind M P
  editJson : Option RawEvent
  encryptionInfo : Option I
  bundledItemOwner : Option EventId
deriving DecidableEq

inductive AggregationKind (M P I : Type)
  | pollResponse (sender : UserId) (timestamp : Timestamp) (answers : List String)
  | pollEnd (endDate : Timestamp)
  | reaction (key : String) (sender : UserId) (timestamp : Timestamp) (status : ReactionStatus)
  | edit (edit : PendingEdit M P I)
  | beaconUpdate (location : BeaconInfo I)
  | callDeclined (sender : UserId)
deriving DecidableEq

structure Aggregation (M P I : Type) where
  kind : AggregationKind M P I
  ownId : TimelineEventItemId
deriving DecidableEq

inductive AggregationError
  | pollAlreadyEnded
  | invalidType (expected actual : String)
deriving DecidableEq

/-- `ApplyAggregationResult`, with the item -/
inductive ApplyAggregationResult (M P B I : Type)
  | updatedItem (content : TimelineItemContent M P B I)
  | edit
  | leftItemIntact
  | error (e : AggregationError)

/-- The reactions with one more. -/
def addReaction (reactions : ReactionsByKeyBySender) (key : String) (sender : UserId) (info : ReactionInfo) :
    ReactionsByKeyBySender :=
  IndexMap.insert reactions key (IndexMap.insert ((IndexMap.get reactions key).getD []) sender info)

/-- The reaction of a sender with a key. -/
def getReaction (reactions : ReactionsByKeyBySender) (key : String) (sender : UserId) : Option ReactionInfo :=
  (IndexMap.get reactions key).bind (IndexMap.get · sender)

def Aggregation.apply (aggregation : Aggregation M P I) (content : TimelineItemContent M P B I) :
    ApplyAggregationResult M P B I :=
  match aggregation.kind with
  | .pollResponse sender timestamp answers =>
    match content with
    | .msgLike ⟨.poll state, reactions⟩ =>
      .updatedItem (.msgLike ⟨.poll (state.addResponse sender timestamp answers), reactions⟩)
    | _ => .error (.invalidType "a poll" content.debugString)
  | .pollEnd endDate =>
    match content with
    | .msgLike ⟨.poll state, reactions⟩ =>
      match state.endAt endDate with
      | some state => .updatedItem (.msgLike ⟨.poll state, reactions⟩)
      | none => .error .pollAlreadyEnded
    | _ => .error (.invalidType "a poll" content.debugString)
  | .reaction key sender timestamp status =>
    match content with
    | .msgLike ⟨kind, reactions⟩ =>
      if (getReaction reactions key sender).any fun prev => prev.timestamp = timestamp ∧
        prev.status.sameKind status then
        .leftItemIntact
      else .updatedItem (.msgLike ⟨kind, addReaction reactions key sender ⟨timestamp, status⟩⟩)
    | _ => .leftItemIntact
  | .edit _ => .edit
  | .beaconUpdate location =>
    match content with
    | .msgLike ⟨.liveLocation state, reactions⟩ =>
      .updatedItem (.msgLike ⟨.liveLocation (state.addLocation location), reactions⟩)
    | _ => .error (.invalidType "a live location" content.debugString)
  | .callDeclined sender =>
    match content with
    | .rtcNotification declinedBy =>
      if sender ∈ declinedBy then .leftItemIntact else .updatedItem (.rtcNotification (declinedBy ++ [sender]))
    | _ => .error (.invalidType "an rtc notification" content.debugString)

/-! ## Edits -/

/-- `RemoteEditOrder`: the position, then the timestamp with the event ID; what is not known sorts
below. -/
abbrev RemoteEditOrder := Lex (WithBot ℕ × WithBot (Lex (ℕ × EventId)))

/-- The last position of an event. -/
def positionByEventId (events : List EventId) (eventId : EventId) : Option ℕ :=
  (events.reverse.findIdx? (· = eventId)).map (events.length - 1 - ·)

def remoteEditOrder (edit : PendingEdit M P I) (eventId : EventId) (events : List EventId) :
    RemoteEditOrder :=
  toLex (positionByEventId events (edit.bundledItemOwner.getD eventId),
    (edit.editJson.bind (·.timestampAndId)).map toLex)

/-- The best edits so far: of local echoes the last one, of remote edits the greatest one with its
order. -/
structure BestEdits (M P I : Type) where
  localEdit : Option (PendingEdit M P I)
  remoteEdit : Option (PendingEdit M P I × RemoteEditOrder)

def BestEdits.consider (events : List EventId) (best : BestEdits M P I) (aggregation : Aggregation M P I) :
    BestEdits M P I :=
  match aggregation.kind with
  | .edit edit =>
    match aggregation.ownId with
    | .transactionId _ => { best with localEdit := some edit }
    | .eventId eventId =>
      { best with remoteEdit := keepGreater Prod.snd best.remoteEdit (edit, remoteEditOrder edit eventId events) }
  | _ => best

/-- The edit to apply, and whether it is a local echo. -/
def bestEdit (aggregations : List (Aggregation M P I)) (events : List EventId) :
    Option (PendingEdit M P I × Bool) :=
  let best := aggregations.foldl (BestEdits.consider events) ⟨none, none⟩
  match best.localEdit with
  | some edit => some (edit, true)
  | none => best.remoteEdit.map fun x => (x.1, false)

namespace EventTimelineItem

variable (item : EventTimelineItem M P B I)

def originalJson : Option RawEvent := item.remote.bind (·.originalJson)
def latestEditJson : Option RawEvent := item.remote.bind (·.latestEditJson)
def encryptionInfo : Option I := item.remote.bind (·.encryptionInfo)

def withContent (content : TimelineItemContent M P B I) : EventTimelineItem M P B I :=
  { item with content := content }

/-- The item before its first edit is remembered. -/
def withContentAndLatestEdit (content : TimelineItemContent M P B I)
    (editJson : Option RawEvent) : EventTimelineItem M P B I where
  content := content
  remote := item.remote.map fun remote => { remote with latestEditJson := editJson }
  uneditedItem := item.uneditedItem.orElse fun _ => some (item.content, item.latestEditJson)

def withEncryptionInfo (encryptionInfo : Option I) : EventTimelineItem M P B I :=
  { item with remote := item.remote.map fun remote => { remote with encryptionInfo := encryptionInfo } }

/-- A remote edit has to be a valid replacement of the original event. -/
def isValidEdit (edit : PendingEdit M P I) : Bool :=
  match item.originalJson, edit.editJson with
  | some originalJson, some editJson =>
    (checkValidityOfReplacementEvents originalJson item.encryptionInfo.isSome editJson edit.encryptionInfo.isSome).isOk
  | _, _ => false

/-- The content after an edit of the matching kind; a poll that has ended is not edited. -/
def editedContent (content : TimelineItemContent M P B I) (edit : PendingEditKind M P) :
    Option (TimelineItemContent M P B I) :=
  match content, edit with
  | .msgLike ⟨.message _, reactions⟩, .roomMessage newContent => some (.msgLike ⟨.message ⟨newContent, true⟩, reactions⟩)
  | .msgLike ⟨.poll state, reactions⟩, .poll pollStart text =>
    (state.edit pollStart text).map fun state => .msgLike ⟨.poll state, reactions⟩
  | _, _ => none

/-- `edit_item`: the new item, or `none` if the edit was not applied -/
def editItem (edit : PendingEdit M P I) (isLocalEcho : Bool) : Option (EventTimelineItem M P B I) :=
  if ¬ isLocalEcho ∧ ¬ item.isValidEdit edit then none
  else (editedContent item.content edit.kind).map fun content =>
    let item := item.withContentAndLatestEdit content edit.editJson
    if edit.encryptionInfo.isSome then item.withEncryptionInfo edit.encryptionInfo else item

def resolveEdits (aggregations : List (Aggregation M P I)) (events : List EventId) :
    Option (EventTimelineItem M P B I) :=
  (bestEdit aggregations events).bind fun best => item.editItem best.1 best.2

/-! ## Both orders of arrival -/

variable (events : List EventId)

/-- The loop of `apply_all`: it stops at the first error. -/
def applyEach (item : EventTimelineItem M P B I) :
    List (Aggregation M P I) → EventTimelineItem M P B I × Option AggregationError
  | [] => (item, none)
  | aggregation :: aggregations =>
    match aggregation.apply item.content with
    | .updatedItem content => applyEach (item.withContent content) aggregations
    | .edit => applyEach item aggregations
    | .leftItemIntact => applyEach item aggregations
    | .error e => (item, some e)

/-- `apply_all`: edits are resolved at the end, if there was no error. The item is used in any
case. -/
def applyAll (aggregations : List (Aggregation M P I)) (events : List EventId) :
    EventTimelineItem M P B I × Option AggregationError :=
  match applyEach item aggregations with
  | (item, none) => ((item.resolveEdits aggregations events).getD item, none)
  | (item, some e) => (item, some e)

end EventTimelineItem

end HaranaMatrix.Timeline
