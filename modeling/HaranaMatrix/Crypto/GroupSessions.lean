import HaranaMatrix.Crypto.Recipients
import HaranaMatrix.Lib.Fallible
import HaranaMatrix.Lib.Splice

/-!
# Sharing the room keys of a room

The group session manager as it works on one room. A session is an object in memory that the cache
and the requests in flight refer to; the store keeps a copy of one outbound session, and the inbound
sessions. Whatever goes to the store or to a device can fail, and what was changed before stays
changed. -/

namespace HaranaMatrix.Crypto

inductive OlmError
  | store
  | unsupportedAlgorithm
  | sessionRecipientCollection (error : SessionRecipientCollectionError)
  | encryption
  | panicked

/-- What happened to a device, for the record only: no code reads it. -/
inductive Fact
  /-- The key is meant for the device. -/
  | intended (sessionId : SessionId) (device : DeviceData) (messageIndex : ℕ)
  /-- The key is in a request to the device. -/
  | keySent (sessionId : SessionId) (device : DeviceData)
  /-- A notice for the device is in a request. -/
  | withheld (sessionId : SessionId) (device : DeviceData) (code : WithheldCode)
deriving DecidableEq

/-- `objects` are the sessions in memory; one to which neither `cached` nor `beingShared` leads is
garbage. -/
structure GroupSessionManager where
  objects : SessionId → OutboundGroupSession
  cached : Option SessionId
  beingShared : List (RequestId × SessionId)
  storedOutbound : Option OutboundGroupSession
  storedInbound : List SessionId
  nextSessionId : SessionId
  nextRequestId : RequestId
  history : List Fact

def EncryptionSettings.default : EncryptionSettings where
  algorithm := .megolmV1AesSha2
  rotationPeriodMsgs := 100
  historyVisibility := .shared
  sharingStrategy := .allDevices

def GroupSessionManager.new : GroupSessionManager where
  objects id := .new id .default
  cached := none
  beingShared := []
  storedOutbound := none
  storedInbound := []
  nextSessionId := 0
  nextRequestId := 0
  history := []

/-- Which operations of a call on the store or on a device fail. -/
structure Failures where
  getDevice : Bool := false
  load : Bool := false
  senderData : Bool := false
  collect : Bool := false
  rotatedSenderData : Bool := false
  encrypt : DeviceData → Bool := fun _ => false
  save : Bool := false

/-- A call of `share_room_key`, and what it finds: `elapsed` is whether the rotation period of the session is over, and
`withheldElsewhere` the devices to which the session of another room withholds with `m.no_olm`. -/
structure Call where
  users : List UserId
  settings : EncryptionSettings
  store : CryptoStore
  elapsed : Bool
  hasOlmSession : DeviceData → Bool
  withheldElsewhere : DeviceData → Bool
  failures : Failures

/-- The sessions to save. -/
structure Changes where
  outboundGroupSessions : List SessionId
  inboundGroupSessions : List SessionId

def Changes.isEmpty (changes : Changes) : Bool :=
  changes.inboundGroupSessions.isEmpty && changes.outboundGroupSessions.isEmpty

abbrev ManagerM := EStateM OlmError GroupSessionManager

namespace GroupSessionManager

def MAX_TO_DEVICE_MESSAGES : ℕ := 250

variable (m : GroupSessionManager)

def setObject (id : SessionId) (session : OutboundGroupSession) : GroupSessionManager :=
  { m with objects := Function.update m.objects id session }

def modifyObject (id : SessionId) (f : OutboundGroupSession → OutboundGroupSession) : ManagerM Unit :=
  modify fun m => m.setObject id (f (m.objects id))

def record (facts : List Fact) : ManagerM Unit := modify fun m => { m with history := m.history ++ facts }

/-- The sessions are pickled as they are now; the store keeps the last one for the room. -/
def saved (changes : Changes) : GroupSessionManager :=
  { m with
    storedOutbound := (changes.outboundGroupSessions.getLast?.map m.objects).or m.storedOutbound
    storedInbound := m.storedInbound ++ changes.inboundGroupSessions }

def saveChanges (fails : Bool) (changes : Changes) : ManagerM Unit :=
  if fails then throw .store else modify (·.saved changes)

/-! ## The cache -/

/-- The session that was stored, in memory again. -/
def restored (session : OutboundGroupSession) : GroupSessionManager :=
  { m with
    objects := Function.update m.objects session.sessionId session
    cached := some session.sessionId
    beingShared := session.toShareWithSet.foldl (fun b r => IndexMap.insert b r.1 session.sessionId) m.beingShared }

/-- `get_or_load`; an error of the store is as if there were no session. -/
def getOrLoad (fails : Bool) : ManagerM (Option SessionId) := do
  let m ← get
  match m.cached, fails, m.storedOutbound with
  | some id, _, _ => return some id
  | none, false, some session =>
    modify (·.restored session)
    return some session.sessionId
  | none, _, _ => return none

/-! ## Sessions -/

/-- The new session is cached before anything is saved. -/
def created (settings : EncryptionSettings) : GroupSessionManager :=
  { m.setObject m.nextSessionId (.new m.nextSessionId settings) with
    cached := some m.nextSessionId
    nextSessionId := m.nextSessionId + 1 }

def createOutboundGroupSession (settings : EncryptionSettings) : ManagerM SessionId := do
  let m ← get
  if settings.algorithm ≠ .megolmV1AesSha2 then throw .unsupportedAlgorithm
  else
    modify (·.created settings)
    return m.nextSessionId

variable (call : Call)

/-- The session, and whether it was created. -/
def getOrCreateOutboundSession : ManagerM (SessionId × Bool) := do
  let outbound ← getOrLoad call.failures.load
  let m ← get
  match outbound with
  | some id =>
    if (m.objects id).expired call.elapsed || (m.objects id).invalidated then
      return (← createOutboundGroupSession call.settings, true)
    else return (id, false)
  | none => return (← createOutboundGroupSession call.settings, true)

/-- `SenderDataFinder`, of which only the failure matters here. -/
def findSenderData (fails : Bool) : ManagerM Unit := if fails then throw .store else pure ()

/-- The changes of `share_room_key` for a session that was just created. -/
def sessionChanges (outbound : SessionId) (created : Bool) : ManagerM Changes :=
  if created then do
    findSenderData call.failures.senderData
    return ⟨[outbound], [outbound]⟩
  else return ⟨[], []⟩

variable (sigs : Signatures)

def collectRecipients (call : Call) (outbound : SessionId) : ManagerM CollectRecipientsResult := do
  let m ← get
  if call.failures.collect then throw .store
  else
    match collectSessionRecipients sigs call.store call.users call.settings (m.objects outbound) with
    | .ok result => return result
    | .error e => throw (.sessionRecipientCollection e)

def maybeRotateGroupSession (shouldRotate : Bool) (outbound : SessionId) (changes : Changes) :
    ManagerM (SessionId × Changes) :=
  if shouldRotate then do
    let outbound ← createOutboundGroupSession call.settings
    findSenderData call.failures.rotatedSenderData
    return (outbound, ⟨changes.outboundGroupSessions ++ [outbound],
      changes.inboundGroupSessions ++ [outbound]⟩)
  else return (outbound, changes)

/-! ## Requests -/

def requested (id : SessionId) (shareInfos : ShareInfoSet) : GroupSessionManager :=
  { m.setObject id ((m.objects id).addRequest m.nextRequestId shareInfos) with
    beingShared := IndexMap.insert m.beingShared m.nextRequestId id
    nextRequestId := m.nextRequestId + 1 }

def addRequest (id : SessionId) (shareInfos : ShareInfoSet) : ManagerM Unit :=
    modify (·.requested id shareInfos)

/-- The key of the device with which an Olm session is there. -/
def Call.olmKey (device : DeviceData) : Option Curve25519PublicKey :=
  if call.hasOlmSession device then device.curve25519Key else none

/-- The entry of a device to which the room key was encrypted. -/
def sharedEntry (messageIndex : ℕ) (device : DeviceData) : Option ((UserId × DeviceId) × ShareInfo) :=
  (Call.olmKey call device).map fun key =>
    ((device.userId, device.deviceId), .shared ⟨key, messageIndex, device.olmWedgingIndex⟩)

def withheldEntry (messageIndex : ℕ) (entry : DeviceData × WithheldCode) : (UserId × DeviceId) × ShareInfo :=
  ((entry.1.userId, entry.1.deviceId), .withheld ⟨entry.2, some messageIndex⟩)

/-- One request for a chunk of devices; those without an Olm session are returned. -/
def encryptRequest (id : SessionId) (chunk : List DeviceData) :
    ManagerM (List (DeviceData × WithheldCode)) := do
  let m ← get
  let messageIndex := (m.objects id).messageCount
  if chunk.any call.failures.encrypt then throw .encryption
  else
    let shareInfos := ShareInfoSet.extend [] (chunk.filterMap (sharedEntry call messageIndex))
    if shareInfos = [] then pure ()
    else
      addRequest id shareInfos
      record ((chunk.filter fun d => (Call.olmKey call d).isSome).map fun d => .keySent id d)
    return (chunk.filter fun d => (Call.olmKey call d).isNone).map fun d => (d, .noOlm)

/-- All chunks are encrypted, also if one of them fails. -/
def encryptForDevices (id : SessionId) (recipientDevices : List DeviceData) :
    ManagerM (List (DeviceData × WithheldCode)) := do
  let m ← get
  record (recipientDevices.map fun d => .intended id d (m.objects id).messageCount)
  let results ← (chunks MAX_TO_DEVICE_MESSAGES recipientDevices).mapM fun chunk => attempt (encryptRequest call id chunk)
  let withheld ← results.mapM ofExcept
  return withheld.flatten

/-- `m.no_olm` is sent once to a device, for whichever session. -/
def isWithheldTo (call : Call) (id : SessionId) (device : DeviceData) (code : WithheldCode) : Bool :=
  if code = .noOlm then
    device.wasWithheldCodeSent || call.withheldElsewhere device ||
      m.cached.any fun id => (m.objects id).isWithheldTo device code
  else (m.objects id).isWithheldTo device code

def handleWithheldDevices (id : SessionId) (withheldDevices : List (DeviceData × WithheldCode)) :
    ManagerM Unit := do
  let m ← get
  let messageIndex := (m.objects id).messageCount
  let toTell := withheldDevices.filter fun entry => !m.isWithheldTo call id entry.1 entry.2
  (chunks MAX_TO_DEVICE_MESSAGES toTell).forM fun chunk => do
    record (chunk.map fun entry => .withheld id entry.1 entry.2)
    addRequest id (ShareInfoSet.extend [] (chunk.map (withheldEntry messageIndex)))

/-- The allowed devices that do not have the key yet, or tried to unwedge their Olm session
since. -/
def devicesToShareWith (session : OutboundGroupSession) (result : CollectRecipientsResult) :
    List DeviceData :=
  (result.devices.flatMap Prod.snd).filter fun d =>
    match session.getShareState d with
    | .notShared => true
    | .shared _ olmWedgingIndex => olmWedgingIndex.lt d.olmWedgingIndex
    | .sharedButChangedSenderKey => false

/-- A session that need not be shared with anyone is shared. -/
def markIfShared (id : SessionId) (changes : Changes) : ManagerM Changes := do
  let m ← get
  if (m.objects id).toShareWithSet = [] ∧ (m.objects id).shared = false then
    modifyObject id fun session => { session with shared := true }
    return { changes with outboundGroupSessions := changes.outboundGroupSessions ++ [id] }
  else return changes

/-- What `share_room_key` does once the session is chosen; the pending requests are the result. -/
def shareWith (result : CollectRecipientsResult) (id : SessionId) (changes : Changes) :
    ManagerM (List RequestId) := do
  let m ← get
  let devices := devicesToShareWith (m.objects id) result
  let changes := if devices = [] then changes else { changes with outboundGroupSessions := [id] }
  let unableToEncryptDevices ← encryptForDevices call id devices
  handleWithheldDevices call id (result.withheldDevices ++ unableToEncryptDevices)
  let changes ← markIfShared id changes
  if changes.isEmpty then pure () else saveChanges call.failures.save changes
  let m ← get
  return (m.objects id).toShareWithSet.map Prod.fst

def shareRoomKey (call : Call) : ManagerM (List RequestId) :=
  if call.failures.getDevice then throw .store
  else do
    let (outbound, created) ← getOrCreateOutboundSession call
    let changes ← sessionChanges call outbound created
    let result ← collectRecipients sigs call outbound
    let (outbound, changes) ← maybeRotateGroupSession call result.shouldRotate outbound changes
    shareWith call result outbound changes

/-! ## What else happens to the session -/

/-- The session of the request is saved, even if the room has another session by now. -/
def markRequestAsSent (saveFails : Bool) (requestId : RequestId) : ManagerM Unit := do
  let m ← get
  match IndexMap.get m.beingShared requestId with
  | none => return ()
  | some id =>
    modify fun m => { m with beingShared := m.beingShared.filter (·.1 ≠ requestId) }
    modifyObject id (·.markRequestAsSent requestId)
    saveChanges saveFails ⟨[id], []⟩

/-- A session that is missing or expired is a panic. -/
def encrypt (loadFails elapsed saveFails : Bool) : ManagerM Unit := do
  let outbound ← getOrLoad loadFails
  let m ← get
  match outbound with
  | none => throw .panicked
  | some id =>
    if (m.objects id).expired elapsed then throw .panicked
    else
      modifyObject id fun session => { session with messageCount := session.messageCount + 1 }
      saveChanges saveFails ⟨[id], []⟩

def invalidateGroupSession (loadFails saveFails : Bool) : ManagerM Bool := do
  match ← getOrLoad loadFails with
  | none => return false
  | some id =>
    modifyObject id fun session => { session with invalidated := true }
    saveChanges saveFails ⟨[id], []⟩
    return true

/-- Only what was stored is left. -/
def restart : GroupSessionManager := { m with cached := none, beingShared := [] }

/-! ## Key requests -/

inductive KeyForwardDecision
  | changedSenderKey
  | outboundSessionNotShared
  | untrustedDevice
  | missingOutboundSession
deriving DecidableEq

/-- A device that asks for the session `sessionId`. -/
structure KeyRequest where
  device : DeviceData
  isOwnUser : Bool
  isVerified : Bool
  sessionId : SessionId

/-- `should_share_key`, on the outbound session that was looked up. -/
def shareDecision (outbound : Option OutboundGroupSession) (request : KeyRequest) :
    Except KeyForwardDecision (Option ℕ) :=
  let outbound := outbound.filter (·.sessionId = request.sessionId)
  if request.isOwnUser && request.isVerified then .ok none
  else
    match outbound with
    | some outbound =>
      match outbound.getShareState request.device with
      | .shared messageIndex _ => .ok (some messageIndex)
      | .sharedButChangedSenderKey => .error .changedSenderKey
      | .notShared =>
        match outbound.withheldNoOlmIndex request.device with
        | some messageIndex => .ok (some messageIndex)
        | none => .error .outboundSessionNotShared
    | none => if request.isOwnUser then .error .untrustedDevice else .error .missingOutboundSession

def shouldShareKey (loadFails : Bool) (request : KeyRequest) :
    ManagerM (Except KeyForwardDecision (Option ℕ)) := do
  let outbound ← getOrLoad loadFails
  let m ← get
  return shareDecision (outbound.map m.objects) request

/-! ## Histories -/

inductive Action
  | shareRoomKey (call : Call)
  | markRequestAsSent (saveFails : Bool) (requestId : RequestId)
  | encrypt (loadFails elapsed saveFails : Bool)
  | invalidateGroupSession (loadFails saveFails : Bool)
  | shouldShareKey (loadFails : Bool) (request : KeyRequest)
  | restart

def step (m : GroupSessionManager) : Action → GroupSessionManager
  | .shareRoomKey call => finalState (shareRoomKey sigs call) m
  | .markRequestAsSent saveFails requestId => finalState (markRequestAsSent saveFails requestId) m
  | .encrypt loadFails elapsed saveFails => finalState (encrypt loadFails elapsed saveFails) m
  | .invalidateGroupSession loadFails saveFails => finalState (invalidateGroupSession loadFails saveFails) m
  | .shouldShareKey loadFails request => finalState (shouldShareKey loadFails request) m
  | .restart => m.restart

def run (m : GroupSessionManager) (actions : List Action) : GroupSessionManager :=
  actions.foldl (step sigs) m

/-! ## What the parts of a call do -/

/-- The session that a call finds. -/
def sessionFound (loadFails : Bool) : Option OutboundGroupSession :=
  match m.cached, loadFails, m.storedOutbound with
  | some id, _, _ => some (m.objects id)
  | none, false, some session => some session
  | none, _, _ => none

/-- Nothing happened, or the stored session is in memory again. -/
def Loaded (m t : GroupSessionManager) : Prop :=
  t = m ∨ ∃ session, m.cached = none ∧ m.storedOutbound = some session ∧ t = m.restored session

lemma Loaded.history {m t : GroupSessionManager} (h : Loaded m t) : t.history = m.history := by
  rcases h with rfl | ⟨session, -, -, rfl⟩ <;> rfl

lemma Loaded.nextSessionId {m t : GroupSessionManager} (h : Loaded m t) :
    t.nextSessionId = m.nextSessionId := by
  rcases h with rfl | ⟨session, -, -, rfl⟩ <;> rfl

lemma mem_of_mem_restored {requests : List (RequestId × ShareInfoSet)}
    {b : List (RequestId × SessionId)} {id : SessionId}
    {r : RequestId × SessionId} (h : r ∈ requests.foldl (fun b r => IndexMap.insert b r.1 id) b) :
      r ∈ b ∨ r.2 = id := by
  induction requests generalizing b with
  | nil => exact .inl h
  | cons request requests ih =>
    rcases ih h with h | h
    · rcases IndexMap.mem_insert h with rfl | h
      · exact .inr rfl
      · exact .inl h
    · exact .inr h

section Parts

variable {m : GroupSessionManager} {call : Call}

lemma forall_setObject (P : SessionId → OutboundGroupSession → Prop) {id : SessionId}
    {session : OutboundGroupSession}
    (h : ∀ id, P id (m.objects id)) (hsession : P id session) :
      ∀ id', P id' ((m.setObject id session).objects id') :=
  (Function.forall_update_iff _ _).2 ⟨hsession, fun id' _ => h id'⟩

variable (m)

lemma getOrLoad_ensures (fails : Bool) :
    Ensures (getOrLoad fails) m
      (fun outbound t => Loaded m t ∧ outbound.map t.objects = m.sessionFound fails ∧
        ∀ id ∈ outbound, t.cached = some id)
      fun _ => False := by
  refine .get_bind ?_
  cases hcached : m.cached with
  | some id => exact .ret ⟨.inl rfl, by simp [sessionFound, hcached], fun _ h => hcached.trans h⟩
  | none =>
    cases hsession : m.storedOutbound with
    | none => cases fails <;> exact .ret ⟨.inl rfl, by simp [sessionFound, hcached, hsession], nofun⟩
    | some session =>
      cases fails with
      | true => exact .ret ⟨.inl rfl, by simp [sessionFound, hcached], nofun⟩
      | false =>
        refine .update_bind (.ret ⟨.inr ⟨session, hcached, hsession, rfl⟩, ?_, fun _ h => h⟩)
        simp [sessionFound, hcached, hsession, restored]

lemma saveChanges_ensures (fails : Bool) (changes : Changes) :
    Ensures (saveChanges fails changes) m (fun _ t => t = m.saved changes) fun t => t = m ∧ fails := by
  unfold saveChanges
  split
  · next hfails => exact .fail ⟨rfl, hfails⟩
  · exact .update rfl

lemma createOutboundGroupSession_ensures (settings : EncryptionSettings) :
    Ensures (createOutboundGroupSession settings) m
      (fun id t => id = m.nextSessionId ∧ t = m.created settings ∧ settings.algorithm = .megolmV1AesSha2)
      fun t => t = m ∧ settings.algorithm ≠ .megolmV1AesSha2 := by
  refine .get_bind ?_
  split
  · next halgorithm => exact .fail ⟨rfl, halgorithm⟩
  · next halgorithm => exact .update_bind (.ret ⟨rfl, rfl, not_not.1 halgorithm⟩)

/-- The session is unusable. -/
def Unusable (call : Call) (session : Option OutboundGroupSession) : Prop :=
  ∀ s ∈ session, s.expired call.elapsed ∨ s.invalidated

/-- The session that was found goes on to be used, or is replaced by a new one. -/
structure GotOrCreated (m : GroupSessionManager) (call : Call) (id : SessionId) (created : Bool)
    (t : GroupSessionManager) :
    Prop where
  cached : t.cached = some id
  found : created = false → Loaded m t ∧ m.sessionFound call.failures.load = some (t.objects id)
  unusable : created = true → Unusable call (m.sessionFound call.failures.load) ∧
    call.settings.algorithm = .megolmV1AesSha2 ∧
      ∃ u, Loaded m u ∧ id = u.nextSessionId ∧ t = u.created call.settings

lemma getOrCreateOutboundSession_ensures (call : Call) :
    Ensures (getOrCreateOutboundSession call) m (fun p t => GotOrCreated m call p.1 p.2 t) (Loaded m) := by
  refine (getOrLoad_ensures m _).bindTo nofun fun outbound u hu => .get_bind ?_
  obtain ⟨hloaded, hfound, hcached⟩ := hu
  have hcreate : Unusable call (m.sessionFound call.failures.load) →
      Ensures (createOutboundGroupSession call.settings >>= fun id => pure (id, true)) u
        (fun p t => GotOrCreated m call p.1 p.2 t) (Loaded m) := by
    intro hunusable
    refine (createOutboundGroupSession_ensures u _).bindTo (fun t ht => ht.1 ▸ hloaded) fun id t ht => ?_
    obtain ⟨rfl, rfl, halgorithm⟩ := ht
    exact .ret ⟨rfl, nofun, fun _ => ⟨hunusable, halgorithm, u, hloaded, rfl, rfl⟩⟩
  cases outbound with
  | none => exact hcreate (by simp [Unusable, ← hfound])
  | some id =>
    dsimp only
    split
    · next hunusable =>
      refine hcreate ?_
      rintro session hsession
      obtain rfl : u.objects id = session := Option.some.inj (hfound.trans hsession)
      simpa using hunusable
    · exact .ret ⟨hcached id rfl, fun _ => ⟨hloaded, hfound.symm⟩, nofun⟩

lemma sessionChanges_ensures (call : Call) (id : SessionId) (created : Bool) :
    Ensures (sessionChanges call id created) m
      (fun changes t => t = m ∧ changes = if created then ⟨[id], [id]⟩ else ⟨[], []⟩)
      fun t => t = m ∧ created ∧ call.failures.senderData := by
  unfold sessionChanges findSenderData
  split
  · next hcreated =>
    split
    · next hfails => exact Ensures.bind (Q := fun _ _ => False) (.fail ⟨rfl, hcreated, hfails⟩) nofun
    · exact .ret ⟨rfl, rfl⟩
  · exact .ret ⟨rfl, rfl⟩

lemma collectRecipients_ensures (sigs : Signatures) (call : Call) (id : SessionId) (m : GroupSessionManager) :
    Ensures (collectRecipients sigs call id) m
      (fun result t => t = m ∧
        collectSessionRecipients sigs call.store call.users call.settings (m.objects id) = .ok result)
      (fun t => t = m ∧ (call.failures.collect ∨ ∀ result,
        collectSessionRecipients sigs call.store call.users call.settings (m.objects id) ≠ .ok result)) := by
  refine .get_bind ?_
  split
  · next hfails => exact .fail ⟨rfl, .inl hfails⟩
  · split
    · next result hresult => exact .ret ⟨rfl, hresult⟩
    · next e herror => exact .fail ⟨rfl, .inr fun result hresult => by simp [hresult] at herror⟩

/-- The changes with a new session and its inbound half. -/
def withSession (changes : Changes) (id : SessionId) : Changes :=
  ⟨changes.outboundGroupSessions ++ [id], changes.inboundGroupSessions ++ [id]⟩

lemma maybeRotateGroupSession_ensures (call : Call) (shouldRotate : Bool) (id : SessionId)
    (changes : Changes) :
    Ensures (maybeRotateGroupSession call shouldRotate id changes) m
      (fun p t => (shouldRotate = false ∧ p = (id, changes) ∧ t = m) ∨
        (shouldRotate = true ∧ p = (m.nextSessionId, withSession changes m.nextSessionId) ∧
          t = m.created call.settings))
      (fun t => shouldRotate = true ∧ ((t = m ∧ call.settings.algorithm ≠ .megolmV1AesSha2) ∨
        (t = m.created call.settings ∧ call.failures.rotatedSenderData))) := by
  unfold maybeRotateGroupSession
  split
  · next hrotate =>
    refine (createOutboundGroupSession_ensures m _).bindTo (fun t ht => ⟨hrotate, .inl ht⟩)
      fun _ t ht => ?_
    obtain ⟨rfl, rfl, -⟩ := ht
    unfold findSenderData
    split
    · next hfails => exact Ensures.bind (Q := fun _ _ => False) (.fail ⟨hrotate, .inr ⟨rfl, hfails⟩⟩) nofun
    · exact .ret (.inr ⟨hrotate, rfl, rfl⟩)
  · next hrotate => exact .ret (.inl ⟨Bool.eq_false_of_not_eq_true hrotate, rfl, rfl⟩)

variable {m}

lemma encryptForDevices_ensures {id : SessionId} {devices : List DeviceData} {I : GroupSessionManager → Prop}
    {P : DeviceData × WithheldCode → Prop} {F : Prop}
    (h : ∀ chunk, (∀ d ∈ chunk, d ∈ devices) → ∀ s, I s →
      Ensures (encryptRequest call id chunk) s (fun unable t => (∀ p ∈ unable, P p) ∧ I t) fun t => I t ∧ F)
    (hm : I { m with history := m.history ++ devices.map fun d => .intended id d (m.objects id).messageCount }) :
    Ensures (encryptForDevices call id devices) m (fun unable t => (∀ p ∈ unable, P p) ∧
      I t) fun t => I t ∧ F := by
  refine .get_bind (.update_bind ?_)
  refine (Ensures.mapM (P := fun r => (∀ unable, r = .ok unable → ∀ p ∈ unable, P p) ∧ ∀ e, r = .error e → F)
    (fun chunk hchunk s hs => ?_) hm).bind fun results t ht => ?_
  · refine .attempt ((h chunk (fun d hd => mem_of_mem_chunks hchunk hd) s hs).mono ?_ ?_)
    · rintro unable t ⟨hunable, ht⟩
      refine ⟨⟨fun _ heq => ?_, nofun⟩, ht⟩
      rwa [← Except.ok.inj heq]
    · rintro t ⟨ht, hfails⟩ e
      exact ⟨⟨nofun, fun _ _ => hfails⟩, ht⟩
  · refine (Ensures.mapM (P := fun unable => ∀ p ∈ unable, P p) (fun r hr s hs => ?_) ht.2).bind
      fun unable u hu => .ret ⟨fun p hp => ?_, hu.2⟩
    · exact .ofExcept (fun unable heq => ⟨(ht.1 r hr).1 unable heq, hs⟩) fun e he => ⟨hs, (ht.1 r hr).2 e he⟩
    · obtain ⟨xs, hxs, hp⟩ := List.mem_flatten.1 hp
      exact hu.1 xs hxs p hp

/-- **An invariant through the last part of a call.** -/
lemma shareWith_ensures {result : CollectRecipientsResult} {id : SessionId} {I : GroupSessionManager → Prop}
    {J : List (DeviceData × WithheldCode) → GroupSessionManager → Prop} (changes : Changes)
    (hencrypt : Ensures (encryptForDevices call id (devicesToShareWith (m.objects id) result)) m J I)
    (hwithheld : ∀ {unable t}, J unable t →
      Ensures (handleWithheldDevices call id (result.withheldDevices ++ unable)) t (fun _ => I) I)
    (hshared : ∀ {t}, I t → I (t.setObject id { t.objects id with shared := true }))
    (hsaved : ∀ {t} changes, I t → I (t.saved changes)) :
    Ensures (shareWith call result id changes) m (fun _ => I) I := by
  refine .get_bind (hencrypt.bind fun unable t ht => (hwithheld ht).bind fun _ u hu => ?_)
  have hmark (changes) : Ensures (markIfShared id changes) u (fun _ => I) I := by
    refine .get_bind ?_
    split
    · exact .update_bind (.ret (hshared hu))
    · exact .ret hu
  refine (hmark _).bind fun changes v hv => ?_
  split
  · exact .get_bind (.ret hv)
  · refine (saveChanges_ensures v _ _).bindTo (fun _ hw => hw.1 ▸ hv) fun _ w hw => .get_bind (.ret ?_)
    exact hw ▸ hsaved changes hv

end Parts

/-! ## What an invariant has to survive -/

/-- The session no longer waits for the request. -/
def answered (m : GroupSessionManager) (requestId : RequestId) (id : SessionId) : GroupSessionManager :=
  { m with beingShared := m.beingShared.filter (·.1 ≠ requestId) }.setObject id
    ((m.objects id).markRequestAsSent requestId)

/-- An invariant that survives a load, a restart, and a change of the counter and the flag of the
session in use. -/
structure Upkeep (I : GroupSessionManager → Prop) : Prop where
  loaded : ∀ {m t}, I m → Loaded m t → I t
  restart : ∀ {m}, I m → I m.restart
  changed : ∀ {m id} n b, I m → m.cached = some id →
    I (m.setObject id { m.objects id with messageCount := n, invalidated := b }) ∧
    I ((m.setObject id { m.objects id with messageCount := n, invalidated := b }).saved ⟨[id], []⟩)

section Upkeep

variable {I : GroupSessionManager → Prop} {m : GroupSessionManager} {sigs : Signatures}
  (h : Upkeep I) (hm : I m)
include h hm

lemma Upkeep.getOrLoad (fails : Bool) :
    Ensures (getOrLoad fails) m (fun outbound t => I t ∧ ∀ id ∈ outbound, t.cached = some id) I :=
  (getOrLoad_ensures m fails).mono (fun _ _ ht => ⟨h.loaded hm ht.1, ht.2.2⟩) nofun

lemma Upkeep.save {id : SessionId} (hcached : m.cached = some id) (n : ℕ) (b fails : Bool) :
    Ensures (saveChanges fails ⟨[id], []⟩) (m.setObject id { m.objects id with messageCount := n, invalidated := b })
      (fun _ => I) I := by
  obtain ⟨hset, hsaved⟩ := h.changed n b hm hcached
  exact (saveChanges_ensures _ fails _).mono (fun _ _ ht => ht ▸ hsaved) fun _ ht => ht.1 ▸ hset

/-- **A call keeps an invariant if a new session and its last part do.** -/
lemma Upkeep.shareRoomKey {call : Call} (hcreated : ∀ {m}, I m → I (m.created call.settings))
    (hshare : ∀ {t session result} id changes, I t →
      collectSessionRecipients sigs call.store call.users call.settings session = .ok result →
        Ensures (shareWith call result id changes) t (fun _ => I) I) :
    Ensures (shareRoomKey sigs call) m (fun _ => I) I := by
  unfold GroupSessionManager.shareRoomKey
  split
  · exact .fail hm
  refine (getOrCreateOutboundSession_ensures m call).bindTo (fun _ ht => h.loaded hm ht) fun p t ht => ?_
  have ht : I t := by
    cases hnew : p.2 with
    | false => exact h.loaded hm (ht.found hnew).1
    | true =>
      obtain ⟨-, -, u, hu, -, rfl⟩ := ht.unusable hnew
      exact hcreated (h.loaded hm hu)
  refine (sessionChanges_ensures t call _ _).bindTo (fun _ hu => hu.1 ▸ ht) fun changes u hu => ?_
  obtain ⟨rfl, -⟩ := hu
  refine (collectRecipients_ensures sigs call p.1 u).bindTo (fun _ hv => hv.1 ▸ ht) fun result v hv => ?_
  obtain ⟨rfl, hresult⟩ := hv
  refine (maybeRotateGroupSession_ensures v call _ _ _).bindTo ?_ fun q w hw => hshare _ _ ?_ hresult
  · rintro w ⟨-, ⟨rfl, -⟩ | ⟨rfl, -⟩⟩
    · exact ht
    · exact hcreated ht
  · rcases hw with ⟨-, -, rfl⟩ | ⟨-, -, rfl⟩
    · exact ht
    · exact hcreated ht

/-- **A step is a call, the answer to a request, or upkeep.** -/
lemma Upkeep.step {action : Action} (hcall : ∀ call, action = .shareRoomKey call → I (m.step sigs action))
    (hanswered : ∀ saveFails requestId, action = .markRequestAsSent saveFails requestId →
      ∀ id ∈ IndexMap.get m.beingShared requestId,
        I (m.answered requestId id) ∧ I ((m.answered requestId id).saved ⟨[id], []⟩)) :
    I (m.step sigs action) := by
  cases action with
  | shareRoomKey call => exact hcall call rfl
  | markRequestAsSent saveFails requestId =>
    refine Ensures.finalState (.get_bind ?_)
    split
    · exact .ret hm
    · next id hid =>
      obtain ⟨hset, hsaved⟩ := hanswered _ _ rfl id hid
      refine .update_bind (.update_bind ?_)
      exact (saveChanges_ensures _ _ _).mono (fun _ _ ht => ht ▸ hsaved) fun _ ht => ht.1 ▸ hset
  | encrypt loadFails elapsed saveFails =>
    refine Ensures.finalState ((h.getOrLoad hm _).bind fun outbound t ht => .get_bind ?_)
    split
    · exact .fail ht.1
    · split
      · exact .fail ht.1
      · exact .update_bind (h.save ht.1 (ht.2 _ rfl) _ _ _)
  | invalidateGroupSession loadFails saveFails =>
    refine Ensures.finalState ((h.getOrLoad hm _).bind fun outbound t ht => ?_)
    split
    · exact .ret ht.1
    · exact .update_bind ((h.save ht.1 (ht.2 _ rfl) _ _ _).bind fun _ _ hu => .ret hu)
  | shouldShareKey loadFails request =>
    exact Ensures.finalState ((h.getOrLoad hm _).bind fun _ _ ht => .get_bind (.ret ht.1))
  | restart => exact h.restart hm

end Upkeep

end GroupSessionManager

/-- The device of Bob, with some key. -/
def bobDevice (key : Curve25519PublicKey) : DeviceData := ⟨"@bob", "BOB", some key, .unset, false, false, ⟨0⟩⟩

/-- Alice shares with the device of Bob, with which there is an Olm session or not. -/
def bobCall (trust : LocalTrust) (hasOlmSession : Bool) : Call where
  users := ["@bob"]
  settings := .default
  store := bobStore trust
  elapsed := false
  hasOlmSession _ := hasOlmSession
  withheldElsewhere _ := false
  failures := {}

end HaranaMatrix.Crypto
