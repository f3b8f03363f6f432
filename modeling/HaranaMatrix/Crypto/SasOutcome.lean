import HaranaMatrix.Crypto.Identities

/-!
# The outcome of a SAS verification

A flow is cached until it is collected, also once it is done. Its outcome is applied whenever it is
seen to be done: after an event with MACs, after a done event, and when it is confirmed. -/

namespace HaranaMatrix.Crypto

/-- Whether the MACs were for the device, and for the master key, of the other side. -/
structure VerifiedKeys where
  device : Bool
  identity : Bool

inductive InnerSas
  | created
  | started
  | accepted
  | weAccepted
  | keyReceived
  | keySent
  | keysExchanged
  | confirmed
  | macReceived (verified : VerifiedKeys)
  | waitingForDone (verified : VerifiedKeys)
  | done (verified : VerifiedKeys)
  | cancelled

inductive OutgoingContent
  | accept
  | key
  | mac
  | done
  | cancel
deriving DecidableEq

/-- The content of an event, and whether it passes the checks of the state that takes it. -/
inductive AnyVerificationContent
  | accept (valid : Bool)
  | cancel
  | key (valid : Bool)
  | mac (valid : Bool) (verified : VerifiedKeys)
  | done (valid : Bool)

namespace InnerSas

def isDone : InnerSas → Bool
  | .done _ => true
  | _ => false

/-- `verified_devices` and `verified_identities`. -/
def verifiedKeys : InnerSas → VerifiedKeys
  | .done verified => verified
  | _ => ⟨false, false⟩

def cancel (self : InnerSas) : InnerSas × Option OutgoingContent :=
  match self with
  | .done _ | .cancelled => (self, none)
  | _ => (.cancelled, some .cancel)

def accept (self : InnerSas) : InnerSas × List OutgoingContent :=
  match self with
  | .started => (.weAccepted, [.accept])
  | _ => (self, [])

def confirm (startedFromRequest : Bool) (self : InnerSas) : InnerSas × List OutgoingContent :=
  match self with
  | .keysExchanged => (.confirmed, [.mac])
  | .macReceived verified =>
    if startedFromRequest then (.waitingForDone verified, [.mac, .done]) else (.done verified, [.mac])
  | _ => (self, [])

/-- The next state, or a cancellation. -/
def checked (valid : Bool) (next : InnerSas) (content : Option OutgoingContent) :
    InnerSas × Option OutgoingContent :=
  if valid then (next, content) else (.cancelled, some .cancel)

def receiveAnyEvent (startedFromRequest : Bool) (self : InnerSas) :
    AnyVerificationContent → InnerSas × Option OutgoingContent
  | .accept valid =>
    match self with
    | .created | .started => checked valid .accepted (some .key)
    | _ => (self, none)
  | .cancel => (self.cancel.1, none)
  | .key valid =>
    match self with
    | .accepted => checked valid .keyReceived none
    | .keySent => checked valid .keysExchanged none
    | .weAccepted => checked valid .keyReceived (some .key)
    | _ => (self, none)
  | .mac valid verified =>
    match self with
    | .keysExchanged => checked valid (.macReceived verified) none
    | .confirmed =>
      if startedFromRequest then checked valid (.waitingForDone verified) (some .done)
      else checked valid (.done verified) none
    | _ => (self, none)
  | .done valid =>
    match self with
    | .waitingForDone verified => checked valid (.done verified) none
    | _ => (self, none)

/-- `matching` is whether the request is the one with our key. -/
def markRequestAsSent (matching : Bool) (self : InnerSas) : InnerSas :=
  match self with
  | .accepted => if matching then .keySent else self
  | .keyReceived => if matching then .keysExchanged else self
  | _ => self

end InnerSas

/-! ## The machine -/

/-- What does not change during a flow. -/
structure IdentitiesBeingVerified (K : Type) where
  startedFromRequest : Bool
  isSelfVerification : Bool
  deviceBeingVerified : K
  identityBeingVerified : Option K

/-- Whether there is a key to sign with, and whether the store can save. -/
structure MarkingAsDone where
  canSign : Bool
  saveFails : Bool

inductive Outcome
  | deviceVerified
  | signatureUpload
  | sent (content : OutgoingContent)
deriving DecidableEq

/-- A flow, the device and the master key of the other side as they are in the store, and what has
happened. -/
structure SasMachine (K : Type) where
  sas : InnerSas
  cached : Bool
  device : Option (K × LocalTrust)
  identity : Option K
  log : List Outcome

inductive VerificationResult
  | ok
  | cancel
  | signatureUpload

inductive SasAction (K : Type)
  | receive (content : AnyVerificationContent) (env : MarkingAsDone)
  | accept
  | confirm (env : MarkingAsDone)
  | markRequestAsSent (matching : Bool)
  /-- By us, also because it timed out. -/
  | cancel
  | garbageCollect
  | setLocalTrust (trust : LocalTrust)
  /-- The other side is queried again. -/
  | updateStore (device : Option (K × LocalTrust)) (identity : Option K)

namespace SasMachine

variable {K : Type} [DecidableEq K]

variable (s : SasMachine K)

def queueUp (contents : List OutgoingContent) : SasMachine K :=
  { s with log := s.log ++ contents.map .sent }

variable (flow : IdentitiesBeingVerified K)

def verifiesDevice (s : SasMachine K) : Bool :=
  s.device.any fun device => decide (device.1 = flow.deviceBeingVerified) && s.sas.verifiedKeys.device

def markDeviceAsVerified (s : SasMachine K) : SasMachine K :=
  if s.verifiesDevice flow then
    { s with device := s.device.map fun d => (d.1, .verified), log := s.log ++ [.deviceVerified] }
  else s

def verifiesIdentity (s : SasMachine K) : Bool :=
  flow.identityBeingVerified.any fun identity => decide (s.identity =
    some identity) && s.sas.verifiedKeys.identity

/-- The device is marked before the changes are saved; no result is an error of the store. -/
def markAsDone (env : MarkingAsDone) (s : SasMachine K) : Option VerificationResult × SasMachine K :=
  let device := s.verifiesDevice flow
  let identity := s.verifiesIdentity flow
  (if !device && !identity then some .cancel
  else if env.saveFails then none
  -- Our own devices are signed, and the identities of others.
  else if env.canSign && (if flow.isSelfVerification then device else identity) then some .signatureUpload
  else some .ok, s.markDeviceAsVerified flow)

def cancelWithCode : SasMachine K := { s with sas := s.sas.cancel.1 }.queueUp s.sas.cancel.2.toList

/-- `mark_sas_as_done`, and the end of `confirm`. -/
def markSasAsDone (env : MarkingAsDone) (contents : List OutgoingContent) (s : SasMachine K) : SasMachine K :=
  let (result, s) := s.markAsDone flow env
  match result with
  | some .ok => s.queueUp contents
  | some .cancel => s.cancelWithCode
  | some .signatureUpload => { s with log := s.log ++ [Outcome.signatureUpload] }.queueUp contents
  | none => s

def receive (env : MarkingAsDone) (s : SasMachine K) (content : AnyVerificationContent) : SasMachine K :=
  if s.cached then
    let (sas, answer) := s.sas.receiveAnyEvent flow.startedFromRequest content
    let s := { s with sas := sas }
    match content with
    | .accept _ | .key _ => s.queueUp answer.toList
    | .cancel => s
    | .mac _ _ => if sas.isDone then s.markSasAsDone flow env answer.toList else s.queueUp answer.toList
    | .done _ => if sas.isDone then s.markSasAsDone flow env answer.toList else s
  else s

def confirm (env : MarkingAsDone) (s : SasMachine K) : SasMachine K :=
  let (sas, contents) := s.sas.confirm flow.startedFromRequest
  let s := { s with sas := sas }
  if sas.isDone then s.markSasAsDone flow env contents else s.queueUp contents

def step (s : SasMachine K) : SasAction K → SasMachine K
  | .receive content env => s.receive flow env content
  | .accept => { s with sas := s.sas.accept.1 }.queueUp s.sas.accept.2
  | .confirm env => s.confirm flow env
  | .markRequestAsSent matching => { s with sas := s.sas.markRequestAsSent matching }
  | .cancel => s.cancelWithCode
  | .garbageCollect =>
    match s.sas with
    | .done _ | .cancelled => { s with cached := false }
    | _ => s
  | .setLocalTrust trust => { s with device := s.device.map fun d => (d.1, trust) }
  | .updateStore device identity => { s with device := device, identity := identity }

def run (s : SasMachine K) (actions : List (SasAction K)) : SasMachine K :=
  actions.foldl (step flow) s

/-! ## Applying it once -/

/-- The outcome of a flow that is done already is applied again. -/
def repeats : SasAction K → Bool
  | .receive (.mac _ _) _ | .receive (.done _) _ => s.cached && s.sas.isDone
  | .confirm _ => s.sas.isDone
  | _ => false

def runRepeats (flow : IdentitiesBeingVerified K) (s : SasMachine K) : List (SasAction K) → Bool
  | [] => false
  | action :: actions => s.repeats action || runRepeats flow (s.step flow action) actions

/-- A device was set to verified, and a signature upload requested, at most `n` times. -/
def AppliedAtMost (n : ℕ) (s : SasMachine K) : Prop :=
  s.log.count .deviceVerified ≤ n ∧ s.log.count .signatureUpload ≤ n

/-- Nothing was applied, or the flow is done and it was applied once. -/
def Once : Prop := s.AppliedAtMost 0 ∨ s.sas.isDone ∧ s.AppliedAtMost 1

variable {flow : IdentitiesBeingVerified K} {env : MarkingAsDone} {s : SasMachine K} {action : SasAction K}

omit [DecidableEq K] in
lemma AppliedAtMost.queueUp {n : ℕ} (h : s.AppliedAtMost n) (contents : List OutgoingContent) :
    (s.queueUp contents).AppliedAtMost n := by
  have hsent : ∀ o, (∀ content, o ≠ .sent content) → (contents.map Outcome.sent).count o = 0 := fun o ho =>
    List.count_eq_zero.2 fun hmem => have ⟨content, _, heq⟩ := List.mem_map.1 hmem; ho content heq.symm
  simpa [AppliedAtMost, SasMachine.queueUp, hsent] using h

lemma markDeviceAsVerified_spec (flow : IdentitiesBeingVerified K) (s : SasMachine K) :
    (s.markDeviceAsVerified flow).sas = s.sas ∧
      (s.AppliedAtMost 0 → (s.markDeviceAsVerified flow).log.count .deviceVerified ≤ 1 ∧
        (s.markDeviceAsVerified flow).log.count .signatureUpload = 0) := by
  unfold markDeviceAsVerified
  split <;> simp_all [AppliedAtMost]

omit [DecidableEq K] in
lemma cancelWithCode_of_isDone (h : s.sas.isDone) : s.cancelWithCode = s.queueUp [] := by
  obtain ⟨sas, cached, device, identity, log⟩ := s
  cases sas with
  | done verified => rfl
  | _ => cases h

lemma markSasAsDone_spec (hdone : s.sas.isDone) (contents : List OutgoingContent) :
    (s.markSasAsDone flow env contents).sas.isDone ∧
      (s.markSasAsDone flow env contents).device = (s.markDeviceAsVerified flow).device ∧
      (s.AppliedAtMost 0 → (s.markSasAsDone flow env contents).AppliedAtMost 1) := by
  obtain ⟨hsas, hlog⟩ := markDeviceAsVerified_spec flow s
  have hone : s.AppliedAtMost 0 → (s.markDeviceAsVerified flow).AppliedAtMost 1 := fun h =>
    (hlog h).imp_right fun hupload => by omega
  rw [← hsas] at hdone
  unfold markSasAsDone markAsDone
  dsimp only
  split
  · exact ⟨hdone, rfl, fun h => (hone h).queueUp _⟩
  · rw [cancelWithCode_of_isDone hdone]
    exact ⟨hdone, rfl, fun h => (hone h).queueUp _⟩
  · exact ⟨hdone, rfl, fun h => AppliedAtMost.queueUp (by simp [AppliedAtMost, hlog h]) _⟩
  · exact ⟨hdone, rfl, hone⟩

lemma once_markSasAsDone (h : s.AppliedAtMost 0) (hdone : s.sas.isDone) (contents : List OutgoingContent) :
    (s.markSasAsDone flow env contents).Once :=
  have ⟨hdone', _, hone⟩ := markSasAsDone_spec hdone contents
  .inr ⟨hdone', hone h⟩

/-- **The outcome is applied when the flow becomes done**, and not again without a repetition. -/
lemma Once.step (h : s.Once) (hrepeats : s.repeats action = false) : (s.step flow action).Once := by
  rcases h with h | ⟨hdone, h⟩
  · cases action with
    | receive content env =>
      dsimp only [SasMachine.step, receive]
      split
      · split
        · exact .inl (AppliedAtMost.queueUp h _)
        · exact .inl (AppliedAtMost.queueUp h _)
        · exact .inl h
        · split
          · next hdone => exact once_markSasAsDone (by exact h) hdone _
          · exact .inl (AppliedAtMost.queueUp h _)
        · split
          · next hdone => exact once_markSasAsDone (by exact h) hdone _
          · exact .inl h
      · exact .inl h
    | confirm env =>
      dsimp only [SasMachine.step, confirm]
      split
      · next hdone => exact once_markSasAsDone (by exact h) hdone _
      · exact .inl (AppliedAtMost.queueUp h _)
    | accept | cancel => exact .inl (AppliedAtMost.queueUp h _)
    | garbageCollect =>
      dsimp only [SasMachine.step]
      split <;> exact .inl h
    | markRequestAsSent | setLocalTrust | updateStore => exact .inl h
  · obtain ⟨sas, cached, device, identity, log⟩ := s
    cases sas with
    | done verified =>
      cases action with
      | receive content env =>
        cases cached with
        | false => exact .inr ⟨rfl, h⟩
        | true =>
          cases content with
          | accept | key => exact .inr ⟨rfl, AppliedAtMost.queueUp h []⟩
          | cancel => exact .inr ⟨rfl, h⟩
          | mac | done => cases hrepeats
      | confirm env => cases hrepeats
      | accept | cancel => exact .inr ⟨rfl, AppliedAtMost.queueUp h []⟩
      | _ => exact .inr ⟨rfl, h⟩
    | _ => cases hdone

lemma Once.run {actions : List (SasAction K)} (h : s.Once) (hrepeats : runRepeats flow s actions = false) :
    (s.run flow actions).Once := by
  induction actions generalizing s with
  | nil => exact h
  | cons action actions ih =>
    obtain ⟨haction, hrest⟩ := Bool.or_eq_false_iff.1 hrepeats
    exact ih (h.step haction) hrest

/-- **The outcome of a flow is applied once**, if no event with MACs, no done event and no
confirmation comes when it is done. Such an event marks the device again, whatever its trust is by
then. -/
theorem outcome_applied_once (flow : IdentitiesBeingVerified K) :
    (∀ (s : SasMachine K) actions, s.log = [] → runRepeats flow s actions = false →
      (s.run flow actions).AppliedAtMost 1) ∧
    ∀ (s : SasMachine K) content env, s.sas.isDone → (s.step flow (.receive content env)).device =
      (if s.repeats (.receive content env) then s.markDeviceAsVerified flow else s).device := by
  refine ⟨fun s actions hlog hrepeats => ?_, fun s content env hdone => ?_⟩
  · have honce : s.Once := .inl (by simp [AppliedAtMost, hlog])
    rcases honce.run hrepeats with h | ⟨-, h⟩
    · exact h.imp (Nat.le_succ_of_le ·) (Nat.le_succ_of_le ·)
    · exact h
  · obtain ⟨sas, cached, device, identity, log⟩ := s
    cases sas with
    | done verified =>
      cases cached with
      | false => cases content <;> rfl
      | true =>
        cases content with
        | mac | done => exact (markSasAsDone_spec rfl []).2.1
        | _ => rfl
    | _ => cases hdone

/-- Our other device is verified, and then the user shuts it out. -/
def shutOut : List (SasAction ℕ) :=
  [.receive (.accept true) ⟨true, false⟩, .markRequestAsSent true, .receive (.key true) ⟨true, false⟩,
    .confirm ⟨true, false⟩, .receive (.mac true ⟨true, false⟩) ⟨true, false⟩, .receive (.done true) ⟨true, false⟩,
    .setLocalTrust .blackListed]

/-- A cancellation comes when the flow is done. -/
theorem outcome_applied_once_shutOut :
    let s := run ⟨true, true, 1, none⟩ (⟨.created, true, some (1, .unset), none, []⟩ : SasMachine ℕ) shutOut
    s.AppliedAtMost 1 ∧ (s.step ⟨true, true, 1, none⟩ (.receive .cancel ⟨true, false⟩)).device = s.device :=
  have h := outcome_applied_once (K := ℕ) ⟨true, true, 1, none⟩
  ⟨h.1 _ shutOut rfl (by decide), h.2 _ .cancel ⟨true, false⟩ (by decide)⟩

/-- The done event comes again. -/
theorem outcome_applied_twice :
    let s := run ⟨true, true, 1, none⟩ (⟨.created, true, some (1, .unset), none, []⟩ : SasMachine ℕ)
      (shutOut ++ [.receive (.done true) ⟨true, false⟩])
    s.device = some (1, .verified) ∧ s.log.count .deviceVerified = 2 ∧ s.log.count .signatureUpload = 2 := by
  decide

end SasMachine

end HaranaMatrix.Crypto
