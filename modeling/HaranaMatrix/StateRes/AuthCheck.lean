import HaranaMatrix.StateRes.EventAuth
import HaranaMatrix.StateRes.Fetch

/-!
# Authorization against an asynchronous store

The checks of `StateRes.EventAuth`, run in rounds against what was fetched. The first round has the
events that the selection algorithm names. Every other event that a check may ask for makes it fail
while it seems to be absent, so an event is never allowed before everything that was asked for is
there. -/

set_option linter.unusedSectionVars false

namespace HaranaMatrix.StateRes

open Query List FetchCache

variable [Ruma]

inductive AuthCheckOutcome
  | allow
  | deny (reason : String)
deriving DecidableEq

namespace Server

/-- The outcome of a check that ran to completion. -/
def outcome : Except (FetchError String) Unit → Except (FetchError Empty) AuthCheckOutcome
  | .ok () => .ok .allow
  | .error (.failed reason) => .ok (.deny reason)
  | .error .fetchRoundsExhausted => .error .fetchRoundsExhausted

variable (rules : AuthorizationRules)

/-- The auth events, and the create event that the room ID names. -/
def independentSeeds (event : Event) : List EventId :=
  event.authEvents ++
    if rules.roomCreateEventIdAsRoomId then
      match event.roomId with
      | none => []
      | some roomId =>
        match Ruma.roomCreateEventId roomId with
        | .ok createEventId => [createEventId]
        | .error _ => []
    else []

def checkStateIndependentAuthRules (event : Event) (fetchEvent : EventId → Option Event) :
    Except (FetchError Empty) AuthCheckOutcome :=
  outcome (FetchCache.rounds (fun _ => false) fetchEvent (StateRes.checkStateIndependentAuthRules rules event)
    maxFetchRounds .new (independentSeeds rules event))

def checkStateDependentAuthRules (event : Event) (fetchState : StateKey → Option Event) :
    Except (FetchError Empty) AuthCheckOutcome :=
  match authTypesForEvent event.eventType event.sender event.stateKey event.content rules with
  | .error reason => .ok (.deny reason)
  | .ok authTypes =>
    outcome (FetchCache.rounds (fun _ => false) fetchState (StateRes.checkStateDependentAuthRules rules event)
      maxFetchRounds .new (authTypes ++ [(.roomCreate, "")]))

def authCheck (event : Event) (fetchEvent : EventId → Option Event)
    (fetchState : StateKey → Option Event) : Except (FetchError Empty) AuthCheckOutcome := do
  match ← checkStateIndependentAuthRules rules event fetchEvent with
  | .allow => checkStateDependentAuthRules rules event fetchState
  | .deny reason => return .deny reason

end Server

/-! ## What the rules ask for -/

section Asks

variable {rules : AuthorizationRules} {event create : Event} {targetUser : UserId} {P Q : StateKey → Prop}

lemma only_reject {K : Type} {P : K → Prop} (c : Prop) [Decidable c] (reason : String) :
    (reject c reason : Query K Event String Unit).Only P := by
  unfold reject
  split
  · exact only_fail _
  · exact only_pure _

lemma only_checkAuthEvents {P : EventId → Prop} {expectedAuthTypes : List StateKey} {roomId : RoomId}
    {authEvents : List EventId} {seenAuthTypes : List StateKey} (h : ∀ id ∈ authEvents, P id) :
    (checkAuthEvents expectedAuthTypes roomId authEvents seenAuthTypes).Only P := by
  induction authEvents generalizing seenAuthTypes with
  | nil => exact only_pure _
  | cons eventId authEvents ih =>
    rw [forall_mem_cons] at h
    refine (only_lookup h.1).bind fun authEvent => ?_
    cases authEvent with
    | none => exact only_fail _
    | some authEvent =>
      refine (only_reject _ _).bind fun _ => ?_
      cases authEvent.stateKey with
      | none => exact only_fail _
      | some stateKey =>
        refine (only_reject _ _).bind fun _ => (only_reject _ _).bind fun _ => (only_reject _ _).bind fun _ => ?_
        exact ih h.2

lemma only_checkRoomCreateOf {P : EventId → Prop} {roomId : RoomId}
    (h : ∀ id, Ruma.roomCreateEventId roomId = .ok id → P id) : (checkRoomCreateOf roomId).Only P := by
  unfold checkRoomCreateOf
  cases hid : Ruma.roomCreateEventId roomId with
  | error error => exact only_fail _
  | ok createEventId =>
    refine (only_lookup (h _ hid)).bind fun create => ?_
    cases create with
    | none => exact only_fail _
    | some create => exact only_reject _ _

/-- **The state-independent rules ask for the seeds only.** -/
theorem only_independent (rules : AuthorizationRules) (event : Event) :
    (checkStateIndependentAuthRules rules event).Only (· ∈ Server.independentSeeds rules event) := by
  unfold checkStateIndependentAuthRules
  by_cases htype : event.eventType = .roomCreate
  · rw [if_pos htype]
    exact only_lift _
  rw [if_neg htype]
  refine (only_lift _).bind fun expectedAuthTypes => ?_
  cases hroom : event.roomId with
  | none => exact only_fail _
  | some roomId =>
    have hauth : ∀ id ∈ event.authEvents, id ∈ Server.independentSeeds rules event := fun id hid =>
      mem_append_left _ hid
    refine (only_checkAuthEvents hauth).bind fun seenAuthTypes => ?_
    refine (only_reject _ _).bind fun _ => ?_
    by_cases hrules : rules.roomCreateEventIdAsRoomId = true
    · rw [if_pos hrules]
      refine only_checkRoomCreateOf fun id hid => ?_
      simp [Server.independentSeeds, hrules, hroom, hid]
    · rw [if_neg hrules]
      exact only_pure _

lemma only_userMembership {userId : UserId} (h : P (.roomMember, userId)) :
    (userMembership userId).Only P := by
  refine (only_lookup h).bind fun member => ?_
  cases member with
  | none => exact only_pure _
  | some member => exact only_lift _

lemma only_joinRule (h : P (.roomJoinRules, "")) : joinRule.Only P := by
  refine (only_lookup h).bind fun rule => ?_
  cases rule with
  | none => exact only_fail _
  | some rule => exact only_lift _

lemma only_roomCreateEvent (h : P (.roomCreate, "")) : roomCreateEvent.Only P := by
  refine (only_lookup h).bind fun create => ?_
  cases create with
  | none => exact only_fail _
  | some create => exact only_pure _

/-! ### Member events -/

section Member

variable (hpower : P (.roomPowerLevels, "")) (hsender : P (.roomMember, event.sender))
  (htarget : P (.roomMember, targetUser))

include htarget in
lemma only_checkThirdPartyInvite {invite : ThirdPartyInvite}
    (hinvite : ∀ token, invite.token = .ok token → P (.roomThirdPartyInvite, token)) :
    (checkThirdPartyInvite event invite targetUser).Only P := by
  refine (only_userMembership htarget).bind fun membership => (only_reject _ _).bind fun _ => ?_
  refine only_lift_bind fun token htoken => (only_lift _).bind fun mxid => (only_reject _ _).bind fun _ => ?_
  refine (only_lookup (hinvite token htoken)).bind fun inviteEvent => ?_
  cases inviteEvent with
  | none => exact only_fail _
  | some inviteEvent =>
    refine (only_reject _ _).bind fun _ => (only_lift _).bind fun publicKeys => (only_lift _).bind fun signatures => ?_
    exact (only_lift _).bind fun json => (only_lift _).bind fun found => only_reject _ _

include hpower hsender htarget

lemma only_checkRoomMemberInvite
    (hinvite : ∀ invite token, event.content.thirdPartyInvite = .ok (some invite) → invite.token = .ok token →
      P (.roomThirdPartyInvite, token)) : (checkRoomMemberInvite rules event targetUser create).Only P := by
  refine only_lift_bind fun invite hcontent => ?_
  cases invite with
  | some invite => exact only_checkThirdPartyInvite htarget fun token => hinvite invite token hcontent
  | none =>
    refine (only_userMembership hsender).bind fun _ => (only_reject _ _).bind fun _ => ?_
    refine (only_userMembership htarget).bind fun _ => (only_reject _ _).bind fun _ => ?_
    refine (only_lift _).bind fun creators => (only_lookup hpower).bind fun powerLevels => ?_
    exact (only_lift _).bind fun senderLevel => (only_lift _).bind fun inviteLevel => only_reject _ _

lemma only_checkRoomMemberLeave : (checkRoomMemberLeave rules event targetUser create).Only P := by
  refine (only_userMembership hsender).bind fun senderMembership => ?_
  split
  · exact only_reject _ _
  · refine (only_reject _ _).bind fun _ => (only_lift _).bind fun creators => ?_
    refine (only_lookup hpower).bind fun powerLevels => (only_userMembership htarget).bind fun targetMembership => ?_
    refine (only_lift _).bind fun senderLevel => (only_lift _).bind fun banLevel => (only_reject _ _).bind fun _ => ?_
    exact (only_lift _).bind fun kickLevel => (only_lift _).bind fun targetLevel => only_reject _ _

omit htarget in
lemma only_checkRoomMemberBan : (checkRoomMemberBan rules event targetUser create).Only P := by
  refine (only_userMembership hsender).bind fun _ => (only_reject _ _).bind fun _ => (only_lift _).bind fun creators => ?_
  refine (only_lookup hpower).bind fun powerLevels => (only_lift _).bind fun senderLevel => ?_
  exact (only_lift _).bind fun banLevel => (only_lift _).bind fun targetLevel => only_reject _ _

omit htarget hpower in
lemma only_checkRoomMemberKnock (hrules : P (.roomJoinRules, "")) :
    (checkRoomMemberKnock rules event targetUser).Only P := by
  refine (only_joinRule hrules).bind fun rule => (only_reject _ _).bind fun _ => (only_reject _ _).bind fun _ => ?_
  exact (only_userMembership hsender).bind fun _ => only_reject _ _

omit hsender htarget in
lemma guarded_checkAuthorisedJoin (hPQ : ∀ key, P key → Q key)
    (hauthorised : ∀ userId, event.content.joinAuthorisedViaUsersServer = .ok (some userId) →
      Q (.roomMember, userId))
    (creators : List UserId) : (checkAuthorisedJoin rules event creators).Guarded P Q := by
  refine guarded_lift_bind fun userId hcontent => ?_
  cases userId with
  | none => exact .done _
  | some userId =>
    -- absent, the user is not joined
    refine .ask (hauthorised userId hcontent) (.inr (.error _)) fun member => ?_
    have hrest : ∀ membership : MembershipState, (do
        reject (membership ≠ .join) "`join_authorised_via_users_server` is not joined"
        let powerLevels ← roomPowerLevelsEvent
        let userLevel ← lift (userPowerLevel rules powerLevels userId creators)
        let inviteLevel ← lift (intOrDefault rules powerLevels .invite)
        reject (userLevel.ltInt inviteLevel =
          true) "`join_authorised_via_users_server` does not have enough power" :
          StateQuery Unit).Guarded P Q := fun membership => by
      refine Only.guarded ((only_reject _ _).bind fun _ => (only_lookup hpower).bind fun powerLevels => ?_) hPQ
      exact (only_lift _).bind fun userLevel => (only_lift _).bind fun inviteLevel => only_reject _ _
    cases member with
    | none => exact hrest .leave
    | some member => exact guarded_lift_bind fun membership _ => hrest membership

omit hsender in
lemma guarded_checkRoomMemberJoin (hPQ : ∀ key, P key → Q key) (hrules : P (.roomJoinRules, ""))
    (hauthorised : ∀ userId, event.content.joinAuthorisedViaUsersServer = .ok (some userId) →
      Q (.roomMember, userId)) :
    (checkRoomMemberJoin rules event targetUser create).Guarded P Q := by
  refine guarded_lift_bind fun creator _ => guarded_lift_bind fun creators _ => ?_
  split
  · exact .done _
  · refine ((only_reject _ _).guarded hPQ).bind fun _ => ?_
    refine ((only_userMembership htarget).guarded hPQ).bind fun currentMembership => ?_
    refine ((only_reject _ _).guarded hPQ).bind fun _ => ((only_joinRule hrules).guarded hPQ).bind fun rule => ?_
    split
    · exact .done _
    · split
      · split
        · exact .done _
        · exact guarded_checkAuthorisedJoin hpower hPQ hauthorised creators
      · exact (only_reject _ _).guarded hPQ

end Member

/-! ### The selected keys -/

lemma mem_foldl_addAuthType {keys authTypes : List StateKey} {key : StateKey}
    (h : key ∈ authTypes ∨ key ∈ keys) :
    key ∈ keys.foldl addAuthType authTypes := by
  induction keys generalizing authTypes with
  | nil => simpa using h
  | cons k keys ih =>
    refine ih ?_
    unfold addAuthType
    rcases h with h | h
    · split
      · exact .inl h
      · exact .inl (mem_append_left _ h)
    · rcases mem_cons.1 h with rfl | h
      · split
        · next hmem => exact .inl hmem
        · exact .inl (by simp)
      · exact .inr h

/-- What the selection algorithm names for a member event. -/
structure MemberKeys (event : Event) (P : StateKey → Prop) (stateKey : String)
    (membership : MembershipState) : Prop where
  stateKey_eq : event.stateKey = some stateKey
  membership_eq : event.content.membership = .ok membership
  target : P (.roomMember, stateKey)
  joinRules : membership = .join ∨ membership = .invite ∨ membership = .knock → P (.roomJoinRules, "")
  invite : membership = .invite → ∀ invite token, event.content.thirdPartyInvite = .ok (some invite) →
    invite.token = .ok token → P (.roomThirdPartyInvite, token)

lemma memberKeys {authTypes authTypes' : List StateKey}
    (h : authTypesForMember authTypes event.stateKey event.content rules = .ok authTypes') :
    (∀ key ∈ authTypes, key ∈ authTypes') ∧
      ∃ stateKey membership, MemberKeys event (· ∈ authTypes') stateKey membership := by
  cases hkey : event.stateKey with
  | none =>
    rw [hkey] at h
    cases h
  | some stateKey =>
    simp only [hkey] at h
    obtain ⟨membership, hmembership, h⟩ := bind_eq_ok h
    obtain ⟨thirdPartyInvite, hinvite, h⟩ := bind_eq_ok h
    obtain ⟨authorisedUser, -, h⟩ := bind_eq_ok h
    cases h
    refine ⟨fun key hmem => mem_foldl_addAuthType (.inl hmem), stateKey, membership, hkey,
      hmembership, ?_, ?_, ?_⟩
    · exact mem_foldl_addAuthType (.inr (by simp))
    · intro hjoin
      exact mem_foldl_addAuthType (.inr (by simp [hjoin]))
    · rintro rfl invite token hcontent htoken
      rw [thirdPartyInviteKeys, if_pos rfl, hcontent] at hinvite
      simp only [ok_bind, htoken] at hinvite
      cases hinvite
      exact mem_foldl_addAuthType (.inr (by simp))

/-- The user who authorised a join, who may not be named by the selection algorithm. -/
def authorisedKeys (event : Event) : List StateKey :=
  match event.content.joinAuthorisedViaUsersServer with
  | .ok (some userId) => [(.roomMember, userId)]
  | _ => []

lemma guarded_checkRoomMember {stateKey : String} {membership : MembershipState}
    (h : MemberKeys event P stateKey membership) (hpower : P (.roomPowerLevels, ""))
    (hsender : P (.roomMember, event.sender)) (hPQ : ∀ key, P key → Q key)
    (hauthorised : ∀ userId, event.content.joinAuthorisedViaUsersServer = .ok (some userId) →
      Q (.roomMember, userId)) :
    (checkRoomMember rules event create).Guarded P Q := by
  unfold checkRoomMember
  rw [h.stateKey_eq]
  simp only [h.membership_eq]
  cases Ruma.validateUserId stateKey with
  | error e => exact .done _
  | ok _ =>
    show (checkMembership rules event stateKey create membership).Guarded P Q
    cases membership with
    | join => exact guarded_checkRoomMemberJoin hpower h.target hPQ (h.joinRules (.inl rfl)) hauthorised
    | invite => exact (only_checkRoomMemberInvite hpower hsender h.target (h.invite rfl)).guarded hPQ
    | leave => exact (only_checkRoomMemberLeave hpower hsender h.target).guarded hPQ
    | ban => exact (only_checkRoomMemberBan hpower hsender).guarded hPQ
    | knock =>
      rw [checkMembership]
      split
      · exact (only_checkRoomMemberKnock hsender (h.joinRules (.inr (.inr rfl)))).guarded hPQ
      · exact .done _
    | custom name => exact .done _

/-- **Every path of the state-dependent rules that ends in acceptance asks for the seeds only.** -/
theorem guarded_dependent {authTypes : List StateKey}
    (h : authTypesForEvent event.eventType event.sender event.stateKey event.content rules = .ok authTypes) :
    (checkStateDependentAuthRules rules event).Guarded (· ∈ authTypes ++ [(.roomCreate, "")])
      (· ∈ authTypes ++ [(.roomCreate, "")] ++ authorisedKeys event) := by
  have hPQ : ∀ key : StateKey, key ∈ authTypes ++ [(.roomCreate, "")] →
      key ∈ authTypes ++ [(.roomCreate, "")] ++ authorisedKeys event := fun key hkey => mem_append_left _ hkey
  unfold checkStateDependentAuthRules
  by_cases htype : event.eventType = .roomCreate
  · rw [if_pos htype]
    exact .done _
  rw [if_neg htype]
  simp only [authTypesForEvent, if_neg htype] at h
  generalize hbase : (if rules.roomCreateEventIdAsRoomId then [(.roomPowerLevels, ""), (.roomMember, event.sender)]
    else [(.roomPowerLevels, ""), (.roomMember, event.sender)] ++ [(.roomCreate, "")] : List StateKey) = base at h
  -- the power levels and the sender are always named
  have hnamed : ∀ key : StateKey, key ∈ [(.roomPowerLevels, ""), (.roomMember, event.sender)] →
      key ∈ authTypes ++ [(.roomCreate, "")] := by
    intro key hkey
    have hkey' : key ∈ base := by
      rw [← hbase]
      split
      · exact hkey
      · exact mem_append_left _ hkey
    refine mem_append_left _ ?_
    split at h
    · exact (memberKeys h).1 key hkey'
    · cases h
      exact hkey'
  have hpower := hnamed (.roomPowerLevels, "") (by simp)
  have hsender := hnamed (.roomMember, event.sender) (by simp)
  have hcreate : (.roomCreate, "") ∈ authTypes ++ [((.roomCreate, "") : StateKey)] := by simp
  refine ((only_roomCreateEvent hcreate).guarded hPQ).bind fun create => ?_
  refine guarded_lift_bind fun federate _ => ((only_reject _ _).guarded hPQ).bind fun _ => ?_
  split
  · exact (only_reject _ _).guarded hPQ
  split
  · next hmember =>
    rw [if_pos hmember] at h
    obtain ⟨-, stateKey, membership, hkeys⟩ := memberKeys h
    refine guarded_checkRoomMember ⟨hkeys.stateKey_eq, hkeys.membership_eq, mem_append_left _ hkeys.target,
      fun hjoin => mem_append_left _ (hkeys.joinRules hjoin),
      fun hinvite invite token hc ht => mem_append_left _ (hkeys.invite hinvite invite token hc ht)⟩
      hpower hsender hPQ fun userId huser => ?_
    simp [authorisedKeys, huser]
  · refine ((only_userMembership hsender).guarded hPQ).bind fun membership => ?_
    refine ((only_reject _ _).guarded hPQ).bind fun _ => guarded_lift_bind fun creators _ => ?_
    exact ((only_lookup hpower).guarded hPQ).bind fun powerLevels => .done _

end Asks

/-! ## The checks -/

section Check

variable {rules : AuthorizationRules} {event : Event} {fetchEvent : EventId → Option Event}
  {fetchState : StateKey → Option Event}

/-- The outcome of a check that is run against the store itself. -/
def directOutcome : Except String Unit → AuthCheckOutcome
  | .ok () => .allow
  | .error reason => .deny reason

lemma outcome_mapError (r : Except String Unit) :
    Server.outcome (r.mapError .failed) = .ok (directOutcome r) := by
  cases r <;> rfl

lemma unknown_le {K V : Type} [DecidableEq K] {fetch : K → Option V} {cache : FetchCache K V}
    (h : cache.Fetched fetch)
    {pending extra : List K} : ((cache.fetchAll fetch pending).unknown (pending ++ extra)).length ≤ extra.length := by
  have hpending : (cache.fetchAll fetch pending).unknown pending = [] := by
    refine filter_eq_nil_iff.2 fun key hkey => ?_
    have := ((fetchAll_spec h pending).2 key).2 (.inl hkey)
    simpa using Option.isSome_iff_ne_none.1 this
  rw [unknown, filter_append, ← unknown, hpending, nil_append]
  exact length_filter_le _ _

lemma independent_eq : Server.checkStateIndependentAuthRules rules event fetchEvent =
    .ok (directOutcome ((checkStateIndependentAuthRules rules event).run fetchEvent)) := by
  unfold Server.checkStateIndependentAuthRules
  have hguarded := (only_independent rules event).guarded (Q := (· ∈ Server.independentSeeds rules event ++ []))
    fun key hkey => mem_append_left _ hkey
  rw [rounds_guarded fetched_new hguarded (fun key hkey => .inl hkey), outcome_mapError]
  exact lt_of_le_of_lt (unknown_le fetched_new) (by decide)

lemma dependent_eq {authTypes : List StateKey}
    (h : authTypesForEvent event.eventType event.sender event.stateKey event.content rules = .ok authTypes) :
    Server.checkStateDependentAuthRules rules event fetchState =
      .ok (directOutcome ((checkStateDependentAuthRules rules event).run fetchState)) := by
  unfold Server.checkStateDependentAuthRules
  rw [h]
  simp only
  rw [rounds_guarded fetched_new (guarded_dependent h) (fun key hkey => .inl hkey), outcome_mapError]
  refine lt_of_le_of_lt (unknown_le fetched_new) ?_
  have : (authorisedKeys event).length ≤ 1 := by
    unfold authorisedKeys
    split <;> simp
  exact lt_of_le_of_lt this (by decide)

lemma authTypes_of_independent (h : (checkStateIndependentAuthRules rules event).run fetchEvent = .ok ()) :
    ∃ authTypes, authTypesForEvent event.eventType event.sender event.stateKey event.content rules =
      .ok authTypes := by
  by_cases htype : event.eventType = .roomCreate
  · exact ⟨[], by rw [authTypesForEvent, if_pos htype]⟩
  · rw [checkStateIndependentAuthRules, if_neg htype, run_bind] at h
    obtain ⟨authTypes, hauth, -⟩ := bind_eq_ok h
    exact ⟨authTypes, hauth⟩

/-- **The asynchronous check is the synchronous one.** It allows an event iff both checks, which
look the store and the snapshot up directly, succeed; otherwise it denies it, and it never runs out
of rounds. While the seeds are known, a check that succeeds has asked for nothing else. -/
theorem authCheck_agrees (rules : AuthorizationRules) (event : Event) (fetchEvent : EventId → Option Event)
    (fetchState : StateKey → Option Event) :
    (Server.authCheck rules event fetchEvent fetchState = .ok .allow ↔
      (checkStateIndependentAuthRules rules event).run fetchEvent = .ok () ∧
      (checkStateDependentAuthRules rules event).run fetchState = .ok ()) ∧
    (Server.authCheck rules event fetchEvent fetchState = .ok .allow ∨
      ∃ reason, Server.authCheck rules event fetchEvent fetchState = .ok (.deny reason)) ∧
    (∀ known, (∀ key ∈ Server.independentSeeds rules event, (known key).isSome) →
      ((checkStateIndependentAuthRules rules event).runKnown known).1 = .ok () →
      ((checkStateIndependentAuthRules rules event).runKnown known).2 = []) ∧
    (∀ authTypes, authTypesForEvent event.eventType event.sender event.stateKey event.content rules = .ok authTypes →
      ∀ known, (∀ key ∈ authTypes ++ [(.roomCreate, "")], (known key).isSome) →
      ((checkStateDependentAuthRules rules event).runKnown known).1 = .ok () →
      ((checkStateDependentAuthRules rules event).runKnown known).2 = []) := by
  refine ⟨?_, ?_, fun known hknown hok => ?_, fun authTypes hauth known hknown hok => ?_⟩
  · unfold Server.authCheck
    rw [independent_eq]
    cases hind : (checkStateIndependentAuthRules rules event).run fetchEvent with
    | error reason =>
      constructor
      · intro hallow
        cases hallow
      · rintro ⟨hfalse, -⟩
        cases hfalse
    | ok _ =>
      obtain ⟨authTypes, hauth⟩ := authTypes_of_independent hind
      simp only [directOutcome, ok_bind, dependent_eq hauth, true_and]
      cases (checkStateDependentAuthRules rules event).run fetchState <;> simp
  · unfold Server.authCheck
    rw [independent_eq]
    cases hind : (checkStateIndependentAuthRules rules event).run fetchEvent with
    | error reason => exact .inr ⟨reason, rfl⟩
    | ok _ =>
      obtain ⟨authTypes, hauth⟩ := authTypes_of_independent hind
      simp only [directOutcome, ok_bind, dependent_eq hauth]
      cases (checkStateDependentAuthRules rules event).run fetchState with
      | ok _ => exact .inl rfl
      | error reason => exact .inr ⟨reason, rfl⟩
  · exact ((only_independent rules event).guarded fun key hkey => hkey).no_misses hknown hok
  · exact (guarded_dependent hauth).no_misses hknown hok

end Check

end HaranaMatrix.StateRes
