import HaranaMatrix.Base.MemberStore

/-!
# Display name ambiguity

The users of every display name are kept up to date by syncs, one member event at a time, and are
built anew from complete member lists. Both are compared with the member events: the users of a name
should be the active members that have it.

* `Pending` — what the changes of a sync or of a list say about the profiles of the members they change;
* `Agrees` — the users of the names during a sync, and the current member events;
* `Settled` — the store between two syncs or lists.
-/

namespace HaranaMatrix.Base

open IndexMap AmbiguityCache Option Finset DisplayNameUsers

variable {U N D : Type} [LinearOrder U] (names : Naming U N D)

/-! ## Names -/

/-- The name of the member after the event. -/
def rawName (event : RoomMemberEvent U N) : N := event.displayname.getD (names.localpart event.stateKey)

def nameOf (event : RoomMemberEvent U N) : D := names.displayName (rawName names event)

def activeName (event : Option (RoomMemberEvent U N)) : Option D :=
  event.bind fun event => if isMemberActive event.membership then some (nameOf names event) else none

/-- The users of every name are the active members with that name. -/
def NamesMatch [DecidableEq D] (store : MemoryStore U N D) : Prop :=
  ∀ d user, user ∈ store.getUsersWithDisplayName d ↔ activeName names (store.getMemberEvent user) = some d

/-- What the users of the names before and after an event say about its ambiguity change. -/
structure Fits (event : RoomMemberEvent U N) (before after : D → Finset U)
    (change : AmbiguityChange U) : Prop where
  memberId : change.memberId = event.stateKey
  memberAmbiguous : change.memberAmbiguous = true ↔ event.stateKey ∈ after (nameOf names event) ∧
    (names.isInherentlyAmbiguous (rawName names event) = true ∨ 1 < (after (nameOf names event)).card)
  disambiguatedMember : ∀ user, change.disambiguatedMember = some user ↔
    user ≠ event.stateKey ∧ ∃ d, user ∈ before d ∧ 1 < (before d).card ∧ after d = {user}
  ambiguatedMember : ∀ user, change.ambiguatedMember = some user ↔
    user ≠ event.stateKey ∧ ∃ d, before d = {user} ∧ user ∈ after d ∧ 1 < (after d).card

/-! ## Profiles -/

section Profiles

variable {changes : StateChanges U N D} {store : MemoryStore U N D} {event : RoomMemberEvent U N} {user : U}

/-- The changes after another event. -/
def StateChanges.addMember (changes : StateChanges U N D) (event : RoomMemberEvent U N) :
    StateChanges U N D :=
  let changes := upsertOrDelete changes event
  { changes with state := IndexMap.insert changes.state event.stateKey event }

/-- The pending profile of an active member has the display name of the event. It was inserted with
the event, or is deleted with the stored one. -/
structure Pending (changes : StateChanges U N D) : Prop where
  state : (changes.state.map Prod.fst).Nodup
  profiles : (changes.profiles.map Prod.fst).Nodup
  key : ∀ {user event}, changes.member user = some event → event.stateKey = user
  profile : ∀ {user event name}, changes.member user = some event → isMemberActive event.membership →
    (get changes.profiles user).join = some name → event.displayname = some name
  kept : ∀ {user event}, changes.member user = some event → isMemberActive event.membership →
    (get changes.profiles user).isSome ∨ user ∈ changes.profilesToDelete
  untouched : ∀ {user}, changes.member user = none →
    get changes.profiles user = none ∧ user ∉ changes.profilesToDelete

/-- The stored profile of an active member has the display name of the stored event. -/
structure ProfilesMatch (store : MemoryStore U N D) : Prop where
  key : ∀ {user event}, store.getMemberEvent user = some event → event.stateKey = user
  profile : ∀ {user event name}, store.getMemberEvent user = some event → isMemberActive event.membership →
    (store.getProfile user).join = some name → event.displayname = some name

lemma pending_nil : Pending ({} : StateChanges U N D) where
  state := List.nodup_nil
  profiles := List.nodup_nil
  key h := by cases h
  profile h := by cases h
  kept h := by cases h
  untouched _ := ⟨rfl, List.not_mem_nil⟩

lemma get_profiles_upsertOrDelete (hself : event.sender = event.stateKey) (user : U) :
    get (upsertOrDelete changes event).profiles user =
      if user = event.stateKey then
        if event.membership = .invite ∨ event.membership = .ban then none
        else if event.membership = .leave then get changes.profiles user else some event.displayname
      else get changes.profiles user := by
  obtain ⟨inserted, hinserted⟩ : ∃ inserted, inserted = if event.stateKey = event.sender ∧
    event.membership ≠ .leave then
    IndexMap.insert changes.profiles event.sender event.displayname else changes.profiles := ⟨_, rfl⟩
  have hinsert : get inserted user =
      if user = event.stateKey ∧ event.membership ≠ .leave then some event.displayname else get changes.profiles user := by
    rw [hinserted, hself]
    by_cases hleave : event.membership = .leave <;> simp [hleave, get_insert]
  have hprofiles : (upsertOrDelete changes event).profiles =
      if event.membership = .invite ∨ event.membership = .ban then inserted.filter (·.1 ≠ event.stateKey) else inserted := by
    rw [hinserted]
    unfold upsertOrDelete
    split <;> split <;> rfl
  rw [hprofiles]
  by_cases hdelete : event.membership = .invite ∨ event.membership = .ban
  · simp only [hdelete, if_true]
    refine (get_filter _ (· ≠ event.stateKey) user).trans ?_
    by_cases huser : user = event.stateKey
    · simp [huser]
    · simp [huser, hinsert]
  · simp only [hdelete, if_false, hinsert]
    by_cases huser : user = event.stateKey <;> by_cases hleave : event.membership = .leave <;> simp [huser, hleave]

lemma mem_profilesToDelete_upsertOrDelete (user : U) :
    user ∈ (upsertOrDelete changes event).profilesToDelete ↔
    user ∈ changes.profilesToDelete ∨ user = event.stateKey ∧
      (event.membership = .invite ∨ event.membership = .ban) := by
  unfold upsertOrDelete
  split <;> split <;> simp_all

lemma nodup_profiles_upsertOrDelete (h : (changes.profiles.map Prod.fst).Nodup)
    (event : RoomMemberEvent U N) :
    ((upsertOrDelete changes event).profiles.map Prod.fst).Nodup := by
  unfold upsertOrDelete
  split <;> split
  · exact nodup_filter (nodup_insert h _ _) _
  · exact nodup_insert h _ _
  · exact nodup_filter h _
  · exact h

lemma member_addMember (user : U) : (changes.addMember event).member user =
    if user = event.stateKey then some event else changes.member user := by
  rw [StateChanges.member, StateChanges.addMember, state_upsertOrDelete, get_insert]
  rfl

lemma Pending.addMember (h : Pending changes) (hself : event.sender = event.stateKey) :
    Pending (changes.addMember event) := by
  have hprofiles : ∀ user, get (changes.addMember event).profiles user = _ :=
    get_profiles_upsertOrDelete hself
  have hdelete : ∀ user, user ∈ (changes.addMember event).profilesToDelete ↔ _ :=
    mem_profilesToDelete_upsertOrDelete
  refine ⟨?_, nodup_profiles_upsertOrDelete h.profiles event, ?_, ?_, ?_, ?_⟩
  · rw [StateChanges.addMember, state_upsertOrDelete]
    exact nodup_insert h.state _ _
  · intro user e he
    rw [member_addMember] at he
    split at he
    · next huser =>
      obtain rfl := Option.some.inj he
      exact huser.symm
    · exact h.key he
  · intro user e name he hactive hname
    rw [member_addMember] at he
    rw [hprofiles] at hname
    by_cases huser : user = event.stateKey
    · cases hm : event.membership <;> simp_all [isMemberActive]
    · rw [if_neg huser] at he hname
      exact h.profile he hactive hname
  · intro user e he hactive
    rw [member_addMember] at he
    rw [hprofiles, hdelete]
    by_cases huser : user = event.stateKey
    · cases hm : event.membership <;> simp_all [isMemberActive]
    · rw [if_neg huser] at he ⊢
      exact (h.kept he hactive).imp_right .inl
  · intro user he
    rw [member_addMember] at he
    rw [hprofiles, hdelete]
    by_cases huser : user = event.stateKey
    · rw [if_pos huser] at he
      cases he
    · rw [if_neg huser] at he ⊢
      obtain ⟨hnone, hkept⟩ := h.untouched he
      exact ⟨hnone, by simp [huser, hkept]⟩

/-- **Saved profiles are those of the saved events.** -/
lemma Pending.saveChanges [DecidableEq D] (h : Pending changes) (hstore : ProfilesMatch store)
    (ambiguityMap : List (D × Finset U)) :
    ProfilesMatch (store.saveChanges { changes with ambiguityMap }) := by
  have hmember : ∀ user, (store.saveChanges { changes with ambiguityMap }).getMemberEvent user =
      (changes.member user).or (store.getMemberEvent user) := getMemberEvent_saveChanges h.state
  have hprofile : ∀ user, (store.saveChanges { changes with ambiguityMap }).getProfile user =
      (get changes.profiles user).or (if user ∉ changes.profilesToDelete then store.getProfile user else none) :=
    fun user => by
      refine (get_insertAll _ h.profiles user).trans ?_
      rw [get_filter store.profiles (· ∉ changes.profilesToDelete) user]
      rfl
  constructor
  · intro user event hevent
    rw [hmember] at hevent
    cases hpending : changes.member user with
    | none =>
      rw [hpending, none_or] at hevent
      exact hstore.key hevent
    | some e =>
      rw [hpending, some_or] at hevent
      obtain rfl := Option.some.inj hevent
      exact h.key hpending
  · intro user event name hevent hactive hname
    rw [hmember] at hevent
    rw [hprofile] at hname
    cases hpending : changes.member user with
    | none =>
      obtain ⟨hnone, hkept⟩ := h.untouched hpending
      rw [hpending, none_or] at hevent
      rw [hnone, none_or, if_pos hkept] at hname
      exact hstore.profile hevent hactive hname
    | some e =>
      rw [hpending, some_or] at hevent
      obtain rfl := Option.some.inj hevent
      refine h.profile hpending hactive ?_
      rcases h.kept hpending hactive with hsome | hdelete
      · obtain ⟨profile, hprofile⟩ := isSome_iff_exists.1 hsome
        rwa [hprofile] at hname ⊢
      · rw [if_neg (not_not.2 hdelete), or_none] at hname
        exact hname

end Profiles

/-! ## Syncs -/

variable [DecidableEq D]

section Sync

/-- The users of a name during a sync. -/
def recorded (store : MemoryStore U N D) (context : SyncContext U N D) (d : D) : Finset U :=
  (get context.ambiguityCache.cache d).getD (store.getUsersWithDisplayName d)

/-- The current event of a user during a sync. -/
def current (store : MemoryStore U N D) (context : SyncContext U N D) (user : U) :
    Option (RoomMemberEvent U N) :=
  (context.stateChanges.member user).or (store.getMemberEvent user)

/-- **When an event finds the old name of its member**: if an earlier event of the sync left the
member active, but the profile has no display name now, then the stored profile has none either, or
it has the same name. And an event that is handled again is still the last one of its member. -/
structure FindsName (store : MemoryStore U N D) (context : SyncContext U N D)
    (event : RoomMemberEvent U N) : Prop where
  profile : ∀ {oldEvent name}, context.stateChanges.member event.stateKey = some oldEvent →
    isMemberActive oldEvent.membership → (get context.stateChanges.profiles event.stateKey).join = none →
    (store.getProfile event.stateKey).join = some name → names.displayName name = nameOf names oldEvent
  handled : (get context.ambiguityCache.changes event.eventId).isSome →
    context.stateChanges.member event.stateKey = some event

/-- The users of the names are the current members. -/
structure Agrees (store : MemoryStore U N D) (context : SyncContext U N D) : Prop where
  pending : Pending context.stateChanges
  cache : (context.ambiguityCache.cache.map Prod.fst).Nodup
  names : ∀ d user, user ∈ recorded store context d ↔ activeName names (current store context user) = some d

variable {names} {store : MemoryStore U N D} {context : SyncContext U N D} {event : RoomMemberEvent U N}

/-- **The old name is found.** -/
lemma Agrees.getOldDisplayName (h : Agrees names store context) (hstore : ProfilesMatch store)
    (hevent : FindsName names store context event) :
    (getOldDisplayName names store context.stateChanges event).map names.displayName =
      activeName names (current store context event.stateKey) := by
  unfold AmbiguityCache.getOldDisplayName activeName current
  dsimp only
  cases hold : (context.stateChanges.member event.stateKey).or (store.getMemberEvent event.stateKey) with
  | none => rfl
  | some old =>
    dsimp only [bind_some]
    split
    · next hactive =>
      rw [map_some, some_inj, nameOf, rawName]
      cases hmember : context.stateChanges.member event.stateKey with
      | none =>
        rw [hmember, none_or] at hold
        rw [(h.pending.untouched hmember).1, hstore.key hold]
        cases hprofile : (store.getProfile event.stateKey).join with
        | none => simp
        | some name => simp [hstore.profile hold hactive hprofile]
      | some e =>
        rw [hmember, some_or] at hold
        obtain rfl := Option.some.inj hold
        rw [h.pending.key hmember]
        cases hpending : (get context.stateChanges.profiles event.stateKey).join with
        | some name => simp [h.pending.profile hmember hactive hpending]
        | none =>
          cases hprofile : (store.getProfile event.stateKey).join with
          | none => simp
          | some name =>
            have hname := hevent.profile hmember hactive hpending hprofile
            rw [nameOf, rawName, h.pending.key hmember] at hname
            simpa using hname
    · rfl

lemma first_eq_some_iff (users : Finset U) (user : U) :
    (if users.card = 1 then first users else none) = some user ↔ users = {user} := by
  by_cases hcard : users.card = 1
  · obtain ⟨a, rfl⟩ := card_eq_one.1 hcard
    rw [if_pos hcard, first_singleton, singleton_inj, some_inj]
  · rw [if_neg hcard]
    refine iff_of_false (by simp) ?_
    rintro rfl
    exact hcard (card_singleton user)

/-- The name of the event, if its member is active. -/
def newName (names : Naming U N D) (event : RoomMemberEvent U N) : Option N :=
  if isMemberActive event.membership then some (rawName names event) else none

omit [LinearOrder U] [DecidableEq D] in
lemma map_newName (names : Naming U N D) (event : RoomMemberEvent U N) :
    (newName names event).map names.displayName = activeName names (some event) := by
  unfold newName activeName
  rw [bind_some]
  split <;> rfl

lemma calculateChanges_eq (hself : event.sender = event.stateKey) :
    context.ambiguityCache.calculateChanges names store context.stateChanges event =
      ((getOldDisplayName names store context.stateChanges event).map
          fun name => ⟨name, recorded store context (names.displayName name)⟩,
        (newName names event).map fun name => ⟨name, recorded store context (names.displayName name)⟩) := by
  simp only [calculateChanges, hself, if_true, newName]
  split <;> rfl

omit [LinearOrder U] in
lemma get_update (cache : List (D × Finset U)) (m : Option (DisplayNameUsers U N)) (d : D) :
    get (update names cache m) d =
    if m.map (fun m => names.displayName m.displayName) = some d then m.map (·.users) else get cache d := by
  cases m with
  | none => rfl
  | some m => simp [update, get_insert, eq_comm]

/-- The change that an event makes, given the old and the new name. -/
def changeOf (names : Naming U N D) (users : D → Finset U) (user : U) (old new : Option N) :
    AmbiguityChange U where
  memberId := user
  memberAmbiguous := new.any fun name =>
    names.isInherentlyAmbiguous name || decide (1 < (insert user (users (names.displayName name))).card)
  disambiguatedMember := old.bind fun name =>
    if ((users (names.displayName name)).erase user).card = 1 then first ((users (names.displayName name)).erase user)
    else none
  ambiguatedMember := new.bind fun name =>
    if (users (names.displayName name)).card = 1 then first (users (names.displayName name)) else none

variable {old : Option N}

section

variable (hold : getOldDisplayName names store context.stateChanges event = old)
include hold

/-- **What a new name does** to the users of the names, and the change that is reported. -/
lemma handleEvent_changed
    (hself : event.sender = event.stateKey)
    (hhandled : get context.ambiguityCache.changes event.eventId = none)
    (hdiffer : ∀ d, old.map names.displayName = some d → activeName names (some event) ≠ some d) :
    (dispatch names store context event).ambiguityCache.changes =
        IndexMap.insert context.ambiguityCache.changes event.eventId
          (changeOf names (recorded store context) event.stateKey old (newName names event)) ∧
      ∀ d, recorded store (dispatch names store context event) d =
        if activeName names (some event) = some d then insert event.stateKey (recorded store context d)
        else if old.map names.displayName = some d then (recorded store context d).erase event.stateKey
        else recorded store context d := by
  rw [← map_newName] at hdiffer ⊢
  have hcalculate : context.ambiguityCache.calculateChanges names store context.stateChanges event = _ :=
    calculateChanges_eq hself
  rw [hold] at hcalculate
  have hhandle : (dispatch names store context event).ambiguityCache =
      context.ambiguityCache.applyChange names event
        (old.map fun name => ⟨name, recorded store context (names.displayName name)⟩)
        ((newName names event).map fun name => ⟨name, recorded store context (names.displayName name)⟩) := by
    simp only [dispatch, handleEvent, hhandled, isSome_none, hcalculate, Bool.false_eq_true, if_false]
    refine if_neg ?_
    cases old with
    | none => exact Bool.false_ne_true
    | some a =>
      cases hnew : newName names event with
      | none => exact Bool.false_ne_true
      | some b =>
        rw [hnew] at hdiffer
        simpa [displayNamesSame, eq_comm] using hdiffer (names.displayName a) rfl
  refine ⟨?_, fun d => ?_⟩
  · rw [hhandle]
    cases old <;> cases newName names event <;> rfl
  · rw [recorded, hhandle, applyChange]
    simp only [get_update]
    by_cases hb : (newName names event).map names.displayName = some d
    · obtain ⟨b, hnew, rfl⟩ := map_eq_some_iff.1 hb
      simp [hnew, add]
    · by_cases ha : old.map names.displayName = some d
      · obtain ⟨a, rfl, rfl⟩ := map_eq_some_iff.1 ha
        simp [hb, add, remove, Function.comp_def]
      · simp [ha, hb, add, remove, Function.comp_def, recorded]

lemma handleEvent_unchanged
    (hself : event.sender = event.stateKey)
    (h : (get context.ambiguityCache.changes event.eventId).isSome ∨
      ∃ d, old.map names.displayName = some d ∧ activeName names (some event) = some d) :
    (dispatch names store context event).ambiguityCache = context.ambiguityCache := by
  simp only [dispatch, handleEvent]
  split
  · rfl
  · next hhandled =>
    obtain ⟨d, hd, hnew⟩ := h.resolve_left hhandled
    rw [← map_newName] at hnew
    obtain ⟨a, rfl, ha⟩ := map_eq_some_iff.1 hd
    obtain ⟨b, hb, hbd⟩ := map_eq_some_iff.1 hnew
    rw [calculateChanges_eq hself, hold, hb, if_pos]
    simp [displayNamesSame, ha, hbd]

end

lemma nodup_cache_dispatch (h : (context.ambiguityCache.cache.map Prod.fst).Nodup) :
    ((dispatch names store context event).ambiguityCache.cache.map Prod.fst).Nodup := by
  have hupdate : ∀ {cache : List (D × Finset U)} (m : Option (DisplayNameUsers U N)), (cache.map Prod.fst).Nodup →
      ((update names cache m).map Prod.fst).Nodup := by
    intro cache m hcache
    cases m with
    | none => exact hcache
    | some m => exact nodup_insert hcache _ _
  simp only [dispatch, handleEvent]
  split
  · exact h
  · split
    · exact h
    · exact hupdate _ (hupdate _ h)

lemma current_dispatch (user : U) : current store (dispatch names store context event) user =
    if user = event.stateKey then some event else current store context user := by
  have hmember : (dispatch names store context event).stateChanges.member user = _ := member_addMember user
  rw [current, hmember]
  split <;> rfl

section Agrees

variable (h : Agrees names store context) (hstore : ProfilesMatch store)
    (hself : event.sender = event.stateKey) (hevent : FindsName names store context event)
include h hstore hself hevent

/-- **An event keeps the users of the names up to date.** -/
lemma Agrees.step : Agrees names store (dispatch names store context event) := by
  refine ⟨h.pending.addMember hself, nodup_cache_dispatch h.cache, fun d user => ?_⟩
  have hold := h.getOldDisplayName hstore hevent
  rw [current_dispatch]
  by_cases hunchanged : (get context.ambiguityCache.changes event.eventId).isSome ∨
      ∃ d, activeName names (current store context event.stateKey) = some d ∧
        activeName names (some event) = some d
  · -- The current event of the member has the name already.
    have hsame : activeName names (some event) = activeName names (current store context event.stateKey) := by
      rcases hunchanged with hhandled | ⟨d, hd, hnew⟩
      · rw [current, hevent.handled hhandled, some_or]
      · rw [hd, hnew]
    rw [recorded, handleEvent_unchanged rfl hself (by rwa [hold])]
    refine (h.names d user).trans ?_
    split
    · next huser => rw [huser, hsame]
    · rfl
  · push Not at hunchanged
    obtain ⟨hhandled, hdiffer⟩ := hunchanged
    rw [(handleEvent_changed rfl hself (by simpa using hhandled) (by rwa [hold])).2 d, hold]
    by_cases huser : user = event.stateKey
    · subst huser
      rw [if_pos rfl]
      split
      · next hnew => simp [hnew]
      · next hnew =>
        refine iff_of_false ?_ hnew
        split
        · exact notMem_erase _ _
        · next hcurrent => exact fun hmem => hcurrent ((h.names d _).1 hmem)
    · rw [if_neg huser, ← h.names d user]
      split
      · exact mem_insert.trans (or_iff_right huser)
      · split
        · exact mem_erase.trans (and_iff_right huser)
        · rfl

/-- **The change of an event is what the users of the names say.** -/
lemma Agrees.fits {change : AmbiguityChange U}
    (hhandled : get context.ambiguityCache.changes event.eventId = none)
    (hchange : get (dispatch names store context event).ambiguityCache.changes event.eventId = some change) :
    Fits names event (recorded store context)
    (recorded store (dispatch names store context event)) change := by
  have hold := h.getOldDisplayName hstore hevent
  have hafter := (h.step hstore hself hevent).names
  have hdiffer : ∀ d, activeName names (current store context event.stateKey) = some d →
      activeName names (some event) ≠ some d := by
    intro d hd hnew
    rw [handleEvent_unchanged rfl hself (.inr ⟨d, by rw [hold, hd], hnew⟩), hhandled] at hchange
    cases hchange
  obtain ⟨hchanges, hrecorded⟩ := handleEvent_changed rfl hself hhandled (by rwa [hold])
  rw [hchanges, get_insert_self] at hchange
  obtain rfl := Option.some.inj hchange
  rw [hold] at hrecorded
  refine ⟨rfl, ?_, fun user => ?_, fun user => ?_⟩
  · rw [hafter, current_dispatch, if_pos rfl]
    by_cases hactive : isMemberActive event.membership = true
    · have hname : activeName names (some event) = some (nameOf names event) := by simp [activeName, hactive]
      simp [changeOf, newName, hactive, hname, hrecorded, nameOf]
    · simp [changeOf, newName, hactive, activeName]
  · simp only [changeOf, bind_eq_some_iff, first_eq_some_iff]
    constructor
    · rintro ⟨a, ha, herase⟩
      have hname : activeName names (current store context event.stateKey) = some (names.displayName a) := by
        rw [← hold, ha, map_some]
      have hmem : user ∈ (recorded store context (names.displayName a)).erase event.stateKey := by
        simp [herase]
      have hcard := card_erase_add_one ((h.names _ _).2 hname)
      rw [herase, card_singleton] at hcard
      refine ⟨ne_of_mem_erase hmem, _, mem_of_mem_erase hmem, by omega, ?_⟩
      rw [hrecorded, if_neg (hdiffer _ hname), if_pos hname, herase]
    · rintro ⟨hne, d, hmem, hcard, hsingle⟩
      rw [hrecorded] at hsingle
      split at hsingle
      · have hself : event.stateKey ∈ ({user} : Finset U) := hsingle ▸ mem_insert_self _ _
        exact (hne (mem_singleton.1 hself).symm).elim
      · split at hsingle
        · next hname =>
          obtain ⟨a, ha, rfl⟩ := map_eq_some_iff.1 (hold.trans hname)
          exact ⟨a, ha, hsingle⟩
        · rw [hsingle, card_singleton] at hcard
          omega
  · simp only [changeOf, bind_eq_some_iff, first_eq_some_iff]
    constructor
    · rintro ⟨b, hb, hsingle⟩
      have hname : activeName names (some event) = some (names.displayName b) := by
        rw [← map_newName, hb, map_some]
      have hnot : event.stateKey ∉ recorded store context (names.displayName b) := fun hmem =>
        hdiffer _ ((h.names _ _).1 hmem) hname
      have hne : user ≠ event.stateKey := by
        rintro rfl
        exact hnot (by simp [hsingle])
      refine ⟨hne, _, hsingle, ?_, ?_⟩ <;> rw [hrecorded, if_pos hname]
      · simp [hsingle]
      · rw [card_insert_of_notMem hnot, hsingle, card_singleton]
        omega
    · rintro ⟨hne, d, hsingle, hmem, hcard⟩
      rw [hrecorded, hsingle] at hcard
      split at hcard
      · next hname =>
        rw [← map_newName] at hname
        obtain ⟨b, hb, rfl⟩ := map_eq_some_iff.1 hname
        exact ⟨b, hb, hsingle⟩
      · have hle : (if activeName names (current store context event.stateKey) = some d then
            ({user} : Finset U).erase event.stateKey else {user}).card ≤ ({user} : Finset U).card := by
          split
          · exact card_erase_le
          · exact le_rfl
        rw [card_singleton] at hle
        omega

end Agrees

/-- **A change was there before the event, or it is the one of the event.** -/
lemma changes_dispatch {id : ℕ} {change : AmbiguityChange U}
    (h : get (dispatch names store context event).ambiguityCache.changes id = some change) :
    get context.ambiguityCache.changes id = some change ∨
      id = event.eventId ∧ get context.ambiguityCache.changes event.eventId = none := by
  simp only [dispatch, handleEvent] at h
  split at h
  · exact .inl h
  · next hhandled =>
    split at h
    · exact .inl h
    · by_cases hid : id = event.eventId
      · exact .inr ⟨hid, by simpa using hhandled⟩
      · exact .inl ((get_insert_ne _ _ hid).symm.trans h)

end Sync

/-! ## The store between syncs -/

section Store

/-- Every event of the sync finds the old name of its member. -/
def SyncPlain (store : MemoryStore U N D) (events : List (RoomMemberEvent U N)) : Prop :=
  ∀ xs event ys, events = xs ++ event :: ys → FindsName names store (dispatchAll names store xs) event

structure Settled (store : MemoryStore U N D) : Prop where
  profiles : ProfilesMatch store
  names : NamesMatch names store

variable {names} {store : MemoryStore U N D} {events : List (RoomMemberEvent U N)} {id : ℕ}

lemma dispatchAll_concat (names : Naming U N D) (store : MemoryStore U N D) (xs : List (RoomMemberEvent U N))
    (event : RoomMemberEvent U N) :
    dispatchAll names store (xs ++ [event]) = dispatch names store (dispatchAll names store xs) event := by
  rw [dispatchAll, List.foldl_append]
  rfl

lemma SyncPlain.concat {xs : List (RoomMemberEvent U N)} {event : RoomMemberEvent U N}
    (h : SyncPlain names store (xs ++ [event])) :
    SyncPlain names store xs ∧ FindsName names store (dispatchAll names store xs) event := by
  refine ⟨?_, h xs event [] rfl⟩
  rintro ys e zs rfl
  exact h ys e (zs ++ [event]) (by simp)

lemma exists_of_changes {change : AmbiguityChange U}
    (hchange : get (dispatchAll names store events).ambiguityCache.changes id = some change) :
    ∃ event ∈ events, event.eventId = id := by
  induction events using List.reverseRecOn with
  | nil => cases hchange
  | append_singleton xs event ih =>
    rw [dispatchAll_concat] at hchange
    rcases changes_dispatch hchange with hget | ⟨rfl, -⟩
    · obtain ⟨e, he, hid⟩ := ih hget
      exact ⟨e, by simp [he], hid⟩
    · exact ⟨event, by simp, rfl⟩

lemma syncPlain_of_nodup (hstore : ∀ user, store.getProfile user = none)
    (hnodup : (events.map RoomMemberEvent.eventId).Nodup) :
    SyncPlain names store events := by
  rintro xs event ys rfl
  refine ⟨fun _ _ _ hprofile => ?_, fun hhandled => ?_⟩
  · rw [hstore] at hprofile
    cases hprofile
  · obtain ⟨_, hchange⟩ := Option.isSome_iff_exists.1 hhandled
    obtain ⟨e, he, hid⟩ := exists_of_changes hchange
    rw [List.map_append, List.nodup_append] at hnodup
    exact (hnodup.2.2 _ (List.mem_map_of_mem he) event.eventId (by simp) hid).elim

section Settled

variable (h : Settled names store) (hself : ∀ event ∈ events, event.sender = event.stateKey)
  (hplain : SyncPlain names store events)
include h hself hplain

/-- **The names during a sync.** -/
lemma Settled.agrees : Agrees names store (dispatchAll names store events) := by
  induction events using List.reverseRecOn with
  | nil => exact ⟨pending_nil, List.nodup_nil, h.names⟩
  | append_singleton xs event ih =>
    obtain ⟨hxs, hevent⟩ := hplain.concat
    rw [dispatchAll_concat]
    exact (ih (fun e he => hself e (by simp [he])) hxs).step h.profiles (hself event (by simp)) hevent

/-- **The changes of a sync.** -/
lemma Settled.changes {change : AmbiguityChange U}
    (hchange : get (dispatchAll names store events).ambiguityCache.changes id = some change) :
    ∃ xs event ys, events = xs ++ event :: ys ∧ event.eventId = id ∧
      Fits names event (recorded store (dispatchAll names store xs))
        (recorded store (dispatchAll names store (xs ++ [event]))) change := by
  induction events using List.reverseRecOn with
  | nil => cases hchange
  | append_singleton xs event ih =>
    obtain ⟨hxs, hevent⟩ := hplain.concat
    have hself' : ∀ e ∈ xs, e.sender = e.stateKey := fun e he => hself e (by simp [he])
    rw [dispatchAll_concat] at hchange
    rcases changes_dispatch hchange with hget | ⟨rfl, hnone⟩
    · obtain ⟨xs', e, ys, rfl, hid, hfits⟩ := ih hself' hxs hget
      exact ⟨xs', e, ys ++ [event], by simp, hid, hfits⟩
    · refine ⟨xs, event, [], rfl, rfl, ?_⟩
      rw [dispatchAll_concat]
      exact (h.agrees hself' hxs).fits h.profiles (hself event (by simp)) hevent hnone hchange

/-- **A sync is saved.** -/
lemma Settled.receiveSync (summary : RumaSummary) :
    Settled names (receiveSync names store events summary) := by
  have hagrees := h.agrees hself hplain
  have hprofiles := hagrees.pending.saveChanges h.profiles (dispatchAll names store events).ambiguityCache.cache
  refine ⟨⟨hprofiles.key, hprofiles.profile⟩, fun d user => ?_⟩
  have husers : (Base.receiveSync names store events summary).getUsersWithDisplayName d =
      recorded store (dispatchAll names store events) d := by
    have hget : get (Base.receiveSync names store events summary).displayNames d =
        (get (dispatchAll names store events).ambiguityCache.cache d).or (get store.displayNames d) :=
      get_insertAll _ hagrees.cache d
    rw [MemoryStore.getUsersWithDisplayName, hget, recorded, MemoryStore.getUsersWithDisplayName]
    cases get (dispatchAll names store events).ambiguityCache.cache d <;> rfl
  have hcurrent : (Base.receiveSync names store events summary).getMemberEvent user =
      current store (dispatchAll names store events) user :=
        getMemberEvent_saveChanges hagrees.pending.state user
  rw [husers, hcurrent]
  exact hagrees.names d user

end Settled

end Store

/-! ## Member lists -/

section Lists

/-- The event gives an active member a display name. -/
def SetsName (event : RoomMemberEvent U N) (d : D) : Prop :=
  isMemberActive event.membership = true ∧ event.displayname.map names.displayName = some d

instance (event : RoomMemberEvent U N) (d : D) : Decidable (SetsName names event d) :=
  inferInstanceAs (Decidable (_ ∧ _))

/-- A complete list of the members, who have sent the events themselves. -/
structure CompleteList (store : MemoryStore U N D) (chunk : List (RoomMemberEvent U N)) : Prop where
  nodup : (chunk.map RoomMemberEvent.stateKey).Nodup
  self : ∀ event ∈ chunk, event.sender = event.stateKey
  listed : ∀ user, (store.getMemberEvent user).isSome → user ∈ chunk.map RoomMemberEvent.stateKey

/-- **When a list leaves the right names behind**: the localpart of an active member without a
display name is not a display name in the list; and the active members with a name that is not a
display name in the list are the same as before. -/
structure ListPlain (store : MemoryStore U N D) (chunk : List (RoomMemberEvent U N)) : Prop where
  localparts : ∀ event ∈ chunk, isMemberActive event.membership = true → event.displayname = none →
    ∀ event' ∈ chunk, ¬ SetsName names event' (nameOf names event)
  others : ∀ d, (∀ event ∈ chunk, ¬ SetsName names event d) →
    ∀ user, activeName names (store.getMemberEvent user) = some d ↔
      activeName names (latest chunk user) = some d

variable {names} {store : MemoryStore U N D} {chunk : List (RoomMemberEvent U N)}
  {event : RoomMemberEvent U N} {d : D}

omit [LinearOrder U] [DecidableEq D] in
lemma activeName_eq_some_iff : activeName names (some event) = some d ↔
    SetsName names event d ∨
      isMemberActive event.membership = true ∧ event.displayname = none ∧ nameOf names event = d := by
  unfold activeName SetsName
  cases hname : event.displayname <;> simp [nameOf, rawName, hname]

namespace MemberList

variable (l : MemberList U N D)

lemma get_addName (event : RoomMemberEvent U N) (d : D) :
    get (l.addName names event).ambiguityMap d =
      if SetsName names event d then some (insert event.stateKey ((get l.ambiguityMap d).getD ∅))
      else get l.ambiguityMap d := by
  cases hname : event.displayname with
  | none => simp [addName, SetsName, hname]
  | some name =>
    by_cases hactive : isMemberActive event.membership = true
    · by_cases hd : names.displayName name = d
      · simp [addName, SetsName, hname, hactive, hd]
      · simp [addName, SetsName, hname, hactive, hd, get_insert_ne _ _ (Ne.symm hd)]
    · simp [addName, SetsName, hname, hactive]

lemma nodup_addName {l : MemberList U N D} (h : (l.ambiguityMap.map Prod.fst).Nodup) :
    ((l.addName names event).ambiguityMap.map Prod.fst).Nodup := by
  unfold addName
  cases event.displayname with
  | none => exact h
  | some name =>
    dsimp only
    split
    · exact nodup_insert h _ _
    · exact h

omit [LinearOrder U] [DecidableEq D] in
@[simp] lemma ambiguityMap_count (m : MembershipState) : (l.count m).ambiguityMap = l.ambiguityMap := by
  cases m <;> rfl

/-! When no request is in flight, no member is left alone. -/

lemma stateChanges_addMember (event : RoomMemberEvent U N) :
    (l.addMember names {} event).stateChanges = l.stateChanges.addMember event := by
  rw [addMember, if_neg (by simp)]
  simp [StateChanges.addMember]

lemma ambiguityMap_addMember (event : RoomMemberEvent U N) :
    (l.addMember names {} event).ambiguityMap =
      ((l.count event.membership).addName names event).ambiguityMap := by
  rw [addMember, if_neg (by simp)]

lemma foldl_addMember {l : MemberList U N D} (hpending : Pending l.stateChanges)
    (hnodup : (l.ambiguityMap.map Prod.fst).Nodup) (hself : ∀ event ∈ chunk, event.sender = event.stateKey) :
    let l' := chunk.foldl (addMember names {}) l
    Pending l'.stateChanges ∧ (l'.ambiguityMap.map Prod.fst).Nodup ∧
      (∀ d, (get l'.ambiguityMap d).isSome ↔ (get l.ambiguityMap d).isSome ∨
        ∃ event ∈ chunk, SetsName names event d) ∧
      ∀ d user, user ∈ (get l'.ambiguityMap d).getD ∅ ↔
        user ∈ (get l.ambiguityMap d).getD ∅ ∨ ∃ event ∈ chunk, event.stateKey = user ∧
          SetsName names event d := by
  induction chunk generalizing l with
  | nil => simpa using ⟨hpending, hnodup⟩
  | cons event chunk ih =>
    have hpending' : Pending (l.addMember names {} event).stateChanges := by
      rw [stateChanges_addMember]
      exact hpending.addMember (hself event (by simp))
    have hnodup' : ((l.addMember names {} event).ambiguityMap.map Prod.fst).Nodup := by
      exact nodup_addName (by simpa using hnodup)
    have hget : ∀ d, get (l.addMember names {} event).ambiguityMap d = if SetsName names event d then _ else _ := fun d => by
      rw [ambiguityMap_addMember, get_addName, ambiguityMap_count]
    obtain ⟨hstate, hmap, hsome, hmem⟩ := ih hpending' hnodup' fun e he => hself e (by simp [he])
    refine ⟨hstate, hmap, fun d => (hsome d).trans ?_, fun d user => (hmem d user).trans ?_⟩ <;>
      rw [hget] <;> by_cases hset : SetsName names event d
    · simp [hset]
    · simp [hset]
    · simp only [hset, if_true, Option.getD_some, Finset.mem_insert, List.mem_cons,
        exists_eq_or_imp, and_true]
      tauto
    · simp [hset]

lemma ofResponse_eq (names : Naming U N D) (store : MemoryStore U N D) (chunk : List (RoomMemberEvent U N)) :
    ofResponse names {} store chunk = chunk.foldl (addMember names {}) {} := by
  have hnone : (chunk.foldl (addMember names {}) {}).outdatedMembers = [] := by
    rw [outdatedMembers_foldl_addMember]
    simp
  rw [ofResponse, hnone]
  rfl

end MemberList

lemma getUsersWithDisplayName_saveMembers (h : CompleteList store chunk) (d : D) (user : U) :
    user ∈ (saveMembers names {} store chunk).getUsersWithDisplayName d ↔
      (∃ event ∈ chunk, event.stateKey = user ∧ SetsName names event d) ∨
        (∀ event ∈ chunk, ¬ SetsName names event d) ∧ user ∈ store.getUsersWithDisplayName d := by
  obtain ⟨-, hnodup, hsome, hmem⟩ :=
    @MemberList.foldl_addMember U N D _ names _ chunk {} pending_nil List.nodup_nil h.self
  rw [← MemberList.ofResponse_eq names store] at hnodup hsome hmem
  set map := (MemberList.ofResponse names {} store chunk).ambiguityMap with hmap
  have hget : get (saveMembers names {} store chunk).displayNames d =
    (get map d).or (get store.displayNames d) :=
    get_insertAll _ hnodup d
  have hd := hsome d
  have hduser := hmem d user
  rw [MemoryStore.getUsersWithDisplayName, hget]
  cases hentry : get map d with
  | none =>
    have hnone : ∀ event ∈ chunk, ¬ SetsName names event d := fun event hevent hset => by
      rw [hentry] at hd
      simpa [IndexMap.get] using hd.2 (.inr ⟨event, hevent, hset⟩)
    refine ⟨fun huser => .inr ⟨hnone, huser⟩, fun huser => ?_⟩
    rcases huser with ⟨event, hevent, -, hset⟩ | ⟨-, huser⟩
    · exact (hnone event hevent hset).elim
    · exact huser
  | some users =>
    rw [hentry] at hd hduser
    have hset : ∃ event ∈ chunk, SetsName names event d := by simpa [IndexMap.get] using hd
    obtain ⟨event, hevent, hset⟩ := hset
    have hiff : user ∈ users ↔ ∃ event ∈ chunk, event.stateKey = user ∧ SetsName names event d := by
      simpa [IndexMap.get] using hduser
    exact hiff.trans (or_iff_left fun hnone => hnone.1 event hevent hset).symm

lemma CompleteList.getMemberEvent (h : CompleteList store chunk) (user : U) :
    (saveMembers names {} store chunk).getMemberEvent user = latest chunk user := by
  rw [getMemberEvent_saveMembers, if_neg (by simp)]
  cases hlatest : latest chunk user with
  | some event => rfl
  | none =>
    rw [none_or, ← not_isSome_iff_eq_none]
    intro hsome
    obtain ⟨event, hevent, hkey⟩ := List.mem_map.1 (h.listed user hsome)
    exact latest_eq_none.1 hlatest event hevent hkey

/-- **The names after a complete list.** -/
lemma Settled.namesMatch_saveMembers_iff (h : Settled names store) (hchunk : CompleteList store chunk) :
    NamesMatch names (saveMembers names {} store chunk) ↔ ListPlain names store chunk := by
  have hevent : ∀ event ∈ chunk, ∀ {d}, activeName names (latest chunk event.stateKey) = some d ↔
      activeName names (some event) = some d := fun event hevent d => by rw [latest_of_nodup hchunk.nodup hevent]
  simp only [NamesMatch, getUsersWithDisplayName_saveMembers hchunk, hchunk.getMemberEvent]
  constructor
  · intro hmatch
    refine ⟨fun event hmem hactive hnone event' hmem' hset => ?_, fun d hnone user => ?_⟩
    · -- The member is missing from the users of its localpart, which is the display name of another one.
      have hname := (hmatch (nameOf names event) event.stateKey).2
        ((hevent event hmem).2 (activeName_eq_some_iff.2 (.inr ⟨hactive, hnone, rfl⟩)))
      rcases hname with ⟨e, he, hkey, hsets⟩ | ⟨hnot, -⟩
      · rw [List.inj_on_of_nodup_map hchunk.nodup he hmem hkey, SetsName, hnone] at hsets
        cases hsets.2
      · exact hnot event' hmem' hset
    · rw [← hmatch d user, ← h.names d user]
      refine ⟨fun huser => .inr ⟨hnone, huser⟩, fun huser => ?_⟩
      rcases huser with ⟨e, he, -, hsets⟩ | ⟨-, huser⟩
      · exact (hnone e he hsets).elim
      · exact huser
  · intro hplain d user
    by_cases hset : ∃ event ∈ chunk, SetsName names event d
    · obtain ⟨event', hmem', hset⟩ := hset
      constructor
      · rintro (⟨event, hmem, rfl, hsets⟩ | ⟨hnot, -⟩)
        · exact (hevent event hmem).2 (activeName_eq_some_iff.2 (.inl hsets))
        · exact (hnot event' hmem' hset).elim
      · intro hname
        cases hlatest : latest chunk user with
        | none =>
          rw [hlatest] at hname
          cases hname
        | some event =>
          obtain ⟨hmem, hkey⟩ := stateKey_of_latest hlatest
          rw [hlatest] at hname
          rcases activeName_eq_some_iff.1 hname with hsets | ⟨hactive, hnone, rfl⟩
          · exact .inl ⟨event, hmem, hkey, hsets⟩
          · exact (hplain.localparts event hmem hactive hnone event' hmem' hset).elim
    · push Not at hset
      rw [← hplain.others d hset user, ← h.names d user]
      constructor
      · rintro (⟨e, he, -, hsets⟩ | ⟨-, huser⟩)
        · exact (hset e he hsets).elim
        · exact huser
      · exact fun huser => .inr ⟨hset, huser⟩

lemma Settled.saveMembers (h : Settled names store) (hchunk : CompleteList store chunk)
    (hplain : ListPlain names store chunk) : Settled names (saveMembers names {} store chunk) := by
  obtain ⟨hpending, -⟩ := @MemberList.foldl_addMember U N D _ names _ chunk {} pending_nil List.nodup_nil hchunk.self
  rw [← MemberList.ofResponse_eq names store] at hpending
  have hprofiles := hpending.saveChanges h.profiles (MemberList.ofResponse names {} store chunk).ambiguityMap
  exact ⟨⟨hprofiles.key, hprofiles.profile⟩, (h.namesMatch_saveMembers_iff hchunk).2 hplain⟩

end Lists

/-! ## Runs -/

/-- The stores after syncs and complete lists. -/
inductive Reached : MemoryStore U N D → Prop
  | init : Reached {}
  | sync {store : MemoryStore U N D} {events : List (RoomMemberEvent U N)} (summary : RumaSummary) :
      Reached store → (∀ event ∈ events, event.sender = event.stateKey) → SyncPlain names store events →
      Reached (receiveSync names store events summary)
  | members {store store' : MemoryStore U N D} {chunk : List (RoomMemberEvent U N)} :
      Reached store → CompleteList store chunk → ListPlain names store chunk →
      receiveAllMembers names {} store {} chunk = .ok store' → Reached store'

section Run

variable {names} {store : MemoryStore U N D}

lemma Reached.settled (h : Reached names store) : Settled names store := by
  induction h with
  | init =>
    refine ⟨⟨(nomatch ·), (nomatch ·)⟩, fun d user => ?_⟩
    simp [MemoryStore.getUsersWithDisplayName, MemoryStore.getMemberEvent, IndexMap.get, activeName]
  | sync summary _ hself hplain ih => exact ih.receiveSync hself hplain summary
  | members _ hchunk hplain hstore ih =>
    obtain rfl : saveMembers names {} _ _ = _ := by simpa [receiveAllMembers] using hstore
    exact ih.saveMembers hchunk hplain

/-- **The users of the display names are the active members that have them**, after any syncs and
complete lists, and the ambiguity changes of a sync are what these users say. A complete list leaves
the right users behind only if it is plain. -/
theorem displayNames_match (h : Reached names store) :
    NamesMatch names store ∧
      (∀ events, (∀ event ∈ events, event.sender = event.stateKey) → SyncPlain names store events →
        ∀ id change, get (dispatchAll names store events).ambiguityCache.changes id = some change →
        ∃ xs event ys, events = xs ++ event :: ys ∧ event.eventId = id ∧
          Fits names event (recorded store (dispatchAll names store xs))
            (recorded store (dispatchAll names store (xs ++ [event]))) change) ∧
      ∀ chunk, CompleteList store chunk → ∃ store', receiveAllMembers names {} store {} chunk = .ok store' ∧
        (NamesMatch names store' ↔ ListPlain names store chunk) := by
  refine ⟨h.settled.names, fun events hself hplain id change => h.settled.changes hself hplain,
    fun chunk hchunk => ?_⟩
  exact ⟨_, by simp [receiveAllMembers], h.settled.namesMatch_saveMembers_iff hchunk⟩

end Run

/-! ## Alice and Bob -/

section AliceAndBob

/-- Alice has the display name 5. -/
def aliceStore : MemoryStore ℕ ℕ ℕ := receiveSync numberNames {} [⟨0, 0, 0, .join, some 5⟩] {}

/-- Bob has no display name, and Alice has the localpart of Bob as a display name. -/
def aliceAsBob : List (RoomMemberEvent ℕ ℕ) := [⟨0, 1, 1, .join, none⟩, ⟨1, 0, 0, .join, some 1⟩]

def aliceAsBobStore : MemoryStore ℕ ℕ ℕ := receiveSync numberNames {} aliceAsBob {}

lemma aliceStore_reached : Reached numberNames aliceStore :=
  .sync {} .init (by simp) (syncPlain_of_nodup (fun _ => rfl) (by simp))

lemma aliceAsBobStore_reached : Reached numberNames aliceAsBobStore :=
  .sync {} .init (by simp [aliceAsBob]) (syncPlain_of_nodup (fun _ => rfl) (by simp [aliceAsBob]))

/-- Alice and Bob are both users of the localpart of Bob. -/
theorem displayNames_match_aliceAsBob :
    NamesMatch numberNames aliceAsBobStore ∧ aliceAsBobStore.getUsersWithDisplayName 1 = {0, 1} :=
  ⟨(displayNames_match aliceAsBobStore_reached).1, rfl⟩

/-- **A complete list forgets Bob**, who is not a user of the localpart any more, so the name of
Alice is not ambiguous. **A sync keeps Alice** as a user of the localpart, when two events of it
remove the display name and set another one. -/
theorem displayNames_forget_bob :
    (Reached numberNames aliceAsBobStore ∧
      ∃ store, receiveAllMembers numberNames {} aliceAsBobStore {} aliceAsBob = .ok store ∧
        store.getUsersWithDisplayName 1 = {0} ∧ activeName numberNames (store.getMemberEvent 1) = some 1) ∧
      Reached numberNames aliceStore ∧
      ∃ store, receiveSync numberNames aliceStore [⟨1, 0, 0, .join, none⟩, ⟨2, 0, 0, .join, some 6⟩]
        {} = store ∧
        store.getUsersWithDisplayName 0 = {0} ∧ activeName numberNames (store.getMemberEvent 0) = some 6 :=
  ⟨⟨aliceAsBobStore_reached, _, rfl, rfl, rfl⟩, aliceStore_reached, _, rfl, rfl, rfl⟩

end AliceAndBob

end HaranaMatrix.Base
