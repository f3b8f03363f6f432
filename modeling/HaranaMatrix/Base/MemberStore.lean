import HaranaMatrix.Base.Members

/-!
# What is stored of the members

A sync stores the last event of every user. A response stores the events of the users that no sync
wrote in the meantime, and counts its users as they are stored afterwards. -/

namespace HaranaMatrix.Base

open IndexMap List RoomMemberEvent MemberList

variable {U N D : Type} [LinearOrder U] [DecidableEq D] (names : Naming U N D)

def MemoryStore.usersWith (store : MemoryStore U N D) (membership : MembershipState) : Finset U :=
  (store.roomState.map Prod.fst).toFinset.filter fun user => (store.getMemberEvent user).any (·.membership = membership)

/-- The last event of the user. -/
def latest (events : List (RoomMemberEvent U N)) (user : U) : Option (RoomMemberEvent U N) :=
  events.reverse.find? (·.stateKey = user)

variable {store : MemoryStore U N D} {events : List (RoomMemberEvent U N)} {user : U}
  {membership : MembershipState}

omit [DecidableEq D] in
lemma MemoryStore.mem_usersWith : user ∈ store.usersWith membership ↔
    (store.getMemberEvent user).any (·.membership = membership) = true := by
  rw [usersWith, Finset.mem_filter, mem_toFinset, mem_keys_iff, and_iff_right_iff_imp]
  intro h
  rw [MemoryStore.getMemberEvent] at h
  cases hget : get store.roomState user <;> simp_all

lemma latest_append (events events' : List (RoomMemberEvent U N)) (user : U) :
    latest (events ++ events') user = (latest events' user).or (latest events user) := by
  rw [latest, reverse_append, List.find?_append]
  rfl

lemma latest_eq_none : latest events user = none ↔ ∀ e ∈ events, e.stateKey ≠ user := by
  simp [latest]

lemma stateKey_of_latest {event : RoomMemberEvent U N} (h : latest events user = some event) :
    event ∈ events ∧ event.stateKey = user :=
  ⟨mem_reverse.1 (mem_of_find?_eq_some h), by simpa using List.find?_some h⟩

lemma latest_of_nodup {event : RoomMemberEvent U N} (h : (events.map stateKey).Nodup) (he : event ∈ events) :
    latest events event.stateKey = some event := by
  cases hlatest : latest events event.stateKey with
  | none => exact (latest_eq_none.1 hlatest event he rfl).elim
  | some event' =>
    obtain ⟨hmem, hkey⟩ := stateKey_of_latest hlatest
    rw [inj_on_of_nodup_map h hmem he hkey]

/-! ## Syncs -/

section Changes

variable {changes : StateChanges U N D} {event : RoomMemberEvent U N}

omit [DecidableEq D] in
@[simp] lemma state_upsertOrDelete (changes : StateChanges U N D) (event : RoomMemberEvent U N) :
    (upsertOrDelete changes event).state = changes.state := by
  unfold upsertOrDelete
  split <;> split <;> rfl

lemma getMemberEvent_saveChanges (h : (changes.state.map Prod.fst).Nodup) (user : U) :
    (store.saveChanges changes).getMemberEvent user = (changes.member user).or (store.getMemberEvent user) :=
  get_insertAll _ h user

variable (store)

lemma state_dispatch (context : SyncContext U N D) (event : RoomMemberEvent U N) :
    (dispatch names store context event).stateChanges.state =
      IndexMap.insert context.stateChanges.state event.stateKey event := by
  rw [dispatch]
  simp

lemma nodup_foldl_dispatch {context : SyncContext U N D} (h : (context.stateChanges.state.map Prod.fst).Nodup)
    (events : List (RoomMemberEvent U N)) :
    ((events.foldl (dispatch names store) context).stateChanges.state.map Prod.fst).Nodup := by
  induction events generalizing context with
  | nil => exact h
  | cons event events ih =>
    refine ih ?_
    rw [state_dispatch]
    exact nodup_insert h _ _

lemma member_foldl_dispatch (context : SyncContext U N D) (events : List (RoomMemberEvent U N)) (user : U) :
    (events.foldl (dispatch names store) context).stateChanges.member user =
      (latest events user).or (context.stateChanges.member user) := by
  induction events generalizing context with
  | nil => rfl
  | cons event events ih =>
    rw [foldl_cons, ih, ← singleton_append, latest_append, Option.or_assoc, StateChanges.member,
      state_dispatch, get_insert]
    by_cases hkey : event.stateKey = user
    · simp [latest, hkey]
    · have hkey' : user ≠ event.stateKey := fun heq => hkey heq.symm
      simp [latest, hkey, hkey', StateChanges.member]

/-- **A sync stores the last event of every user.** -/
lemma getMemberEvent_receiveSync (events : List (RoomMemberEvent U N)) (summary : RumaSummary) (user : U) :
    (receiveSync names store events summary).getMemberEvent user =
      (latest events user).or (store.getMemberEvent user) := by
  have hmember : (syncChanges names store events).member user = latest events user :=
    (member_foldl_dispatch names store {} events user).trans (Option.or_none ..)
  rw [← hmember]
  have hnodup : ((dispatchAll names store events).stateChanges.state.map Prod.fst).Nodup :=
    @nodup_foldl_dispatch U N D _ _ names store {} nodup_nil events
  exact getMemberEvent_saveChanges hnodup user

variable {store}

end Changes

/-! ## Responses -/

section Response

variable {writes : SyncMemberWrites U} {chunk : List (RoomMemberEvent U N)}

/-- The count of a membership, of those that are counted. -/
def RoomSummary.countOf (summary : RoomSummary) : MembershipState → ℕ
  | .join => summary.joinedMemberCount
  | .invite => summary.invitedMemberCount
  | _ => 0

namespace MemberList

variable {l : MemberList U N D}

variable (l)

omit [LinearOrder U] [DecidableEq D] in
lemma countOf_count (m : MembershipState) (hcounted : membership = .join ∨ membership = .invite) :
    (l.count m).summary.countOf membership = l.summary.countOf membership + if m = membership then 1 else 0 := by
  rcases hcounted with rfl | rfl <;> cases m <;> simp [count, RoomSummary.countOf]

omit [LinearOrder U] [DecidableEq D] in
@[simp] lemma stateChanges_count (m : MembershipState) : (l.count m).stateChanges = l.stateChanges := by
  cases m <;> rfl

omit [LinearOrder U] [DecidableEq D] in
@[simp] lemma outdatedMembers_count (m : MembershipState) :
    (l.count m).outdatedMembers = l.outdatedMembers := by
  cases m <;> rfl

section

variable (member : RoomMemberEvent U N)

lemma addName_eq :
    l.addName names member = { l with ambiguityMap := (l.addName names member).ambiguityMap } := by
  unfold addName
  cases member.displayname with
  | none => rfl
  | some name =>
    dsimp only
    split <;> rfl

@[simp] lemma stateChanges_addName : (l.addName names member).stateChanges = l.stateChanges := by
    rw [addName_eq]

@[simp] lemma summary_addName : (l.addName names member).summary = l.summary := by rw [addName_eq]

@[simp] lemma outdatedMembers_addName : (l.addName names member).outdatedMembers =
    l.outdatedMembers := by rw [addName_eq]

lemma state_addMember : (l.addMember names writes member).stateChanges.state =
      if member.stateKey ∈ writes.users then l.stateChanges.state
      else IndexMap.insert l.stateChanges.state member.stateKey member := by
  rw [addMember]
  split <;> simp

end

variable {l}

lemma nodup_foldl_addMember (h : (l.stateChanges.state.map Prod.fst).Nodup)
    (chunk : List (RoomMemberEvent U N)) :
    ((chunk.foldl (addMember names writes) l).stateChanges.state.map Prod.fst).Nodup := by
  induction chunk generalizing l with
  | nil => exact h
  | cons member chunk ih =>
    refine ih ?_
    rw [state_addMember]
    split
    · exact h
    · exact nodup_insert h _ _

lemma member_foldl_addMember (l : MemberList U N D) (chunk : List (RoomMemberEvent U N)) (user : U) :
    (chunk.foldl (addMember names writes) l).stateChanges.member user =
      (if user ∈ writes.users then none else latest chunk user).or (l.stateChanges.member user) := by
  induction chunk generalizing l with
  | nil => simp [latest]
  | cons member chunk ih =>
    rw [foldl_cons, ih, ← singleton_append, latest_append, StateChanges.member, state_addMember]
    by_cases hkey : member.stateKey = user
    · subst hkey
      by_cases hwritten : member.stateKey ∈ writes.users <;> simp [hwritten, latest, StateChanges.member]
    · have hkey' : user ≠ member.stateKey := fun heq => hkey heq.symm
      by_cases hwritten : member.stateKey ∈ writes.users <;>
        simp [hwritten, latest, hkey, StateChanges.member, get_insert_ne _ _ hkey']

lemma outdatedMembers_foldl_addMember (l : MemberList U N D) (chunk : List (RoomMemberEvent U N)) :
    (chunk.foldl (addMember names writes) l).outdatedMembers =
      l.outdatedMembers ++ (chunk.map stateKey).filter (· ∈ writes.users) := by
  induction chunk generalizing l with
  | nil => simp
  | cons member chunk ih =>
    rw [foldl_cons, ih, addMember]
    by_cases hwritten : member.stateKey ∈ writes.users <;> simp [hwritten]

lemma countOf_foldl_addMember (hcounted : membership = .join ∨ membership = .invite) (l : MemberList U N D)
    (chunk : List (RoomMemberEvent U N)) :
    (chunk.foldl (addMember names writes) l).summary.countOf membership = l.summary.countOf membership +
      (chunk.filter (·.stateKey ∉ writes.users)).countP (·.membership = membership) := by
  induction chunk generalizing l with
  | nil => simp
  | cons member chunk ih =>
    rw [foldl_cons, ih, addMember]
    by_cases hwritten : member.stateKey ∈ writes.users
    · simp [hwritten]
    · rw [if_neg hwritten, filter_cons_of_pos (by simpa using hwritten), countP_cons]
      simp only [summary_addName, countOf_count l _ hcounted, decide_eq_true_eq]
      omega

lemma stateChanges_foldl_addOutdated (l : MemberList U N D) (users : List U) :
    (users.foldl (addOutdated names store) l).stateChanges = l.stateChanges := by
  induction users generalizing l with
  | nil => rfl
  | cons user users ih =>
    rw [foldl_cons, ih, addOutdated]
    cases store.getMemberEvent user <;> simp

lemma countOf_foldl_addOutdated (hcounted : membership = .join ∨ membership = .invite) (l : MemberList U N D)
    (users : List U) :
    (users.foldl (addOutdated names store) l).summary.countOf membership = l.summary.countOf membership +
      users.countP fun user => (store.getMemberEvent user).any (·.membership = membership) := by
  induction users generalizing l with
  | nil => simp
  | cons user users ih =>
    rw [foldl_cons, ih, addOutdated, countP_cons]
    cases store.getMemberEvent user with
    | none => simp
    | some member =>
      simp only [summary_addName, countOf_count l _ hcounted, Option.any_some, decide_eq_true_eq]
      omega

end MemberList

/-- **A response stores the events of the users that no sync wrote.** -/
lemma getMemberEvent_saveMembers (writes : SyncMemberWrites U) (store : MemoryStore U N D)
    (chunk : List (RoomMemberEvent U N)) (user : U) :
    (saveMembers names writes store chunk).getMemberEvent user =
      (if user ∈ writes.users then none else latest chunk user).or (store.getMemberEvent user) := by
  set l := ofResponse names writes store chunk with hl
  have hchanges : l.stateChanges = (chunk.foldl (addMember names writes) {}).stateChanges :=
    stateChanges_foldl_addOutdated names _ _
  have hnodup : (l.stateChanges.state.map Prod.fst).Nodup := by
    rw [hchanges]
    exact @nodup_foldl_addMember U N D _ _ names writes {} nodup_nil chunk
  have hmember : l.stateChanges.member user = if user ∈ writes.users then none else latest chunk user := by
    rw [hchanges, member_foldl_addMember]
    exact Option.or_none ..
  rw [← hmember]
  exact getMemberEvent_saveChanges hnodup user

/-- **A response counts its users**, as they are stored afterwards. -/
lemma countOf_saveMembers (hcounted : membership = .join ∨ membership = .invite)
    (hchunk : (chunk.map stateKey).Nodup) :
    (saveMembers names writes store chunk).summary.countOf membership =
      ((chunk.map stateKey).toFinset.filter
        (· ∈ (saveMembers names writes store chunk).usersWith membership)).card := by
  set store' := saveMembers names writes store chunk with hstore'
  have hstored : ∀ user, store'.getMemberEvent user =
      (if user ∈ writes.users then none else latest chunk user).or (store.getMemberEvent user) :=
    getMemberEvent_saveMembers names writes store chunk
  -- The users that are left alone are counted as they are in the store.
  have hold : ((chunk.map stateKey).filter (· ∈ writes.users)).countP
        (fun user => (store.getMemberEvent user).any (·.membership = membership)) =
      ((chunk.map stateKey).filter (· ∈ writes.users)).countP (· ∈ store'.usersWith membership) := by
    refine countP_congr fun user huser => ?_
    have hwritten : user ∈ writes.users := by simpa using (mem_filter.1 huser).2
    rw [decide_eq_true_eq, MemoryStore.mem_usersWith, hstored, if_pos hwritten, Option.none_or]
  -- The others are counted as they are in the response.
  have hnew : (chunk.filter (·.stateKey ∉ writes.users)).countP (·.membership = membership) =
      ((chunk.map stateKey).filter (· ∉ writes.users)).countP (· ∈ store'.usersWith membership) := by
    rw [filter_map, countP_map]
    refine countP_congr fun member hmember => ?_
    obtain ⟨hmem, hwritten⟩ := mem_filter.1 hmember
    rw [decide_eq_true_eq] at hwritten
    simp only [Function.comp_apply, decide_eq_true_eq]
    rw [MemoryStore.mem_usersWith, hstored, if_neg hwritten, latest_of_nodup hchunk hmem]
    simp
  have hcard : ((chunk.map stateKey).toFinset.filter (· ∈ store'.usersWith membership)).card =
      (chunk.map stateKey).countP (· ∈ store'.usersWith membership) := by
    rw [countP_eq_length_filter, ← toFinset_card_of_nodup (hchunk.filter _), toFinset_filter]
    simp
  rw [hcard, countP_eq_countP_filter_add _ _ (fun user => decide (user ∈ writes.users)), ← hold]
  have hsummary : store'.summary = (ofResponse names writes store chunk).summary := rfl
  rw [hsummary, ofResponse, countOf_foldl_addOutdated names hcounted,
    countOf_foldl_addMember names hcounted, outdatedMembers_foldl_addMember, hnew]
  rcases hcounted with rfl | rfl <;> simp [RoomSummary.countOf, Nat.add_comm]

end Response

end HaranaMatrix.Base
