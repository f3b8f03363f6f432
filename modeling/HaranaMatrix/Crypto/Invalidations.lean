import HaranaMatrix.Crypto.KeyQueries

/-!
# No invalidation is lost

The sequence number of an invalidation is its place in the unbounded sequence of all invalidations,
modulo `2 ^ 64`. As long as the places that are compared are less than `2 ^ 63` apart, a comparison
of sequence numbers is one of places: a response does not count for a user who was invalidated after
the query was built, and does not complete a waiter for such an invalidation. -/

namespace HaranaMatrix.Crypto

open List IndexMap SequenceNumber

/-! ## Places and sequence numbers -/

namespace SequenceNumber

/-- The sequence number of a place. -/
def nth (place : ℤ) : SequenceNumber := ⟨BitVec.ofInt 64 place⟩

lemma sub_nth (a b : ℤ) : (nth a).value - (nth b).value = BitVec.ofInt 64 (a - b) := by
  rw [Int.sub_eq_add_neg, BitVec.ofInt_add, BitVec.ofInt_neg, ← BitVec.sub_eq_add_neg]
  rfl

lemma increment_nth (place : ℕ) : (nth place).increment = nth ((place + 1 : ℕ) : ℤ) := by
  simp [nth, increment, BitVec.ofInt_add]

lemma previous_nth (place : ℤ) : (nth place).previous = nth (place - 1) := by
  have h := sub_nth place 1
  simp only [previous, nth] at h ⊢
  rw [← h]
  rfl

lemma cmp_nth {a b : ℤ} (hle : -2 ^ 63 ≤ a - b) (hlt : a - b < 2 ^ 63) :
    (nth a).cmp (nth b) = compare (a - b) 0 := by
  unfold cmp
  rw [sub_nth, BitVec.toInt_ofInt, Int.bmod_eq_of_le_mul_two] <;> omega

lemma cmp_nth_eq_gt {a b : ℤ} (h : b < a) (hlt : a - b < 2 ^ 63) : (nth a).cmp (nth b) = .gt := by
  rw [cmp_nth (by omega) hlt]
  exact compare_gt_iff_gt.2 (by omega)

lemma cmp_nth_ne_gt {a b : ℤ} (h : a ≤ b) (hle : b - a ≤ 2 ^ 63) : (nth a).cmp (nth b) ≠ .gt := by
  rw [cmp_nth (by omega) (by omega), ne_eq, compare_gt_iff_gt]
  omega

end SequenceNumber

/-! ## The invariant -/

namespace KeyQueryManager

/-- The sequence number of a request is that of the last invalidation before it was built. -/
def BuiltAs (m : KeyQueryManager) (requestId : RequestId) (sequenceNumber : SequenceNumber) : Prop :=
  sequenceNumber = .nth (m.log.builtAt requestId - 1) ∧ requestId < m.nextRequestId ∧
    m.log.builtAt requestId ≤ m.log.invalidations

/-- The user was invalidated, and no response of a later request has made it up to date. -/
def Stale (m : KeyQueryManager) (user : UserId) : Prop :=
  ∃ k, m.log.lastInvalidation user = some k ∧ ∀ r, (user, r) ∈ m.log.refreshed → m.log.builtAt r ≤ k

structure Faithful (m : KeyQueryManager) : Prop where
  next : m.usersForKeyQuery.nextSequenceNumber = .nth m.log.invalidations
  last_lt : ∀ u k, m.log.lastInvalidation u = some k → k < m.log.invalidations
  pending : ∀ u, ∀ s ∈ IndexMap.get m.usersForKeyQuery.userMap u, ∃ k : ℕ, m.log.lastInvalidation u = some k ∧ s = .nth k
  stale : ∀ u, m.Stale u → m.isPending u
  tracked : ∀ u, m.isPending u → u ∈ m.trackedUsers
  stored : ∀ u, m.isPending u → u ∉ m.unsaved → m.isStoredDirty u
  details : ∀ d ∈ m.requestDetails, ∀ r ∈ d.requestIds, m.BuiltAs r d.sequenceNumber
  processing : ∀ p ∈ m.processing, m.BuiltAs p.requestId p.sequenceNumber
  refreshed : ∀ p ∈ m.log.refreshed, p.2 < m.nextRequestId
  tasks : ∀ w ∈ m.usersForKeyQuery.tasksAwaitingKeyQuery, w.id < m.nextWaiterId ∧
    m.log.waitingFor w.id < m.log.invalidations ∧ w.sequenceNumber = .nth (m.log.waitingFor w.id)
  completed : ∀ p ∈ m.log.completed, p.1 < m.nextWaiterId ∧ p.2 < m.nextRequestId ∧
    m.log.waitingFor p.1 < m.log.builtAt p.2

variable {m : KeyQueryManager} {user : UserId} {response : KeysQueryResponse}

/-! ### Invalidations -/

/-- **An invalidation**: the user is tracked, and flagged in the store now or later. -/
lemma Faithful.flagged (hm : Faithful m) {tracked unsaved : List UserId} {stored : List (UserId × Bool)}
    (htracked : ∀ u ∈ m.trackedUsers, u ∈ tracked) (huser : user ∈ tracked)
    (hstored : user ∈ unsaved ∨ get stored user = some true)
    (hothers : ∀ u ≠ user, get stored u = get m.storedTrackedUsers u)
    (hunsaved : ∀ u ∈ m.unsaved, u ∈ unsaved) :
    Faithful { m.flag user with trackedUsers := tracked, storedTrackedUsers := stored, unsaved := unsaved } := by
  have hmap : ∀ u, IndexMap.get (m.usersForKeyQuery.insertUser user).userMap u =
      if u = user then some m.usersForKeyQuery.nextSequenceNumber else IndexMap.get m.usersForKeyQuery.userMap u :=
    fun u => get_insert _ _ _ _
  have hpending : ∀ u, (get (m.usersForKeyQuery.insertUser user).userMap u).isSome ↔
    u = user ∨ m.isPending u := by
    intro u
    rw [hmap]
    split <;> simp [*, isPending]
  have hlast : ∀ u ≠ user, (m.flag user).log.lastInvalidation u = m.log.lastInvalidation u :=
    fun u hu => Function.update_of_ne hu _ _
  have hlt : m.log.invalidations < m.log.invalidations + 1 := Nat.lt_succ_self _
  refine ⟨?_, fun u k hk => ?_, fun u s hs => ?_, fun u hu => ?_, fun u hu => ?_, fun u hu hsaved => ?_,
    fun d hd r hr => ?_, fun p hp => ?_, hm.refreshed, fun w hw => ?_, hm.completed⟩
  · exact (congrArg increment hm.next).trans (increment_nth _)
  · by_cases h : u = user
    · subst h
      obtain rfl : m.log.invalidations = k := by simpa [flag] using hk
      exact hlt
    · exact (hm.last_lt u k ((hlast u h).symm.trans hk)).trans hlt
  · change get (m.usersForKeyQuery.insertUser user).userMap u = some s at hs
    rw [hmap] at hs
    by_cases h : u = user
    · subst h
      rw [if_pos rfl] at hs
      exact ⟨m.log.invalidations, by simp [flag], (Option.some.inj hs).symm.trans hm.next⟩
    · rw [if_neg h] at hs
      obtain ⟨k, hk, hs⟩ := hm.pending u s hs
      exact ⟨k, (hlast u h).trans hk, hs⟩
  · refine (hpending u).2 (or_iff_not_imp_left.2 fun h => ?_)
    obtain ⟨k, hk, hrefreshed⟩ := hu
    exact hm.stale u ⟨k, (hlast u h).symm.trans hk, hrefreshed⟩
  · rcases (hpending u).1 hu with rfl | hu
    · exact huser
    · exact htracked u (hm.tracked u hu)
  · change decide (get stored u = some true) = true
    by_cases h : u = user
    · subst h
      simpa using hstored.resolve_left hsaved
    · have hdirty := hm.stored u (((hpending u).1 hu).resolve_left h) fun hmem => hsaved (hunsaved u hmem)
      unfold isStoredDirty at hdirty
      rwa [← hothers u h] at hdirty
  · obtain ⟨hsequence, hknown, hle⟩ := hm.details d hd r hr
    exact ⟨hsequence, hknown, hle.trans hlt.le⟩
  · obtain ⟨hsequence, hknown, hle⟩ := hm.processing p hp
    exact ⟨hsequence, hknown, hle.trans hlt.le⟩
  · obtain ⟨hid, hwaiting, hsequence⟩ := hm.tasks w hw
    exact ⟨hid, hwaiting.trans hlt, hsequence⟩

lemma mem_track (h : user ∈ m.trackedUsers) (u : UserId) : user ∈ (m.track u).trackedUsers := by
  unfold track
  split
  · exact h
  · exact mem_append_left _ h

lemma mem_track_self (m : KeyQueryManager) (user : UserId) : user ∈ (m.track user).trackedUsers := by
  unfold track
  split
  · assumption
  · simp

section

variable (hm : Faithful m)
include hm

lemma Faithful.flagSaved (user : UserId) : Faithful (((m.track user).flag user).saveTrackedUser user true) :=
  hm.flagged (fun _ h => mem_track h user) (mem_track_self m user) (.inr (get_insert_self _ _ _))
    (fun _ h => get_insert_ne _ _ h) fun _ h => h

lemma Faithful.updateTrackedUsers (users : List UserId) : Faithful (m.updateTrackedUsers users) := by
  unfold KeyQueryManager.updateTrackedUsers
  induction users generalizing m with
  | nil => exact hm
  | cons u users ih =>
    rw [foldl_cons]
    split
    · exact ih hm
    · exact ih (hm.flagSaved u)

lemma Faithful.markTrackedUsersAsChanged (users : List UserId) :
    Faithful (m.markTrackedUsersAsChanged users) := by
  unfold KeyQueryManager.markTrackedUsersAsChanged
  induction users generalizing m with
  | nil => exact hm
  | cons u users ih =>
    rw [foldl_cons]
    split
    · next hu =>
      refine ih (hm.flagged (fun _ h => h) hu (.inr (get_insert_self _ _ _)) (fun _ h => ?_) fun _ h => h)
      exact get_insert_ne _ _ h
    · exact ih hm

lemma Faithful.flagUserAsChanged (user : UserId) : Faithful (m.flagUserAsChanged user) :=
  hm.flagged (fun _ h => mem_track h user) (mem_track_self m user) (.inl (by simp)) (fun _ _ => rfl) fun _ h => by simp [h]

lemma Faithful.saveUserAsChanged (user : UserId) : Faithful (m.saveUserAsChanged user) := by
  unfold KeyQueryManager.saveUserAsChanged
  split
  · refine ⟨hm.next, hm.last_lt, hm.pending, hm.stale, hm.tracked, fun u hu hsaved => ?_,
      hm.details, hm.processing, hm.refreshed, hm.tasks, hm.completed⟩
    change decide (get (insert m.storedTrackedUsers user true) u = some true) = true
    rw [get_insert]
    by_cases h : u = user
    · simp [h]
    · rw [if_neg h]
      exact hm.stored u hu fun hmem => hsaved ((mem_erase_of_ne h).2 hmem)
  · exact hm

end

/-! ### Responses -/

section

variable (hm : Faithful m) (hbuilt : m.BuiltAs response.requestId response.sequenceNumber)
  (hwithin : m.Within response)
include hbuilt hwithin

lemma cmp_of_builtAt_le {k : ℕ} (hk : k < m.log.invalidations) (hle : m.log.builtAt response.requestId ≤ k) :
    (nth k).cmp response.sequenceNumber = .gt := by
  unfold Within at hwithin
  rw [hbuilt.1]
  exact cmp_nth_eq_gt (by omega) (by omega)

include hm

lemma Faithful.completedBy {alive : ℕ → Bool} {p : ℕ × RequestId}
    (hp : p ∈ (m.usersForKeyQuery.completedBy alive user response.sequenceNumber).map fun w : KeysQueryWaiter =>
      (w.id, response.requestId)) :
    p.1 < m.nextWaiterId ∧ p.2 < m.nextRequestId ∧ m.log.waitingFor p.1 < m.log.builtAt p.2 := by
  obtain ⟨w, hw, rfl⟩ := mem_map.1 hp
  obtain ⟨hw, hsatisfied⟩ := mem_filter.1 hw
  obtain ⟨hid, hlt, hsequence⟩ := hm.tasks w hw
  refine ⟨hid, hbuilt.2.1, ?_⟩
  by_contra hle
  have hgt := cmp_of_builtAt_le hbuilt hwithin hlt (not_lt.1 hle)
  simp [UsersForKeyQuery.satisfies, hsequence, hgt] at hsatisfied

/-- The state after a user of a response: the user is taken off, or is still pending. -/
def answered (m : KeyQueryManager) (response : KeysQueryResponse) (user : UserId)
    (userMap : List (UserId × SequenceNumber)) (clean : Bool) : KeyQueryManager :=
  let alive := fun id => !m.droppedWaiters.contains id
  { m with
    usersForKeyQuery := { m.usersForKeyQuery with
      userMap := userMap
      tasksAwaitingKeyQuery := m.usersForKeyQuery.tasksAwaitingKeyQuery.filter fun w =>
        alive w.id && !UsersForKeyQuery.satisfies user response.sequenceNumber w }
    storedTrackedUsers := insert m.storedTrackedUsers user (!clean)
    log := { m.log with
      refreshed := if clean then m.log.refreshed ++ [(user, response.requestId)] else m.log.refreshed
      completed := m.log.completed ++
        (m.usersForKeyQuery.completedBy alive user response.sequenceNumber).map fun w : KeysQueryWaiter =>
          (w.id, response.requestId) } }

lemma Faithful.answered (userMap : List (UserId × SequenceNumber)) (clean : Bool)
    (hothers : ∀ u ≠ user, get userMap u = get m.usersForKeyQuery.userMap u)
    (hclean : clean = true → get userMap user = none ∧
      (m.isPending user → ∀ k, m.log.lastInvalidation user = some k → k < m.log.builtAt response.requestId))
    (hdirty : clean = false → get userMap user = get m.usersForKeyQuery.userMap user) :
    Faithful (m.answered response user userMap clean) := by
  have hsub : ∀ u s, IndexMap.get userMap u = some s →
    IndexMap.get m.usersForKeyQuery.userMap u = some s := by
    intro u s hs
    by_cases h : u = user
    · subst h
      cases clean with
      | true => simp [(hclean rfl).1] at hs
      | false => exact (hdirty rfl).symm.trans hs
    · exact (hothers u h).symm.trans hs
  have hpending : ∀ u, (get userMap u).isSome → m.isPending u := by
    intro u hu
    obtain ⟨s, hs⟩ := Option.isSome_iff_exists.1 hu
    exact Option.isSome_iff_exists.2 ⟨s, hsub u s hs⟩
  refine ⟨hm.next, hm.last_lt, fun u s hs => hm.pending u s (hsub u s hs), fun u hu => ?_,
    fun u hu => hm.tracked u (hpending u hu), fun u hu hsaved => ?_, hm.details, hm.processing, fun p hp => ?_,
    fun w hw => hm.tasks w (mem_of_mem_filter hw), fun p hp => ?_⟩
  · obtain ⟨k, hk, hr⟩ := hu
    change ∀ r, (u, r) ∈ (if clean then m.log.refreshed ++ [(user, response.requestId)] else m.log.refreshed) →
      m.log.builtAt r ≤ k at hr
    change (get userMap u).isSome
    have hstale : m.isPending u := hm.stale u ⟨k, hk, fun r h => hr r (by split <;> simp [h])⟩
    by_cases h : u = user
    · subst h
      cases clean with
      | false => rwa [hdirty rfl]
      | true =>
        -- The response would be one of a request that was built after the invalidation.
        have hlt := (hclean rfl).2 hstale k hk
        have hle := hr response.requestId (by simp)
        omega
    · rwa [hothers u h]
  · change decide (get (insert m.storedTrackedUsers user (!clean)) u = some true) = true
    rw [get_insert]
    by_cases h : u = user
    · subst h
      cases clean with
      | false => simp
      | true => simp [KeyQueryManager.answered, isPending, (hclean rfl).1] at hu
    · rw [if_neg h]
      exact hm.stored u (hpending u hu) hsaved
  · change p ∈ (if clean then m.log.refreshed ++ [(user, response.requestId)] else m.log.refreshed) at hp
    split at hp
    · rcases mem_append.1 hp with hp | hp
      · exact hm.refreshed p hp
      · rw [mem_singleton.1 hp]
        exact hbuilt.2.1
    · exact hm.refreshed p hp
  · exact (mem_append.1 hp).elim (hm.completed p) (hm.completedBy hbuilt hwithin)

/-- **A user of a response** is only taken off if it was not invalidated since. -/
lemma Faithful.markUserAsUpToDate (user : UserId) : Faithful (m.markUserAsUpToDate response user) := by
  unfold KeyQueryManager.markUserAsUpToDate
  split
  swap
  · exact hm
  unfold UsersForKeyQuery.maybeRemoveUser
  cases hlast : get m.usersForKeyQuery.userMap user with
  | none =>
    refine hm.answered hbuilt hwithin _ true (fun _ _ => rfl) (fun _ => ⟨hlast, fun hpending => ?_⟩) (by simp)
    simp [isPending, hlast] at hpending
  | some last =>
    dsimp only
    split
    · exact hm.answered hbuilt hwithin _ false (fun _ _ => rfl) (by simp) fun _ => rfl
    · next hgt =>
      refine hm.answered hbuilt hwithin _ true (fun u hu => get_filter_ne _ hu)
        (fun _ => ⟨get_filter_self _ _, fun _ k hk => ?_⟩) (by simp)
      obtain ⟨k', hk', rfl⟩ := hm.pending user last hlast
      obtain rfl : k = k' := Option.some.inj (hk.symm.trans hk')
      by_contra hle
      exact hgt (cmp_of_builtAt_le hbuilt hwithin (hm.last_lt user k hk) (not_lt.1 hle))

end

/-- What a response leaves alone. -/
structure SameQueries (m m' : KeyQueryManager) : Prop where
  builtAt : m'.log.builtAt = m.log.builtAt
  invalidations : m'.log.invalidations = m.log.invalidations
  lastInvalidation : m'.log.lastInvalidation = m.log.lastInvalidation
  nextRequestId : m'.nextRequestId = m.nextRequestId

lemma sameQueries_markUserAsUpToDate (m : KeyQueryManager) (response : KeysQueryResponse) (user : UserId) :
    SameQueries m (m.markUserAsUpToDate response user) := by
  unfold KeyQueryManager.markUserAsUpToDate
  split <;> exact ⟨rfl, rfl, rfl, rfl⟩

lemma isPending_of_markUserAsUpToDate {u : UserId} (h : (m.markUserAsUpToDate response user).isPending u) :
    m.isPending u := by
  unfold KeyQueryManager.markUserAsUpToDate at h
  split at h
  swap
  · exact h
  unfold UsersForKeyQuery.maybeRemoveUser at h
  cases hlast : get m.usersForKeyQuery.userMap user with
  | none =>
    rw [hlast] at h
    exact h
  | some last =>
    rw [hlast] at h
    dsimp only at h
    split at h
    · exact h
    · change (get (m.usersForKeyQuery.userMap.filter (·.1 ≠ user)) u).isSome at h
      by_cases hu : u = user
      · rw [hu, get_filter_self] at h
        cases h
      · rwa [get_filter_ne _ hu] at h

/-- The user was last invalidated before the query was built, and not too long before. -/
def SettledBy (m : KeyQueryManager) (response : KeysQueryResponse) (user : UserId) : Prop :=
  ∀ k, m.log.lastInvalidation user = some k → k < m.log.builtAt response.requestId ∧
    m.log.builtAt response.requestId ≤ k + 2 ^ 63

lemma Faithful.not_isPending_markUserAsUpToDate (hm : Faithful m)
    (hbuilt : m.BuiltAs response.requestId response.sequenceNumber) (hsettled : m.SettledBy response user) :
    ¬ (m.markUserAsUpToDate response user).isPending user := by
  intro hpending
  have hbefore := isPending_of_markUserAsUpToDate hpending
  obtain ⟨last, hlast⟩ := Option.isSome_iff_exists.1 hbefore
  obtain ⟨k, hk, rfl⟩ := hm.pending user last hlast
  obtain ⟨hlt, hfar⟩ := hsettled k hk
  have hne : (nth k).cmp response.sequenceNumber ≠ .gt := by
    rw [hbuilt.1]
    exact cmp_nth_ne_gt (by omega) (by omega)
  unfold KeyQueryManager.markUserAsUpToDate at hpending
  rw [if_pos (hm.tracked user hbefore)] at hpending
  unfold UsersForKeyQuery.maybeRemoveUser at hpending
  rw [hlast] at hpending
  dsimp only at hpending
  rw [if_neg hne] at hpending
  change (get (m.usersForKeyQuery.userMap.filter (·.1 ≠ user)) user).isSome at hpending
  rw [get_filter_self] at hpending
  cases hpending

/-- While a response is processed. -/
structure Answering (response : KeysQueryResponse) (m : KeyQueryManager) : Prop where
  faithful : Faithful m
  built : m.BuiltAs response.requestId response.sequenceNumber
  within : m.Within response

lemma Answering.step (hm : Answering response m) (user : UserId) :
    Answering response (m.markUserAsUpToDate response user) := by
  have hsame := sameQueries_markUserAsUpToDate m response user
  refine ⟨hm.faithful.markUserAsUpToDate hm.built hm.within user, ?_, ?_⟩
  · unfold BuiltAs
    rw [hsame.builtAt, hsame.invalidations, hsame.nextRequestId]
    exact hm.built
  · unfold Within
    rw [hsame.builtAt, hsame.invalidations]
    exact hm.within

lemma Answering.foldl (hm : Answering response m) (users : List UserId) :
    Answering response (users.foldl (markUserAsUpToDate · response) m) := by
  induction users generalizing m with
  | nil => exact hm
  | cons u users ih => exact ih (hm.step u)

lemma isPending_of_foldl {users : List UserId} {u : UserId}
    (h : (users.foldl (markUserAsUpToDate · response) m).isPending u) : m.isPending u := by
  induction users generalizing m with
  | nil => exact h
  | cons u' users ih => exact isPending_of_markUserAsUpToDate (ih h)

/-- **A user of a response who was not invalidated since is not pending any more.** -/
lemma Answering.not_isPending (hm : Answering response m) {users : List UserId} (huser : user ∈ users)
    (hsettled : m.SettledBy response user) :
      ¬ (users.foldl (markUserAsUpToDate · response) m).isPending user := by
  induction users generalizing m with
  | nil => cases huser
  | cons u users ih =>
    by_cases h : u = user
    · subst h
      exact fun hpending => hm.faithful.not_isPending_markUserAsUpToDate hm.built hsettled (isPending_of_foldl hpending)
    · refine ih (hm.step u) ((mem_cons.1 huser).resolve_left (Ne.symm h)) ?_
      have hsame := sameQueries_markUserAsUpToDate m response u
      unfold SettledBy
      rw [hsame.builtAt, hsame.lastInvalidation]
      exact hsettled

lemma Faithful.answering (hm : Faithful m) {i : ℕ} (hresponse : m.processing[i]? = some response)
    (hwithin : m.Within response) : Answering response { m with processing := m.processing.eraseIdx i } := by
  have hmem : response ∈ m.processing := mem_of_getElem? hresponse
  refine ⟨⟨hm.next, hm.last_lt, hm.pending, hm.stale, hm.tracked, hm.stored, hm.details,
    fun p hp => ?_, hm.refreshed, hm.tasks, hm.completed⟩, hm.processing response hmem, hwithin⟩
  exact hm.processing p (mem_of_mem_eraseIdx hp)

lemma Faithful.applyResponse (hm : Faithful m) {i : ℕ}
    (hwithin : ∀ response ∈ m.processing[i]?, m.Within response) :
    Faithful (m.applyResponse i) := by
  unfold KeyQueryManager.applyResponse
  cases hresponse : m.processing[i]? with
  | none => exact hm
  | some response => exact ((hm.answering hresponse (hwithin response hresponse)).foldl _).faithful

/-! ### Queries and waiters -/

section

variable (hm : Faithful m)
include hm

lemma Faithful.batch (n : ℕ) :
    Faithful { m with
      requestDetails := some ⟨m.usersForKeyQuery.nextSequenceNumber.previous, List.range' m.nextRequestId n⟩
      nextRequestId := m.nextRequestId + n
      log := { m.log with
        builtAt := fun r => if r ∈ List.range' m.nextRequestId n then m.log.invalidations else m.log.builtAt r } } := by
  have hold : ∀ {r}, r < m.nextRequestId →
      (if r ∈ List.range' m.nextRequestId n then m.log.invalidations else m.log.builtAt r) = m.log.builtAt r := by
    intro r hr
    exact if_neg fun hmem => hr.not_ge (mem_range'_1.1 hmem).1
  have hlt : ∀ {r}, r < m.nextRequestId → r < m.nextRequestId + n := fun h => h.trans_le (Nat.le_add_right _ _)
  refine ⟨hm.next, hm.last_lt, hm.pending, fun u hu => ?_, hm.tracked, hm.stored, ?_, fun p hp => ?_,
    fun p hp => hlt (hm.refreshed p hp), hm.tasks, fun p hp => ?_⟩
  · obtain ⟨k, hk, hr⟩ := hu
    refine hm.stale u ⟨k, hk, fun r h => ?_⟩
    rw [← hold (hm.refreshed (u, r) h)]
    exact hr r h
  · rintro _ ⟨⟩ r hr
    refine ⟨?_, ?_, ?_⟩
    · rw [hm.next, previous_nth]
      simp only [if_pos hr]
    · exact (mem_range'_1.1 hr).2
    · simp only [if_pos hr, le_refl]
  · obtain ⟨hsequence, hknown, hle⟩ := hm.processing p hp
    refine ⟨?_, hlt hknown, ?_⟩ <;> simp only [hold hknown]
    · exact hsequence
    · exact hle
  · obtain ⟨hwaiter, hknown, hbefore⟩ := hm.completed p hp
    refine ⟨hwaiter, hlt hknown, ?_⟩
    simp only [hold hknown]
    exact hbefore

lemma Faithful.buildKeyQueries (ownUser : UserId) (failed : UserId → Bool) :
    Faithful (m.buildKeyQueries ownUser failed) := by
  have hforget : Faithful { m with requestDetails := none } :=
    ⟨hm.next, hm.last_lt, hm.pending, hm.stale, hm.tracked, hm.stored, nofun, hm.processing,
      hm.refreshed, hm.tasks, hm.completed⟩
  unfold KeyQueryManager.buildKeyQueries
  extract_lets m₁ m₂
  have hm₂ : Faithful m₂ := by
    unfold m₂
    split
    · exact hforget.flagged (fun _ h => mem_track h ownUser) (mem_track_self _ ownUser)
        (.inr (get_insert_self _ _ _)) (fun _ h => get_insert_ne _ _ h) fun _ h => h
    · exact hforget
  clear_value m₂
  dsimp only [UsersForKeyQuery.usersForKeyQuery]
  split
  · exact hm₂
  · exact hm₂.batch _

lemma Faithful.takeResponse (requestId : RequestId) (users : List UserId) :
    Faithful (m.takeResponse requestId users) := by
  unfold KeyQueryManager.takeResponse
  cases hdetails : m.requestDetails with
  | none => exact hm
  | some details =>
    dsimp only
    split
    · next hmem =>
      have hbuilt := hm.details details hdetails
      refine ⟨hm.next, hm.last_lt, hm.pending, hm.stale, hm.tracked, hm.stored, ?_, fun p hp => ?_,
        hm.refreshed, hm.tasks, hm.completed⟩
      · rintro _ ⟨⟩ r hr
        exact hbuilt r (mem_of_mem_erase hr)
      · rcases mem_append.1 hp with hp | hp
        · exact hm.processing p hp
        · rw [mem_singleton.1 hp]
          exact hbuilt requestId hmem
    · exact hm

lemma Faithful.registerWaiter (user : UserId) : Faithful (m.registerWaiter user) := by
  unfold KeyQueryManager.registerWaiter UsersForKeyQuery.maybeRegisterWaitingTask
  cases hlast : get m.usersForKeyQuery.userMap user with
  | none => exact hm
  | some last =>
    obtain ⟨k, hk, rfl⟩ := hm.pending user last hlast
    have hold : ∀ {id}, id < m.nextWaiterId → Function.update m.log.waitingFor m.nextWaiterId
        ((m.log.lastInvalidation user).getD 0) id = m.log.waitingFor id :=
      fun h => Function.update_of_ne h.ne _ _
    simp only [Option.map_some]
    refine ⟨hm.next, hm.last_lt, hm.pending, hm.stale, hm.tracked, hm.stored, hm.details,
      hm.processing, hm.refreshed, fun w hw => ?_, fun p hp => ?_⟩
    · rcases mem_append.1 hw with hw | hw
      · obtain ⟨hid, hwaiting, hsequence⟩ := hm.tasks w hw
        refine ⟨hid.trans (Nat.lt_succ_self _), ?_, ?_⟩ <;> dsimp only <;> rw [hold hid]
        · exact hwaiting
        · exact hsequence
      · rw [mem_singleton.1 hw]
        refine ⟨Nat.lt_succ_self _, ?_, ?_⟩ <;> dsimp only <;> rw [Function.update_self, hk, Option.getD_some]
        exact hm.last_lt user k hk
    · obtain ⟨hwaiter, hknown, hbefore⟩ := hm.completed p hp
      refine ⟨hwaiter.trans (Nat.lt_succ_self _), hknown, ?_⟩
      dsimp only
      rw [hold hwaiter]
      exact hbefore

end

/-! ## Runs -/

lemma Faithful.step (hm : Faithful m) {action : Action} (hwithin : action.Within m) :
    Faithful (m.step action) := by
  cases action with
  | updateTrackedUsers users => exact hm.updateTrackedUsers users
  | markTrackedUsersAsChanged users => exact hm.markTrackedUsersAsChanged users
  | flagUserAsChanged user => exact hm.flagUserAsChanged user
  | saveUserAsChanged user => exact hm.saveUserAsChanged user
  | buildKeyQueries ownUser failed => exact hm.buildKeyQueries ownUser failed
  | takeResponse requestId users => exact hm.takeResponse requestId users
  | applyResponse i => exact hm.applyResponse hwithin
  | registerWaiter user => exact hm.registerWaiter user
  | dropWaiter id =>
    exact ⟨hm.next, hm.last_lt, hm.pending, hm.stale, hm.tracked, hm.stored, hm.details,
      hm.processing, hm.refreshed, hm.tasks, hm.completed⟩

lemma Faithful.run (hm : Faithful m) {actions : List Action} (hwithin : RunWithin m actions) :
    Faithful (m.run actions) := by
  induction actions generalizing m with
  | nil => exact hm
  | cons action actions ih => exact ih (hm.step hwithin.1) hwithin.2

lemma Faithful.track (hm : Faithful m) (user : UserId) : Faithful (m.track user) :=
  ⟨hm.next, hm.last_lt, hm.pending, hm.stale, fun u hu => mem_track (hm.tracked u hu) user,
    hm.stored, hm.details, hm.processing, hm.refreshed, hm.tasks, hm.completed⟩

lemma Faithful.load {tracked : List (UserId × Bool)} (hnodup : (tracked.map Prod.fst).Nodup) :
    Faithful (load tracked) := by
  suffices hfold : ∀ entries : List (UserId × Bool), (∀ entry ∈ entries, entry ∈ tracked) →
      ∀ m : KeyQueryManager, m.storedTrackedUsers = tracked → Faithful m → Faithful (entries.foldl
        (fun m entry => if entry.2 then (m.track entry.1).flag entry.1 else m.track entry.1) m) by
    refine hfold tracked (fun _ h => h) _ rfl ⟨rfl, nofun, nofun, ?_, nofun, nofun, nofun, nofun,
      nofun, nofun, nofun⟩
    rintro u ⟨k, hk, -⟩
    cases hk
  intro entries
  induction entries with
  | nil => exact fun _ m _ hm => hm
  | cons entry entries ih =>
    intro hmem m hstored hm
    obtain ⟨user, dirty⟩ := entry
    have hrest : ∀ entry ∈ entries, entry ∈ tracked := fun e he => hmem e (mem_cons_of_mem _ he)
    cases dirty with
    | false => exact ih hrest (m.track user) hstored (hm.track user)
    | true =>
      have hdirty : get m.storedTrackedUsers user = some true := by
        rw [hstored]
        exact get_of_mem hnodup (hmem _ mem_cons_self)
      exact ih hrest ((m.track user).flag user) hstored
        (hm.flagged (fun _ h => mem_track h user) (mem_track_self m user) (.inr hdirty) (fun _ _ => rfl) fun _ h => h)

/-- **No invalidation is lost**, over every run in which a response comes less than `2 ^ 63` invalidations after its query.
A user who was invalidated and whom no response of a later request has made up to date is pending, in memory and, once
`mark_user_as_changed` has saved it, in the store. A response of the current batch is processed with the sequence number of
the batch, and a user it settles is not pending any more. A waiter was completed by a request that was built after the last
invalidation before the waiter was registered. -/
theorem run_loses_no_invalidation {tracked : List (UserId × Bool)} (hnodup : (tracked.map Prod.fst).Nodup)
    {actions : List Action} (hwithin : RunWithin (load tracked) actions) :
    let m := (load tracked).run actions
    (∀ user, m.Stale user → m.isPending user ∧ (user ∉ m.unsaved → m.isStoredDirty user)) ∧
    (∀ details ∈ m.requestDetails, ∀ requestId ∈ details.requestIds, ∀ users,
      (m.takeResponse requestId users).processing =
        m.processing ++ [⟨requestId, users, details.sequenceNumber⟩]) ∧
    (∀ i response, m.processing[i]? = some response → m.Within response → ∀ user ∈ response.users,
      m.SettledBy response user → ¬ (m.applyResponse i).isPending user) ∧
    ∀ p ∈ m.log.completed, m.log.waitingFor p.1 < m.log.builtAt p.2 := by
  intro m
  have hm : Faithful m := (Faithful.load hnodup).run hwithin
  refine ⟨fun user hstale => ?_, fun details hdetails requestId hmem users => ?_,
    fun i response hresponse hlt user huser hsettled => ?_, fun p hp => (hm.completed p hp).2.2⟩
  · have hpending := hm.stale user hstale
    exact ⟨hpending, hm.stored user hpending⟩
  · unfold takeResponse
    rw [hdetails]
    simp only [if_pos hmem]
  · unfold applyResponse
    rw [hresponse]
    exact (hm.answering hresponse hlt).not_isPending huser hsettled

/-- The other user is invalidated, waited for and queried. -/
def queriedBob : List Action :=
  [.markTrackedUsersAsChanged ["@bob"], .registerWaiter "@bob", .buildKeyQueries "@alice" fun _ => false,
    .takeResponse 0 ["@bob"]]

theorem run_loses_no_invalidation_bob :
    let m := (load [("@bob", false)]).run queriedBob
    m.isPending "@bob" ∧ m.isStoredDirty "@bob" ∧ ¬ (m.applyResponse 0).isPending "@bob" := by
  have hwithin : RunWithin (load [("@bob", false)]) queriedBob := ⟨trivial, trivial, trivial, trivial, trivial⟩
  obtain ⟨hstale, -, hsettled, -⟩ := run_loses_no_invalidation (by decide) hwithin
  have hbob := hstale "@bob" ⟨0, by decide, nofun⟩
  refine ⟨hbob.1, hbob.2 (by decide), hsettled 0 ⟨0, ["@bob"], .nth 0⟩ rfl (by unfold Within; decide) "@bob" (by decide) ?_⟩
  intro k hk
  have hfirst : ((load [("@bob", false)]).run queriedBob).log.lastInvalidation "@bob" = some 0 := by decide
  obtain rfl : k = 0 := Option.some.inj (hk.symm.trans hfirst)
  decide

/-! ### Two invalidations that are not pending, or pending for too long -/

/-- A response of a newer request makes the user up to date before that of the older one comes. -/
def overtaken : List Action :=
  [.markTrackedUsersAsChanged ["@bob"], .buildKeyQueries "@alice" fun _ => false,
    .markTrackedUsersAsChanged ["@bob"], .buildKeyQueries "@alice" fun _ => false,
    .takeResponse 1 ["@bob"], .applyResponse 0, .takeResponse 0 ["@bob"], .applyResponse 0]

/-- Only the second user of the store changes, `n` times. -/
structure OnlyCarol (n : ℕ) (m : KeyQueryManager) : Prop where
  next : m.usersForKeyQuery.nextSequenceNumber = .nth ((n + 2 : ℕ) : ℤ)
  invalidations : m.log.invalidations = n + 2
  lastInvalidation : m.log.lastInvalidation "@bob" = some 0
  bob : get m.usersForKeyQuery.userMap "@bob" = some (.nth 0)
  keys : m.usersForKeyQuery.userMap.map Prod.fst = ["@bob", "@carol"]
  tracked : m.trackedUsers = ["@bob", "@carol"]
  requests : m.processing = [] ∧ m.nextRequestId = 0

lemma onlyCarol_step {n : ℕ} {m : KeyQueryManager} (hm : OnlyCarol n m) :
    OnlyCarol (n + 1) ((m.flag "@carol").saveTrackedUser "@carol" true) := by
  refine ⟨?_, ?_, ?_, ?_, ?_, hm.tracked, hm.requests⟩
  · exact (congrArg increment hm.next).trans (increment_nth _)
  · exact congrArg (· + 1) hm.invalidations
  · have hne : "@bob" ≠ "@carol" := by decide
    exact (Function.update_of_ne hne (some m.log.invalidations) m.log.lastInvalidation).trans hm.lastInvalidation
  · exact (get_insert_ne _ _ (by decide)).trans hm.bob
  · refine (map_fst_insert _ _ _).trans ?_
    rw [hm.keys, if_pos (by decide)]

lemma onlyCarol_replicate {n : ℕ} {m : KeyQueryManager} (hm : OnlyCarol n m) (k : ℕ) :
    OnlyCarol (n + k) (m.markTrackedUsersAsChanged (List.replicate k "@carol")) := by
  unfold markTrackedUsersAsChanged
  induction k generalizing n m with
  | zero => exact hm
  | succ k ih =>
    rw [replicate_succ, foldl_cons, if_pos (by rw [hm.tracked]; decide), ← Nat.add_assoc, Nat.add_right_comm]
    exact ih (onlyCarol_step hm)

lemma onlyCarol_load : OnlyCarol 0 (load [("@bob", true), ("@carol", true)]) := by
  refine ⟨?_, ?_, ?_, ?_, ?_, ?_, ?_, ?_⟩ <;> decide

/-- The first user of the store is queried after the second one has changed `n` times. -/
def queriedAfter (n : ℕ) : List Action :=
  [.markTrackedUsersAsChanged (List.replicate n "@carol"), .buildKeyQueries "@alice" fun _ => false,
    .takeResponse 0 ["@bob"]]

lemma run_queriedAfter (n : ℕ) :
    let m := (load [("@bob", true), ("@carol", true)]).run (queriedAfter n)
    m.processing = [⟨0, ["@bob"], .nth ((n + 1 : ℕ) : ℤ)⟩] ∧ m.log.builtAt 0 = n + 2 ∧
      m.log.invalidations = n + 2 ∧
      m.log.lastInvalidation "@bob" = some 0 ∧ "@bob" ∈ m.trackedUsers ∧
      get m.usersForKeyQuery.userMap "@bob" = some (.nth 0) := by
  have hm := onlyCarol_replicate onlyCarol_load n
  rw [Nat.zero_add] at hm
  unfold run queriedAfter
  simp only [foldl_cons, foldl_nil, step]
  generalize (load [("@bob", true), ("@carol", true)]).markTrackedUsersAsChanged (List.replicate n "@carol") = m at hm ⊢
  have hbuilt : m.buildKeyQueries "@alice" (fun _ => false) = { m with
      requestDetails := some ⟨.nth ((n + 1 : ℕ) : ℤ), [0]⟩
      nextRequestId := 1
      log := { m.log with builtAt := fun r => if r ∈ [0] then n + 2 else m.log.builtAt r } } := by
    have hne : m.usersForKeyQuery.userMap ≠ [] := fun h => by simpa [h] using hm.keys
    have hsequence : m.usersForKeyQuery.nextSequenceNumber.previous = .nth ((n + 1 : ℕ) : ℤ) := by
      rw [hm.next, previous_nth]
      push_cast
      ring_nf
    have hchunks : chunks MAX_KEY_QUERY_USERS ["@bob", "@carol"] = [["@bob", "@carol"]] := by decide
    unfold buildKeyQueries
    simp [UsersForKeyQuery.usersForKeyQuery, hne, hm.keys, hm.requests.2, hm.invalidations,
      hsequence, hchunks]
  rw [hbuilt]
  refine ⟨?_, rfl, hm.invalidations, hm.lastInvalidation, ?_, hm.bob⟩
  · simp [takeResponse, hm.requests.1]
  · change "@bob" ∈ m.trackedUsers
    rw [hm.tracked]
    decide

lemma isPending_queriedAfter {n : ℕ} (hgt : (nth 0).cmp (.nth ((n + 1 : ℕ) : ℤ)) = .gt) :
    (((load [("@bob", true), ("@carol", true)]).run (queriedAfter n)).applyResponse 0).isPending "@bob" := by
  obtain ⟨hprocessing, -, -, -, htracked, hbob⟩ := run_queriedAfter n
  generalize (load [("@bob", true), ("@carol", true)]).run (queriedAfter n) = m at hprocessing htracked hbob ⊢
  generalize nth ((n + 1 : ℕ) : ℤ) = last at hprocessing hgt
  simp [applyResponse, hprocessing, markTrackedUsersAsUpToDate, markUserAsUpToDate, htracked,
    UsersForKeyQuery.maybeRemoveUser, hbob, hgt, isPending, saveTrackedUser]

/-- **Overtaken, and too far**: a user who was invalidated after a request was built is not pending
after its response, as the response of a later request came first; and the response of a query does
not count for a user who was last invalidated too many invalidations before. -/
theorem run_forgets_overtaken_and_far :
    (let m := (load [("@bob", false)]).run overtaken
     m.log.invalidations = 2 ∧ m.log.builtAt 0 = 1 ∧ m.log.lastInvalidation "@bob" = some 1 ∧
       ¬ m.isPending "@bob") ∧
    ∃ n, n = 2 ^ 63 ∧
    (let m := (load [("@bob", true), ("@carol", true)]).run (queriedAfter n)
     m.log.lastInvalidation "@bob" = some 0 ∧ m.log.builtAt 0 = n + 2 ∧ m.log.invalidations = n + 2 ∧
      m.processing.map KeysQueryResponse.users = [["@bob"]] ∧ (m.applyResponse 0).isPending "@bob") := by
  refine ⟨by decide, ?_⟩
  obtain ⟨n, hn⟩ : ∃ n, n = 2 ^ 63 := ⟨_, rfl⟩
  have hgt : (SequenceNumber.nth 0).cmp (.nth ((n + 1 : ℕ) : ℤ)) = .gt := by
    subst hn
    decide
  obtain ⟨hprocessing, hbuilt, hinvalidations, hlast, -, -⟩ := run_queriedAfter n
  exact ⟨n, hn, hlast, hbuilt, hinvalidations, by rw [hprocessing]; rfl, isPending_queriedAfter hgt⟩

end KeyQueryManager

end HaranaMatrix.Crypto
