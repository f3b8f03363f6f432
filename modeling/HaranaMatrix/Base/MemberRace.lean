import HaranaMatrix.Base.MemberStore

/-!
# Member lists and syncs

A `/members` response describes the room at some moment between the sending and the answering of its
request. Syncs go on in the meantime, and so do other requests. A sync records the users it writes,
saves them, and holds the lock of the store in between, as a response does while it is handled.

The response does not take back what the syncs have written. But it also leaves out what is newer in
it for a user that a sync wrote, and it counts only the users that are in it. -/

namespace HaranaMatrix.Base

open IndexMap List

variable {U N D : Type} [LinearOrder U] [DecidableEq D] (names : Naming U N D)

/-! ## Moments -/

section Moments

variable {history : List (RoomMemberEvent U N)} {user : U} {event : Option (RoomMemberEvent U N)} {i j m : ℕ}

variable (history)

/-- The events from a moment to another one. -/
def segment (i j : ℕ) : List (RoomMemberEvent U N) := (history.take j).drop i

/-- The event is that of the user at some moment not before `m`. -/
def NotBefore (user : U) (m : ℕ) (event : Option (RoomMemberEvent U N)) : Prop :=
  ∃ n, m ≤ n ∧ event = latest (history.take n) user

/-- The member list is that of a room with these events in its past. -/
structure Complete (past chunk : List (RoomMemberEvent U N)) : Prop where
  nodup : (chunk.map RoomMemberEvent.stateKey).Nodup
  mem_iff : ∀ event, event ∈ chunk ↔ latest past event.stateKey = some event

omit [LinearOrder U] in
lemma take_eq_append (h : i ≤ j) : history.take j = history.take i ++ segment history i j := by
  have hsplit := (take_append_drop i (history.take j)).symm
  rwa [take_take, Nat.min_eq_left h] at hsplit

omit [LinearOrder U] in
lemma segment_eq_nil (h : j ≤ i) : segment history i j = [] := by
  rw [segment, drop_eq_nil_iff, length_take]
  omega

variable {history}

omit [LinearOrder U] in
lemma mem_segment_of_le {e : RoomMemberEvent U N} (h : e ∈ segment history j m) (hij : i ≤ j) :
    e ∈ segment history i m := by
  rw [segment, ← Nat.add_sub_cancel' hij, ← drop_drop] at h
  exact mem_of_mem_drop h

omit [LinearOrder U] in
lemma mem_segment_split {e : RoomMemberEvent U N} (h : e ∈ segment history i m) (hjm : j ≤ m) :
    e ∈ segment history i j ∨ e ∈ segment history j m := by
  rw [segment, take_eq_append history hjm, drop_append] at h
  exact (mem_append.1 h).imp_right mem_of_mem_drop

lemma latest_take (history : List (RoomMemberEvent U N)) (user : U) (h : i ≤ j) :
    latest (history.take j) user = (latest (segment history i j) user).or (latest (history.take i) user) := by
  rw [take_eq_append history h, latest_append]

lemma NotBefore.of_segment (h : NotBefore history user i event)
    (hnone : ∀ e ∈ segment history i j, e.stateKey ≠ user) :
    NotBefore history user j event := by
  obtain ⟨n, hn, rfl⟩ := h
  rcases le_total j n with hjn | hnj
  · exact ⟨n, hjn, rfl⟩
  · refine ⟨j, le_rfl, ?_⟩
    have hlatest : latest (segment history n j) user = none :=
      latest_eq_none.2 fun e he => hnone e (mem_segment_of_le he hn)
    rw [latest_take history user hnj, hlatest, Option.none_or]

lemma Complete.latest_eq {past chunk : List (RoomMemberEvent U N)} (h : Complete past chunk) (user : U) :
    latest chunk user = latest past user := by
  cases hpast : latest past user with
  | none =>
    refine latest_eq_none.2 fun e he hkey => ?_
    have := (h.mem_iff e).1 he
    rw [hkey, hpast] at this
    cases this
  | some e =>
    obtain ⟨-, rfl⟩ := stateKey_of_latest hpast
    exact latest_of_nodup h.nodup ((h.mem_iff e).2 hpast)

end Moments

/-! ## Runs -/

/-- The server, and the client with its requests. A request is sent at some moment after its guard was taken. A sync that is
`saving` has been recorded up to a moment, but not saved. -/
structure World (U N D : Type) where
  now : ℕ := 0
  synced : ℕ := 0
  saving : Option ℕ := none
  guards : List (Option ℕ) := []
  writes : SyncMemberWrites U := {}
  store : MemoryStore U N D := {}

variable (history : List (RoomMemberEvent U N))

inductive Step : World U N D → World U N D → Prop
  /-- The next event happens on the server. -/
  | happen (w : World U N D) : w.now < history.length → Step w { w with now := w.now + 1 }
  | guard (w : World U N D) :
      Step w { w with guards := w.guards ++ [none], writes := w.writes.startMembersRequest }
  | send (w : World U N D) (i : ℕ) : w.guards[i]? = some none → Step w { w with guards := w.guards.set i (some w.now) }
  /-- A sync has the next events up to a moment. -/
  | record (w : World U N D) (k : ℕ) : w.saving = none → w.synced ≤ k → k ≤ w.now →
      Step w { w with
        saving := some k
        writes := w.writes.recordMemberWritesFromSync (syncChanges names w.store (segment history w.synced k)) }
  | save (w : World U N D) (k : ℕ) (summary : RumaSummary) : w.saving = some k →
      Step w { w with
        saving := none
        synced := k
        store := receiveSync names w.store (segment history w.synced k) summary }
  /-- The response to a request that was sent at `t` is that of the moment `m`. -/
  | receive (w : World U N D) (t m : ℕ) (chunk : List (RoomMemberEvent U N)) (store : MemoryStore U N D) :
      w.saving = none → some t ∈ w.guards → t ≤ m → m ≤ w.now → Complete (history.take m) chunk →
      receiveAllMembers names w.writes w.store {} chunk = .ok store → Step w { w with store }
  /-- A request is done, or has failed. -/
  | drop (w : World U N D) (i : ℕ) : i < w.guards.length →
      Step w { w with guards := w.guards.eraseIdx i, writes := w.writes.drop }

inductive Reachable : World U N D → Prop
  | init : Reachable {}
  | step {w w' : World U N D} : Reachable w → Step names history w w' → Reachable w'

/-- What the users of the record are for: a sync that was recorded after a request was sent has its
users in the record. -/
structure Tracked (w : World U N D) : Prop where
  synced_le : w.synced ≤ w.saving.getD w.synced
  saving_le : w.saving.getD w.synced ≤ w.now
  inFlight : w.writes.inFlight = w.guards.length
  sent : ∀ t, some t ∈ w.guards →
    ∀ e ∈ segment history t (w.saving.getD w.synced), e.stateKey ∈ w.writes.users
  stored : ∀ user, NotBefore history user w.synced (w.store.getMemberEvent user)

section Writes

variable {names history} {w w' : World U N D} {user : U}

lemma SyncMemberWrites.foldl_record (writes : SyncMemberWrites U) (users : List U) :
    (users.foldl recordSyncMemberWrite writes).inFlight = writes.inFlight ∧
      ∀ user, user ∈ (users.foldl recordSyncMemberWrite writes).users ↔
        user ∈ writes.users ∨ 0 < writes.inFlight ∧ user ∈ users := by
  induction users generalizing writes with
  | nil => simp
  | cons first users ih =>
    obtain ⟨hflight, husers⟩ := ih (writes.recordSyncMemberWrite first)
    by_cases hpos : 0 < writes.inFlight
    · have hrecord : writes.recordSyncMemberWrite first = { writes with users := insert first writes.users } := if_pos hpos
      refine ⟨hflight.trans (by rw [hrecord]), fun user => (husers user).trans ?_⟩
      simp only [hrecord, hpos, true_and, Finset.mem_insert, mem_cons]
      tauto
    · have hrecord : writes.recordSyncMemberWrite first = writes := if_neg hpos
      refine ⟨hflight.trans (by rw [hrecord]), fun user => (husers user).trans ?_⟩
      simp [hrecord, hpos]

lemma mem_users_record (writes : SyncMemberWrites U) (store : MemoryStore U N D)
    (events : List (RoomMemberEvent U N)) :
    user ∈ (writes.recordMemberWritesFromSync (syncChanges names store events)).users ↔
      user ∈ writes.users ∨ 0 < writes.inFlight ∧ ∃ e ∈ events, e.stateKey = user := by
  have hmember : get (syncChanges names store events).state user = latest events user :=
    (member_foldl_dispatch names store {} events user).trans (Option.or_none ..)
  rw [SyncMemberWrites.recordMemberWritesFromSync, (writes.foldl_record _).2, mem_keys_iff, hmember,
    Option.isSome_iff_ne_none, Ne, latest_eq_none]
  push Not
  rfl

end Writes

/-! ## What holds in every run -/

section Invariant

variable {names history} {w w' : World U N D} {t m k : ℕ} {chunk : List (RoomMemberEvent U N)}

omit [DecidableEq D] in
lemma Tracked.notBefore_synced (h : Tracked history w) (hsaving : w.saving = none)
    (ht : some t ∈ w.guards) (htm : t ≤ m)
    {user : U} (huser : user ∉ w.writes.users) :
      NotBefore history user w.synced (latest (history.take m) user) := by
  refine NotBefore.of_segment ⟨m, le_rfl, rfl⟩ fun e he hkey => huser ?_
  rw [← hkey]
  have hsent := h.sent t ht e
  rw [hsaving] at hsent
  exact hsent (mem_segment_of_le he htm)

/-- **A response does not take back what the syncs have written.** -/
lemma Tracked.stored_saveMembers (h : Tracked history w) (hsaving : w.saving = none)
    (ht : some t ∈ w.guards) (htm : t ≤ m) (hchunk : Complete (history.take m) chunk) (user : U) :
    NotBefore history user w.synced ((saveMembers names w.writes w.store chunk).getMemberEvent user) := by
  rw [getMemberEvent_saveMembers, hchunk.latest_eq]
  split
  · exact h.stored user
  · next huser =>
    have hlatest := h.notBefore_synced hsaving ht htm huser
    cases hget : latest (history.take m) user with
    | none => exact h.stored user
    | some e =>
      rw [hget] at hlatest
      exact hlatest

lemma Tracked.step (h : Tracked history w) (hstep : Step names history w w') : Tracked history w' := by
  have hsynced := h.synced_le
  have hsaving := h.saving_le
  cases hstep with
  | happen _ => exact ⟨hsynced, Nat.le_succ_of_le hsaving, h.inFlight, h.sent, h.stored⟩
  | guard =>
    refine ⟨hsynced, hsaving, ?_, fun t ht => h.sent t (by simpa using ht), h.stored⟩
    rw [length_append]
    exact congrArg (· + 1) h.inFlight
  | send i _ =>
    refine ⟨hsynced, hsaving, ?_, fun t ht => ?_, h.stored⟩
    · rw [length_set]
      exact h.inFlight
    · rcases mem_or_eq_of_mem_set ht with ht | ht
      · exact h.sent t ht
      · obtain rfl := Option.some.inj ht
        rw [segment_eq_nil history hsaving]
        simp
  | record k hnone hk hknow =>
    have hsent := h.sent
    rw [hnone] at hsent
    have hflight := (w.writes.foldl_record ((syncChanges names w.store (segment history w.synced k)).state.map Prod.fst)).1
    refine ⟨hk, hknow, hflight.trans h.inFlight, fun t ht e he => mem_users_record _ _ _ |>.2 ?_, h.stored⟩
    rcases mem_segment_split he hk with he | he
    · exact .inl (hsent t ht e he)
    · refine .inr ⟨?_, e, he, rfl⟩
      rw [h.inFlight]
      exact length_pos_of_mem ht
  | save k summary hk =>
    rw [hk] at hsynced hsaving
    have hsent := h.sent
    rw [hk] at hsent
    refine ⟨le_rfl, hsaving, h.inFlight, hsent, fun user => ?_⟩
    rw [getMemberEvent_receiveSync]
    cases hlatest : latest (segment history w.synced k) user with
    | none => exact (h.stored user).of_segment (latest_eq_none.1 hlatest)
    | some e =>
      refine ⟨k, le_rfl, ?_⟩
      have hk : w.synced ≤ k := hsynced
      rw [latest_take history user hk, hlatest, Option.some_or, Option.some_or]
  | receive t m chunk store hnone ht htm hm hchunk hstore =>
    obtain rfl : saveMembers names w.writes w.store chunk = store := by
      simpa [receiveAllMembers] using hstore
    exact ⟨hsynced, hsaving, h.inFlight, h.sent, h.stored_saveMembers hnone ht htm hchunk⟩
  | drop i hi =>
    have hflight : w.writes.inFlight - 1 = (w.guards.eraseIdx i).length := by
      rw [length_eraseIdx_of_lt hi, h.inFlight]
    refine ⟨hsynced, hsaving, hflight, fun t ht e he => ?_, h.stored⟩
    have hpos : w.writes.inFlight - 1 ≠ 0 := by
      rw [hflight]
      exact (length_pos_of_mem ht).ne'
    simp only [SyncMemberWrites.drop, hpos, if_false]
    exact h.sent t (mem_of_mem_eraseIdx ht) e he

/-- **The record serves all requests.** -/
lemma Reachable.tracked (h : Reachable names history w) : Tracked history w := by
  induction h with
  | init => exact ⟨le_rfl, le_rfl, rfl, by simp, fun user => ⟨0, le_rfl, rfl⟩⟩
  | step _ hstep ih => exact ih.step hstep

end Invariant

/-! ## Member lists -/

/-- What a member list should leave behind: events that are as recent as those of the syncs and of
the list, and the numbers of the users that are stored. -/
structure UpToDate (synced m : ℕ) (store : MemoryStore U N D) : Prop where
  synced : ∀ user, NotBefore history user synced (store.getMemberEvent user)
  response : ∀ user, NotBefore history user m (store.getMemberEvent user)
  joined : store.summary.joinedMemberCount = (store.usersWith .join).card
  invited : store.summary.invitedMemberCount = (store.usersWith .invite).card

section Received

variable {names history} {w : World U N D} {t m : ℕ} {chunk : List (RoomMemberEvent U N)}
  {membership : MembershipState}

lemma countOf_saveMembers_iff (hcounted : membership = .join ∨ membership = .invite)
    (hchunk : (chunk.map RoomMemberEvent.stateKey).Nodup) :
    (saveMembers names w.writes w.store chunk).summary.countOf membership =
        ((saveMembers names w.writes w.store chunk).usersWith membership).card ↔
      ∀ user ∈ w.store.usersWith membership, user ∈ chunk.map RoomMemberEvent.stateKey := by
  set store := saveMembers names w.writes w.store chunk with hstore
  -- The users that are not in the list stay as they are.
  have hothers : ∀ user, user ∉ chunk.map RoomMemberEvent.stateKey →
      (user ∈ store.usersWith membership ↔ user ∈ w.store.usersWith membership) := fun user huser => by
    have hnone : latest chunk user = none := latest_eq_none.2 fun e he hkey => huser (mem_map.2 ⟨e, he, hkey⟩)
    rw [MemoryStore.mem_usersWith, MemoryStore.mem_usersWith, hstore, getMemberEvent_saveMembers,
      hnone, ite_self, Option.none_or]
  rw [countOf_saveMembers names hcounted hchunk, ← hstore, Finset.filter_mem_eq_inter]
  constructor
  · intro hcard user huser
    by_contra hlisted
    have hall := Finset.eq_of_subset_of_card_le Finset.inter_subset_right hcard.ge
    have hmem := hall.ge ((hothers user hlisted).2 huser)
    exact hlisted (mem_toFinset.1 (Finset.mem_inter.1 hmem).1)
  · intro hlisted
    rw [Finset.inter_eq_right.2 fun user huser => ?_]
    by_contra hnot
    rw [mem_toFinset] at hnot
    exact hnot (hlisted user ((hothers user hnot).1 huser))

/-- **A member list and the syncs.** The list is complete for the moment `m`, and its request was
sent before that moment. The members do not go backwards, and are counted, if for every user that a
sync wrote in the meantime the list has nothing newer, and every user that is stored as joined or
invited is in the list. -/
theorem receiveAllMembers_upToDate_iff (hw : Reachable names history w) (hsaving : w.saving = none)
    (hsent : some t ∈ w.guards) (htm : t ≤ m) (hchunk : Complete (history.take m) chunk) :
    ∃ store, receiveAllMembers names w.writes w.store {} chunk = .ok store ∧
      (UpToDate history w.synced m store ↔
        (∀ user ∈ w.writes.users, NotBefore history user m (w.store.getMemberEvent user)) ∧
          ∀ user ∈ w.store.usersWith .join ∪ w.store.usersWith .invite, user ∈ chunk.map RoomMemberEvent.stateKey) := by
  refine ⟨saveMembers names w.writes w.store chunk, by simp [receiveAllMembers], ?_⟩
  have hsynced : ∀ user, NotBefore history user w.synced ((saveMembers names w.writes w.store chunk).getMemberEvent user) :=
    hw.tracked.stored_saveMembers hsaving hsent htm hchunk
  have hjoined := @countOf_saveMembers_iff U N D _ _ names w chunk .join (.inl rfl) hchunk.nodup
  have hinvited := @countOf_saveMembers_iff U N D _ _ names w chunk .invite (.inr rfl) hchunk.nodup
  have hresponse : (∀ user, NotBefore history user m ((saveMembers names w.writes w.store chunk).getMemberEvent user)) ↔
      ∀ user ∈ w.writes.users, NotBefore history user m (w.store.getMemberEvent user) := by
    refine ⟨fun h user huser => ?_, fun h user => ?_⟩
    · have huser' := h user
      rwa [getMemberEvent_saveMembers, if_pos huser, Option.none_or] at huser'
    · rw [getMemberEvent_saveMembers, hchunk.latest_eq]
      split
      · next huser => exact h user huser
      · cases hlatest : latest (history.take m) user with
        | none =>
          -- The user has had no event until `m`, so what is stored is as recent as that.
          refine (hw.tracked.stored user).of_segment fun e he hkey => ?_
          exact latest_eq_none.1 hlatest e (mem_of_mem_drop he) hkey
        | some e => exact ⟨m, le_rfl, by rw [hlatest, Option.some_or]⟩
  constructor
  · intro h
    refine ⟨hresponse.1 h.response, fun user huser => ?_⟩
    rcases Finset.mem_union.1 huser with huser | huser
    · exact hjoined.1 h.joined user huser
    · exact hinvited.1 h.invited user huser
  · rintro ⟨hnewer, hlisted⟩
    exact ⟨hsynced, hresponse.2 hnewer,
      hjoined.2 fun user huser => hlisted user (Finset.mem_union_left _ huser),
      hinvited.2 fun user huser => hlisted user (Finset.mem_union_right _ huser)⟩

end Received

/-! ## Alice joins and leaves while the members are requested -/

section Alice

def bobJoins : RoomMemberEvent ℕ ℕ := ⟨0, 1, 1, .join, none⟩

def aliceJoins : RoomMemberEvent ℕ ℕ := ⟨1, 0, 0, .join, none⟩

def aliceLeaves : RoomMemberEvent ℕ ℕ := ⟨2, 0, 0, .leave, none⟩

def aliceHistory : List (RoomMemberEvent ℕ ℕ) := [bobJoins, aliceJoins, aliceLeaves]

/-- The request is sent when Bob has joined. Then Alice joins, which a sync has handled, and
leaves. -/
def aliceWorld : World ℕ ℕ ℕ where
  now := 3
  synced := 2
  guards := [some 1]
  writes := ⟨1, {0}⟩
  store := receiveSync numberNames (receiveSync numberNames {} [bobJoins] {}) [aliceJoins] {}

lemma aliceWorld_reachable : Reachable numberNames aliceHistory aliceWorld := by
  have h₁ := (@Reachable.init ℕ ℕ ℕ _ _ numberNames aliceHistory).step (.happen _ (by decide))
  have h₂ := (h₁.step (.record _ 1 rfl (by decide) (by decide))).step (.save _ 1 {} rfl)
  have h₃ := (h₂.step (.guard _)).step (.send _ 0 rfl)
  have h₄ := (h₃.step (.happen _ (by decide))).step (.happen _ (by decide))
  exact (h₄.step (.record _ 2 rfl (by decide) (by decide))).step (.save _ 2 {} rfl)

lemma complete_joined : Complete (aliceHistory.take 2) [bobJoins, aliceJoins] := by
  refine ⟨by decide, fun event => ⟨fun h => latest_of_nodup (by decide) h, fun h => ?_⟩⟩
  exact (stateKey_of_latest h).1

/-- The list is that of the moment at which Alice had joined. -/
theorem receiveAllMembers_upToDate_alice :
    ∃ store, receiveAllMembers numberNames aliceWorld.writes aliceWorld.store {}
      [bobJoins, aliceJoins] = .ok store ∧ UpToDate aliceHistory 2 2 store := by
  obtain ⟨store, hstore, hiff⟩ :=
    receiveAllMembers_upToDate_iff aliceWorld_reachable rfl (mem_singleton.2 rfl)
    (show 1 ≤ 2 by decide) complete_joined
  refine ⟨store, hstore, hiff.2 ⟨fun user huser => ?_, by decide⟩⟩
  obtain rfl : user = 0 := by simpa [aliceWorld] using huser
  exact ⟨2, le_rfl, rfl⟩

/-- **A list from before Alice joined counts one member**, and two are stored. **A list from after
Alice left** does not change that Alice is stored as joined. -/
theorem receiveAllMembers_forgets_alice :
    Reachable numberNames aliceHistory aliceWorld ∧
      (∃ store, receiveAllMembers numberNames aliceWorld.writes aliceWorld.store {} [bobJoins] = .ok store ∧
        store.summary.joinedMemberCount = 1 ∧ (store.usersWith .join).card = 2) ∧
      ∃ store, receiveAllMembers numberNames aliceWorld.writes aliceWorld.store {}
        [bobJoins, aliceLeaves] = .ok store ∧
        store.getMemberEvent 0 = some aliceJoins ∧ latest (aliceHistory.take 3) 0 = some aliceLeaves :=
  ⟨aliceWorld_reachable, ⟨_, rfl, rfl, rfl⟩, _, rfl, rfl, rfl⟩

end Alice

end HaranaMatrix.Base
