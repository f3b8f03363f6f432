import HaranaMatrix.Crypto.GroupSessions

/-!
# Rotation after a device lost its right to the key

A session remembers every device that was sent its key, as long as no notice that is marked as sent
takes the place of the entry of such a device. Then a call for which one of them is not a recipient
uses a new session. -/

namespace HaranaMatrix.Crypto

open List IndexMap GroupSessionManager ShareInfoSet

/-! ## What a session remembers of a device -/

/-- The key was shared with the device with these IDs, in a request that was sent or is pending. -/
def OutboundGroupSession.HasShared (session : OutboundGroupSession) (k : UserId × DeviceId) : Prop :=
  (∃ info, get session.sharedWithSet k = some info ∧ info.isShared) ∨
    ∃ r ∈ session.toShareWithSet, ∃ e ∈ r.2, e.1 = k ∧ e.2.isShared

variable {session : OutboundGroupSession} {k : UserId × DeviceId} {facts : List Fact}

lemma OutboundGroupSession.HasShared.mem_iterShares
    (h : session.HasShared k) : ∃ e ∈ session.iterShares, e.1 = k ∧ e.2.isShared := by
  rcases h with ⟨info, hinfo, hshared⟩ | ⟨r, hr, e, he, hk, hshared⟩
  · exact ⟨_, mem_append_left _ (mem_of_get hinfo), rfl, hshared⟩
  · exact ⟨e, mem_append_right _ (mem_flatMap.2 ⟨r, hr, he⟩), hk, hshared⟩

lemma ShareInfoSet.get_extend_shared {set infos : ShareInfoSet} (hinfos : ∀ e ∈ infos, e.1 = k → e.2.isShared)
    (h : (∃ info, get set k = some info ∧ info.isShared) ∨ ∃ e ∈ infos, e.1 = k) :
    ∃ info, get (set.extend infos) k = some info ∧ info.isShared := by
  induction infos generalizing set with
  | nil => exact h.resolve_right (by simp)
  | cons e infos ih =>
    refine ih (fun e' he' => hinfos e' (mem_cons_of_mem _ he')) ?_
    by_cases hk : e.1 = k
    · refine .inl ⟨e.2, ?_, hinfos e mem_cons_self hk⟩
      rw [← hk, get_insert_self]
    · rcases h with hset | ⟨e', he', hk'⟩
      · rw [get_insert_ne _ _ (Ne.symm hk)]
        exact .inl hset
      · rcases mem_cons.1 he' with rfl | he'
        · exact absurd hk' hk
        · exact .inr ⟨e', he', hk'⟩

/-- The entries of one kind: a request has the key for its devices, or notices. -/
def Uniform (infos : ShareInfoSet) : Prop :=
    (∀ e ∈ infos, e.2.isShared = true) ∨ ∀ e ∈ infos, e.2.isShared = false

/-- The session remembers each device that was sent its key; `n` is the next request. -/
structure Recorded (n : RequestId) (history : List Fact) (session : OutboundGroupSession) : Prop where
  fresh : ∀ r ∈ session.toShareWithSet, r.1 < n
  nodup : (session.toShareWithSet.map Prod.fst).Nodup
  uniform : ∀ r ∈ session.toShareWithSet, Uniform r.2
  complete : ∀ d, .keySent session.sessionId d ∈ history → session.HasShared (d.userId, d.deviceId)

section Session

variable {n : RequestId} {history : List Fact} {session : OutboundGroupSession} {infos : ShareInfoSet}

section

variable (h : Recorded n history session)
include h

lemma Recorded.append
    (hfacts : ∀ d, .keySent session.sessionId d ∈ facts → session.HasShared (d.userId, d.deviceId)) :
    Recorded n (history ++ facts) session where
  __ := h
  complete d hd := (mem_append.1 hd).elim (h.complete d) (hfacts d)

lemma Recorded.succ : Recorded (n + 1) history session where
  __ := h
  fresh r hr := (h.fresh r hr).trans (Nat.lt_succ_self n)

lemma Recorded.toShareWithSet_addRequest (infos : ShareInfoSet) :
    (session.addRequest n infos).toShareWithSet = session.toShareWithSet ++ [(n, infos)] :=
  insert_eq_append _ fun r hr => (h.fresh r hr).ne

lemma Recorded.addRequest (hinfos : Uniform infos) :
    Recorded (n + 1) history (session.addRequest n infos) := by
  have hmem : ∀ r ∈ (session.addRequest n infos).toShareWithSet, r ∈ session.toShareWithSet ∨
    r = (n, infos) := by
    intro r hr
    simpa [h.toShareWithSet_addRequest] using hr
  refine ⟨fun r hr => ?_, nodup_insert h.nodup _ _, fun r hr => ?_, fun d hd => ?_⟩
  · rcases hmem r hr with hr | rfl
    · exact (h.fresh r hr).trans (Nat.lt_succ_self n)
    · exact Nat.lt_succ_self n
  · rcases hmem r hr with hr | rfl
    · exact h.uniform r hr
    · exact hinfos
  · refine (h.complete d hd).imp_right ?_
    rintro ⟨r, hr, he⟩
    refine ⟨r, ?_, he⟩
    rw [h.toShareWithSet_addRequest]
    exact mem_append_left _ hr

end

/-- No notice of the request takes the place of a shared key. -/
def OutboundGroupSession.KeepsShares (session : OutboundGroupSession) (requestId : RequestId) : Prop :=
  ∀ infos, get session.toShareWithSet requestId = some infos → ∀ e ∈ infos, e.2.isShared = false →
    ∀ info, get session.sharedWithSet e.1 = some info → info.isShared = false

lemma Recorded.markRequestAsSent (h : Recorded n history session) {requestId : RequestId}
    (hkeeps : session.KeepsShares requestId) : Recorded n history (session.markRequestAsSent requestId) := by
  unfold OutboundGroupSession.markRequestAsSent
  split
  · next infos hinfos =>
    refine ⟨fun r hr => h.fresh r (mem_of_mem_filter hr), ?_, fun r hr => h.uniform r (mem_of_mem_filter hr),
      fun d hd => ?_⟩
    · exact h.nodup.sublist (filter_sublist.map _)
    -- The entry is in the set, or in the request that was sent, or in another one.
    rcases h.complete d hd with hset | ⟨r, hr, e, he, hk, hshared⟩
    · refine .inl (get_extend_shared (fun e he hk => ?_) (.inl hset))
      obtain ⟨info, hinfo, hshared⟩ := hset
      by_contra hne
      rw [← hk] at hinfo
      simp [hkeeps infos hinfos e he (Bool.eq_false_of_not_eq_true hne) info hinfo] at hshared
    · by_cases hid : r.1 = requestId
      · obtain rfl : r.2 = infos := by
          have hget := get_of_mem h.nodup hr
          rw [hid] at hget
          exact Option.some.inj (hget.symm.trans hinfos)
        refine .inl (get_extend_shared (fun e' he' _ => ?_) (.inr ⟨e, he, hk⟩))
        rcases h.uniform r hr with hall | hall
        · exact hall e' he'
        · simp [hall e he] at hshared
      · exact .inr ⟨r, mem_filter.2 ⟨hr, by simpa using hid⟩, e, he, hk, hshared⟩
  · exact h

end Session

/-! ## All sessions -/

namespace GroupSessionManager

/-- Every session remembers the devices; the copy in the store may be behind for the session
`behind`. -/
structure Kept (behind : Option SessionId) (m : GroupSessionManager) : Prop where
  sessionId : ∀ id, (m.objects id).sessionId = id
  objects : ∀ id, Recorded m.nextRequestId m.history (m.objects id)
  stored : ∀ session ∈ m.storedOutbound, behind ≠ some session.sessionId →
    Recorded m.nextRequestId m.history session
  sent_lt : ∀ id d, .keySent id d ∈ m.history → id < m.nextSessionId
  cached_lt : ∀ id ∈ m.cached, id < m.nextSessionId
  stored_lt : ∀ session ∈ m.storedOutbound, session.sessionId < m.nextSessionId
  beingShared_lt : ∀ r ∈ m.beingShared, r.2 < m.nextSessionId

lemma Kept.new : Kept none new where
  sessionId _ := rfl
  objects _ := ⟨nofun, nodup_nil, nofun, nofun⟩
  stored := nofun
  sent_lt := nofun
  cached_lt := nofun
  stored_lt := nofun
  beingShared_lt := nofun

section Steps

variable {m t : GroupSessionManager} {id : SessionId} {call : Call} {sigs : Signatures}
  {behind : Option SessionId}

lemma Kept.setObject (hm : Kept behind m) (hid : session.sessionId = id)
    (h : Recorded m.nextRequestId m.history session) : Kept behind (m.setObject id session) where
  __ := hm
  sessionId := forall_setObject (fun id s => s.sessionId = id) hm.sessionId hid
  objects := forall_setObject (fun _ => Recorded m.nextRequestId m.history) hm.objects h

lemma Kept.loaded (hm : Kept none m) (h : Loaded m t) : Kept none t := by
  rcases h with rfl | ⟨session, -, hsession, rfl⟩
  · exact hm
  · have hlt := hm.stored_lt session hsession
    have hset := hm.setObject rfl (hm.stored session hsession nofun)
    refine ⟨hset.sessionId, hset.objects, hset.stored, hset.sent_lt, ?_, hset.stored_lt, fun r hr => ?_⟩
    · rintro id ⟨⟩
      exact hlt
    · rcases mem_of_mem_restored hr with hr | hr
      · exact hm.beingShared_lt r hr
      · rwa [hr]

lemma Kept.created (hm : Kept behind m) (settings : EncryptionSettings) :
    Kept behind (m.created settings) := by
  have hnew : Recorded m.nextRequestId m.history (.new m.nextSessionId settings) :=
    ⟨nofun, nodup_nil, nofun, fun d hd => absurd (hm.sent_lt _ d hd) (lt_irrefl _)⟩
  have hset := hm.setObject rfl hnew
  have hlt : ∀ {id}, id < m.nextSessionId → id < m.nextSessionId + 1 := fun h => h.trans (Nat.lt_succ_self _)
  refine ⟨hset.sessionId, hset.objects, hset.stored, fun id d hd => hlt (hm.sent_lt id d hd), ?_,
    fun s hs => hlt (hm.stored_lt s hs), fun r hr => hlt (hm.beingShared_lt r hr)⟩
  rintro id ⟨⟩
  exact Nat.lt_succ_self _

lemma Kept.requested (hm : Kept behind m) {infos : ShareInfoSet} (hinfos : Uniform infos)
    (hid : id < m.nextSessionId) :
    Kept behind (m.requested id infos) where
  __ := hm
  sessionId := forall_setObject (fun id s => s.sessionId = id) hm.sessionId (hm.sessionId id)
  objects := forall_setObject (fun _ => Recorded (m.nextRequestId + 1) m.history) (fun id' => (hm.objects id').succ) ((hm.objects id).addRequest hinfos)
  stored session hsession hbehind := (hm.stored session hsession hbehind).succ
  beingShared_lt r hr := by
    rcases mem_insert hr with rfl | hr
    · exact hid
    · exact hm.beingShared_lt r hr

lemma Kept.history (hm : Kept behind m) (h : ∀ id d, .keySent id d ∈ facts →
    behind = some id ∧ id < m.nextSessionId ∧
      (m.objects id).HasShared (d.userId, d.deviceId)) : Kept behind { m with history := m.history ++ facts } where
  __ := hm
  objects id := (hm.objects id).append fun d hd => (hm.sessionId id ▸ (h _ d hd).2.2 :)
  stored session hsession hbehind :=
    (hm.stored session hsession hbehind).append fun d hd => absurd (h _ d hd).1 hbehind
  sent_lt id d hd := (mem_append.1 hd).elim (hm.sent_lt id d) fun hd => (h id d hd).2.1

variable {chunk : List DeviceData} {changes : Changes}

lemma Kept.saved (hm : Kept behind m)
    (hbehind : ∀ id, behind = some id → changes.outboundGroupSessions.getLast? = some id)
    (hlt : ∀ id ∈ changes.outboundGroupSessions, id < m.nextSessionId) : Kept none (m.saved changes) where
  __ := hm
  stored session hsession _ := by
    rcases Option.or_eq_some_iff.1 hsession with hlast | ⟨hnone, hstored⟩
    · obtain ⟨id, -, rfl⟩ := Option.map_eq_some_iff.1 hlast
      exact hm.objects id
    · refine hm.stored session hstored fun heq => ?_
      simp [hbehind _ heq] at hnone
  stored_lt session hsession := by
    rcases Option.or_eq_some_iff.1 hsession with hlast | ⟨-, hstored⟩
    · obtain ⟨id, hid, rfl⟩ := Option.map_eq_some_iff.1 hlast
      have := hlt id (mem_of_getLast? hid)
      rwa [← hm.sessionId id] at this
    · exact hm.stored_lt session hstored

lemma Kept.toBehind (hm : Kept none m) (behind : Option SessionId) : Kept behind m :=
  ⟨hm.sessionId, hm.objects, fun s hs _ => hm.stored s hs nofun, hm.sent_lt, hm.cached_lt,
    hm.stored_lt, hm.beingShared_lt⟩

/-! ### Sharing -/

/-- While the session `id` is shared with `devices`, since the state `m₀`. -/
structure KeptFor (behind : Option SessionId) (id : SessionId) (devices : List DeviceData)
    (m₀ m : GroupSessionManager) :
    Prop where
  kept : Kept behind m
  cached : m.cached = some id
  mono : m₀.nextSessionId ≤ m.nextSessionId
  sent : ∀ id' d, .keySent id' d ∈ m.history → .keySent id' d ∈ m₀.history ∨ id' = id ∧ d ∈ devices

variable {devices : List DeviceData} {m₀ : GroupSessionManager}

section

variable (hm : KeptFor behind id devices m₀ m)
include hm

lemma KeptFor.lt : id < m.nextSessionId := hm.kept.cached_lt id hm.cached

lemma KeptFor.requested {infos : ShareInfoSet} (hinfos : Uniform infos) :
    KeptFor behind id devices m₀ (m.requested id infos) :=
  ⟨hm.kept.requested hinfos hm.lt, hm.cached, hm.mono, hm.sent⟩

lemma KeptFor.history (h : ∀ id d, .keySent id d ∉ facts) :
    KeptFor behind id devices m₀ { m with history := m.history ++ facts } where
  __ := hm
  kept := hm.kept.history fun id d hd => absurd hd (h id d)
  sent id' d hd := (mem_append.1 hd).elim (hm.sent id' d) fun hd => absurd hd (h id' d)

end

lemma isShared_of_sharedEntry {i : ℕ} {e : (UserId × DeviceId) × ShareInfo}
    (he : e ∈ chunk.filterMap (sharedEntry call i)) : e.2.isShared := by
  obtain ⟨d, -, hentry⟩ := mem_filterMap.1 he
  obtain ⟨key, -, rfl⟩ := Option.map_eq_some_iff.1 hentry
  rfl

lemma uniform_shared (call : Call) (i : ℕ) (chunk : List DeviceData) :
    Uniform (extend [] (chunk.filterMap (sharedEntry call i))) :=
  .inl fun _ he => (mem_extend he).elim nofun isShared_of_sharedEntry

lemma uniform_withheld (i : ℕ) (chunk : List (DeviceData × WithheldCode)) :
    Uniform (extend [] (chunk.map (withheldEntry i))) := by
  refine .inr fun e he => ?_
  rcases mem_extend he with he | he
  · cases he
  · obtain ⟨p, -, rfl⟩ := mem_map.1 he
    rfl

lemma exists_entry {i : ℕ} {d : DeviceData} (hd : d ∈ chunk) (hkey : (Call.olmKey call d).isSome) :
    ∃ e ∈ extend [] (chunk.filterMap (sharedEntry call i)), e.1 = (d.userId, d.deviceId) ∧ e.2.isShared := by
  obtain ⟨key, hkey⟩ := Option.isSome_iff_exists.1 hkey
  have hmem : ((d.userId, d.deviceId),
    .shared ⟨key, i, d.olmWedgingIndex⟩) ∈ chunk.filterMap (sharedEntry call i) :=
    mem_filterMap.2 ⟨d, hd, by simp [sharedEntry, hkey]⟩
  have hget : ∃ info, get (extend [] (chunk.filterMap (sharedEntry call i))) (d.userId, d.deviceId) =
      some info ∧ info.isShared :=
    get_extend_shared (fun e he _ => isShared_of_sharedEntry he) (.inr ⟨_, hmem, rfl⟩)
  obtain ⟨info, hinfo, hshared⟩ := hget
  exact ⟨_, mem_of_get hinfo, rfl, hshared⟩

lemma mem_sent {id' : SessionId} {d : DeviceData} {p : DeviceData → Bool}
    (h : .keySent id' d ∈ (chunk.filter p).map (Fact.keySent id)) : id' = id ∧ d ∈ chunk ∧ p d := by
  obtain ⟨d', hd', heq⟩ := mem_map.1 h
  obtain ⟨rfl, rfl⟩ := Fact.keySent.inj heq
  exact ⟨rfl, mem_filter.1 hd'⟩

section

variable (hm : KeptFor behind id devices m₀ m)
include hm

lemma KeptFor.encryptRequest (hbehind : devices ≠ [] → behind = some id)
    (hchunk : ∀ d ∈ chunk, d ∈ devices) (hfails : ∀ d, call.failures.encrypt d = false) :
    Ensures (GroupSessionManager.encryptRequest call id chunk) m (fun _ => KeptFor behind id devices m₀) fun _ => False := by
  refine .get_bind ?_
  dsimp only
  rw [if_neg (by simp [hfails])]
  split
  · exact .ret hm
  refine .update_bind (.update_bind (.ret ?_))
  set infos := extend [] (chunk.filterMap (sharedEntry call (m.objects id).messageCount)) with hinfos
  have hrequested := hm.requested (uniform_shared call (m.objects id).messageCount chunk)
  refine ⟨hrequested.kept.history fun id' d hd => ?_, hm.cached, hm.mono, fun id' d hd => ?_⟩
  · obtain ⟨rfl, hd, hkey⟩ := mem_sent hd
    refine ⟨hbehind (ne_nil_of_mem (hchunk d hd)), hrequested.lt, .inr ⟨(m.nextRequestId, infos), ?_, ?_⟩⟩
    · have hset := (hm.kept.objects id').toShareWithSet_addRequest infos
      simp [GroupSessionManager.requested, GroupSessionManager.setObject, ← hinfos, hset]
    · exact exists_entry hd hkey
  · rcases mem_append.1 hd with hd | hd
    · exact hm.sent id' d hd
    · obtain ⟨rfl, hd, -⟩ := mem_sent hd
      exact .inr ⟨rfl, hchunk d hd⟩

lemma KeptFor.encryptForDevices (hbehind : devices ≠ [] → behind = some id)
    (hfails : ∀ d, call.failures.encrypt d = false) :
    Ensures (encryptForDevices call id devices) m (fun _ => KeptFor behind id devices m₀) fun _ => False := by
  refine (encryptForDevices_ensures (P := fun _ => True) (F := False) (fun chunk hchunk s hs => ?_)
    (hm.history (by simp))).mono (fun _ _ ht => ht.2) fun _ ht => ht.2
  exact (hs.encryptRequest hbehind hchunk hfails).mono (fun _ _ ht => ⟨fun _ _ => trivial, ht⟩) nofun

lemma KeptFor.handleWithheldDevices (withheld : List (DeviceData × WithheldCode)) :
    Ensures (handleWithheldDevices call id withheld) m (fun _ => KeptFor behind id devices m₀) fun _ => False := by
  refine .get_bind (.loop (fun chunk _ s hs => .update_bind (.update ?_)) hm)
  exact (hs.history (by simp)).requested (uniform_withheld _ _)

end

lemma Kept.setShared (hm : Kept behind m) (session : OutboundGroupSession) (hid : session.sessionId = id)
    (hset : session.sharedWithSet = (m.objects id).sharedWithSet)
    (htoShare : session.toShareWithSet = (m.objects id).toShareWithSet) :
      Kept behind (m.setObject id session) := by
  have hobject := hm.objects id
  refine hm.setObject hid ⟨?_, ?_, ?_, ?_⟩
  · rw [htoShare]
    exact hobject.fresh
  · rw [htoShare]
    exact hobject.nodup
  · rw [htoShare]
    exact hobject.uniform
  · unfold OutboundGroupSession.HasShared
    rw [hid, hset, htoShare]
    have hcomplete := hobject.complete
    rwa [hm.sessionId id] at hcomplete

lemma KeptFor.markIfShared (hm : KeptFor behind id devices m₀ m) (changes : Changes) :
    Ensures (markIfShared id changes) m
      (fun changes' t => KeptFor behind id devices m₀ t ∧
        (changes'.outboundGroupSessions = changes.outboundGroupSessions ∨
          changes'.outboundGroupSessions = changes.outboundGroupSessions ++ [id]))
      fun _ => False := by
  refine .get_bind ?_
  split
  · refine .update_bind (.ret ⟨⟨?_, hm.cached, hm.mono, hm.sent⟩, .inr rfl⟩)
    exact hm.kept.setShared _ (hm.kept.sessionId id) rfl rfl
  · exact .ret ⟨hm, .inl rfl⟩

/-! ### The call -/

/-- A recipient of the call, whatever the session. -/
def Allowed (sigs : Signatures) (call : Call) (d : DeviceData) : Prop :=
  ∃ outbound result, collectRecipientsForShareStrategy sigs call.store call.settings.sharingStrategy outbound call.users =
    .ok result ∧ result.Allows d

lemma allowed_of_mem {session session' : OutboundGroupSession} {result : CollectRecipientsResult}
    (h : collectSessionRecipients sigs call.store call.users call.settings session = .ok result)
    {d : DeviceData} (hd : d ∈ devicesToShareWith session' result) : Allowed sigs call d := by
  obtain ⟨collected, hcollected, rfl⟩ := collectSessionRecipients_ok h
  obtain ⟨entry, hentry, hd⟩ := mem_flatMap.1 (mem_of_mem_filter hd)
  exact ⟨_, _, hcollected, entry, hentry, hd⟩

/-- **A session that need not be rotated was only shared with recipients**, as far as their IDs
tell. -/
lemma exists_allowed_of_not_rotate {result : CollectRecipientsResult}
    (h : collectSessionRecipients sigs call.store call.users call.settings session = .ok result)
    (hrotate : result.shouldRotate = false) (hk : session.HasShared k) :
    ∃ d, Allowed sigs call d ∧ (d.userId, d.deviceId) = k := by
  obtain ⟨collected, hcollected, rfl⟩ := collectSessionRecipients_ok h
  obtain ⟨e, he, rfl, hshared⟩ := hk.mem_iterShares
  have hrotate : collected.shouldRotate = false := by
    simp only [Bool.or_eq_false_iff] at hrotate
    exact hrotate.1.1
  rw [(collect_ok hcollected).2] at hrotate
  obtain ⟨hleft, hover⟩ := Bool.or_eq_false_iff.1 hrotate
  have huser : e.1.1 ∈ call.users := by
    by_contra hne
    have hleft' : hasLeftUsers (some session) call.users = true := by
      refine any_eq_true.2 ⟨e.1.1, mem_map.2 ⟨e, mem_filter.2 ⟨he, hshared⟩, rfl⟩, ?_⟩
      simpa using hne
    simp [hleft'] at hleft
  have hover := any_eq_false.1 hover e.1.1 (mem_dedup.2 huser)
  obtain ⟨d, hd, hid⟩ : ∃ d ∈ (splitForUser sigs call.store call.settings.sharingStrategy e.1.1).allowedDevices,
      d.deviceId = e.1.2 := by
    by_contra hne
    refine hover (any_eq_true.2 ⟨e, he, ?_⟩)
    simpa [hshared] using hne
  have hallows : collected.Allows d := by
    rw [(collect_ok hcollected).2]
    exact ⟨_, mem_map_of_mem (mem_dedup.2 huser), hd⟩
  refine ⟨d, ⟨_, _, hcollected, hallows⟩, Prod.ext ?_ hid⟩
  exact userId_of_mem (mem_of_mem_filter hd)

/-- The session that is in use after a call: a new one, or one that need not be rotated. -/
structure Chosen (sigs : Signatures) (call : Call) (m : GroupSessionManager) (id : SessionId)
    (t : GroupSessionManager) :
    Prop where
  kept : Kept none t
  cached : t.cached = some id
  choice : m.nextSessionId ≤ id ∨ ∃ session result, m.sessionFound call.failures.load = some session ∧
    session.sessionId = id ∧ result.shouldRotate = false ∧
      collectSessionRecipients sigs call.store call.users call.settings session = .ok result
  sent : ∀ id' d, .keySent id' d ∈ t.history → .keySent id' d ∈ m.history ∨ Allowed sigs call d

section Call

variable (hm : Kept none m) (hfails : ∀ d, call.failures.encrypt d = false)
  (hsave : call.failures.save = false)
  (hcached : m.cached = some id) (hchanges : ∀ o ∈ changes.outboundGroupSessions, o < m.nextSessionId)
include hm hfails hsave hcached hchanges

lemma KeptFor.shareWith (result : CollectRecipientsResult) :
    Ensures (shareWith call result id changes) m
      (fun _ => KeptFor none id (devicesToShareWith (m.objects id) result) m) fun _ => False := by
  refine .get_bind ?_
  set devices := devicesToShareWith (m.objects id) result with hdevices
  set changes' : Changes := if devices = [] then changes else { changes with outboundGroupSessions := [id] } with hchanges'
  -- The copy in the store is behind while there is a device to share with; then the session is among the changes.
  set behind : Option SessionId := if devices = [] then none else some id with hbehind
  have hout : ∀ id', behind = some id' → changes'.outboundGroupSessions = [id'] := by
    intro id' h
    by_cases hnil : devices = []
    · simp [hbehind, hnil] at h
    · obtain rfl : id = id' := by simpa [hbehind, hnil] using h
      rw [hchanges', if_neg hnil]
  have hlt : ∀ o ∈ changes'.outboundGroupSessions, o < m.nextSessionId := by
    rw [hchanges']
    split
    · exact hchanges
    · intro o ho
      rw [mem_singleton.1 ho]
      exact hm.cached_lt id hcached
  have hstart : KeptFor behind id devices m m := ⟨hm.toBehind _, hcached, le_rfl, fun _ _ hd => .inl hd⟩
  refine (hstart.encryptForDevices (fun hne => if_neg hne) hfails).bind fun unable t ht => ?_
  refine (ht.handleWithheldDevices _).bind fun _ u hu => (hu.markIfShared _).bind fun changes'' v hv => ?_
  obtain ⟨hv, hout'⟩ := hv
  replace hout' : changes''.outboundGroupSessions = changes'.outboundGroupSessions ∨
    changes''.outboundGroupSessions = changes'.outboundGroupSessions ++ [id] := hout'
  split
  · next hempty =>
    have hnil : changes''.outboundGroupSessions = [] := isEmpty_iff.1 (Bool.and_eq_true_iff.1 hempty).2
    have hnone : behind = none := by
      refine Option.eq_none_iff_forall_ne_some.2 fun id' h => ?_
      rcases hout' with hout' | hout' <;> simp [hout', hout id' h] at hnil
    rw [hnone] at hv
    exact .get_bind (.ret hv)
  · refine (saveChanges_ensures v _ _).bindTo (fun w hw => ?_) fun _ w hw => ?_
    · simp [hsave] at hw
    subst hw
    refine .get_bind (.ret ⟨hv.kept.saved (fun id' h => ?_) fun o ho => ?_, hv.cached, hv.mono, hv.sent⟩)
    · have hid : id = id' := by
        by_cases hnil : devices = []
        · simp [hbehind, hnil] at h
        · simpa [hbehind, hnil] using h
      rcases hout' with hout' | hout' <;> simp [hout', hout id' h, hid]
    · rcases hout' with hout' | hout' <;> rw [hout'] at ho
      · exact (hlt o ho).trans_le hv.mono
      · rcases mem_append.1 ho with ho | ho
        · exact (hlt o ho).trans_le hv.mono
        · rw [mem_singleton.1 ho]
          exact hv.lt

lemma Kept.proceed : Ensures (do
      let result ← collectRecipients sigs call id
      let (outbound, changes) ← maybeRotateGroupSession call result.shouldRotate id changes
      shareWith call result outbound changes) m
      (fun _ t => ∃ id', Kept none t ∧ t.cached = some id' ∧
        (m.nextSessionId ≤ id' ∨ id' = id ∧ ∃ result, result.shouldRotate = false ∧
          collectSessionRecipients sigs call.store call.users call.settings (m.objects id) = .ok result) ∧
        ∀ id' d, .keySent id' d ∈ t.history → .keySent id' d ∈ m.history ∨ Allowed sigs call d)
      (Kept none) := by
  refine (collectRecipients_ensures sigs call id m).bindTo (fun t ht => ht.1 ▸ hm) fun result t ht => ?_
  obtain ⟨rfl, hresult⟩ := ht
  refine (maybeRotateGroupSession_ensures t call _ _ _).bindTo (fun u hu => ?_) fun p u hu => ?_
  · obtain ⟨-, ⟨rfl, -⟩ | ⟨rfl, -⟩⟩ := hu
    · exact hm
    · exact hm.created _
  rcases hu with ⟨hrotate, rfl, rfl⟩ | ⟨-, rfl, rfl⟩
  · refine (KeptFor.shareWith hm hfails hsave hcached hchanges result).mono (fun _ v hv => ?_) nofun
    refine ⟨id, hv.kept, hv.cached, .inr ⟨rfl, result, hrotate, hresult⟩, fun id' d hd => ?_⟩
    exact (hv.sent id' d hd).imp_right fun hd => allowed_of_mem hresult hd.2
  · have hchanges' : ∀ o ∈ (withSession changes t.nextSessionId).outboundGroupSessions,
        o < (t.created call.settings).nextSessionId := by
      intro o ho
      rcases mem_append.1 ho with ho | ho
      · exact (hchanges o ho).trans (Nat.lt_succ_self _)
      · rw [mem_singleton.1 ho]
        exact Nat.lt_succ_self _
    refine (KeptFor.shareWith (hm.created _) hfails hsave rfl hchanges' result).mono (fun _ v hv => ?_) nofun
    refine ⟨t.nextSessionId, hv.kept, hv.cached, .inl le_rfl, fun id' d hd => ?_⟩
    exact (hv.sent id' d hd).imp_right fun hd => allowed_of_mem hresult hd.2

omit hcached hchanges in
lemma Kept.shareRoomKey :
    Ensures (shareRoomKey sigs call) m (fun _ t => ∃ id, Chosen sigs call m id t) (Kept none) := by
  unfold GroupSessionManager.shareRoomKey
  split
  · exact .fail hm
  refine (getOrCreateOutboundSession_ensures m call).bindTo (fun t ht => hm.loaded ht) fun p t ht => ?_
  obtain ⟨id, created⟩ := p
  cases created with
  | false =>
    obtain ⟨hloaded, hfound⟩ := ht.found rfl
    have hkept := hm.loaded hloaded
    refine (sessionChanges_ensures t call id false).bindTo nofun fun changes v hv => ?_
    obtain ⟨rfl, rfl⟩ := hv
    refine (hkept.proceed hfails hsave ht.cached (by simp)).mono (fun _ w hw => ?_) fun _ h => h
    obtain ⟨id', hw, hcached, hchoice, hsent⟩ := hw
    rw [hloaded.nextSessionId] at hchoice
    rw [hloaded.history] at hsent
    refine ⟨id', hw, hcached, hchoice.imp_right ?_, hsent⟩
    rintro ⟨rfl, result, hrotate, hresult⟩
    exact ⟨_, result, hfound, hkept.sessionId id', hrotate, hresult⟩
  | true =>
    obtain ⟨-, -, u, hloaded, rfl, rfl⟩ := ht.unusable rfl
    have hkept := (hm.loaded hloaded).created call.settings
    refine (sessionChanges_ensures _ call _ true).bindTo (fun v hv => hv.1 ▸ hkept) fun changes v hv => ?_
    obtain ⟨rfl, rfl⟩ := hv
    have hchanges : ∀ o ∈ [u.nextSessionId], o < (u.created call.settings).nextSessionId := by
      intro o ho
      rw [mem_singleton.1 ho]
      exact Nat.lt_succ_self _
    refine (hkept.proceed hfails hsave ht.cached hchanges).mono (fun _ w hw => ?_) fun _ h => h
    obtain ⟨id', hw, hcached, hchoice, hsent⟩ := hw
    refine ⟨id', hw, hcached, .inl ?_, fun id d hd => hloaded.history ▸ hsent id d hd⟩
    rw [← hloaded.nextSessionId]
    rcases hchoice with hle | ⟨rfl, -⟩
    · exact (Nat.le_succ _).trans hle
    · exact le_rfl

end Call

/-! ### Everything else -/

lemma Kept.save (hm : Kept none m) (hid : id < m.nextSessionId) : Kept none (m.saved ⟨[id], []⟩) := by
  refine hm.saved nofun fun o ho => ?_
  rwa [mem_singleton.1 ho]

/-- The condition on a request that is marked as sent, in the state before. -/
def KeepsShares (m : GroupSessionManager) (requestId : RequestId) : Prop :=
  ∀ id ∈ get m.beingShared requestId, (m.objects id).KeepsShares requestId

lemma Kept.answered (hm : Kept none m) {requestId : RequestId}
    (hkeeps : (m.objects id).KeepsShares requestId) :
    Kept none (m.answered requestId id) := by
  have hset := hm.setObject (((m.objects id).sessionId_markRequestAsSent requestId).trans (hm.sessionId id))
    ((hm.objects id).markRequestAsSent hkeeps)
  exact { hset with beingShared_lt := fun r hr => hm.beingShared_lt r (mem_of_mem_filter hr) }

lemma Kept.upkeep : Upkeep (Kept none) where
  loaded := Kept.loaded
  restart hm := ⟨hm.sessionId, hm.objects, hm.stored, hm.sent_lt, nofun, hm.stored_lt, nofun⟩
  changed {m id} n b hm hcached := by
    have hset := hm.setShared { m.objects id with messageCount := n, invalidated := b } (hm.sessionId _) rfl rfl
    exact ⟨hset, hset.save (hm.cached_lt _ hcached)⟩

/-- The condition on a step: a call can encrypt, if there is an Olm session, and save, and no notice
that is marked as sent takes the place of a shared key. -/
def Action.KeepsShares (m : GroupSessionManager) : Action → Prop
  | .shareRoomKey call => (∀ d, call.failures.encrypt d = false) ∧ call.failures.save = false
  | .markRequestAsSent _ requestId => m.KeepsShares requestId
  | _ => True

def RunKeepsShares (sigs : Signatures) (m : GroupSessionManager) : List Action → Prop
  | [] => True
  | action :: actions => action.KeepsShares m ∧ RunKeepsShares sigs (m.step sigs action) actions

lemma Kept.step (hm : Kept none m) {action : Action} (h : action.KeepsShares m) :
    Kept none (m.step sigs action) := by
  refine Kept.upkeep.step hm ?_ ?_
  · rintro call rfl
    refine Ensures.finalState ((hm.shareRoomKey h.1 h.2).mono ?_ fun _ ht => ht)
    rintro _ t ⟨id, ht⟩
    exact ht.kept
  · rintro saveFails requestId rfl id hid
    have hset := hm.answered (h id hid)
    exact ⟨hset, hset.save (hm.beingShared_lt _ (mem_of_get hid))⟩

lemma Kept.run (hm : Kept none m) {actions : List Action} (h : RunKeepsShares sigs m actions) :
    Kept none (m.run sigs actions) := by
  induction actions generalizing m with
  | nil => exact hm
  | cons action actions ih => exact ih (hm.step h.1) h.2

/-! ### Who gets a key at all -/

/-- Keys were only sent to devices that pass `P`. -/
def SentOnlyTo (P : DeviceData → Prop) (m : GroupSessionManager) : Prop :=
    ∀ id d, .keySent id d ∈ m.history → P d

section Sent

variable {P : DeviceData → Prop} {result : CollectRecipientsResult} (h : SentOnlyTo P m)
include h

lemma SentOnlyTo.record (hfacts : ∀ id d, .keySent id d ∈ facts → P d) :
    SentOnlyTo P { m with history := m.history ++ facts } := fun id d hd =>
  (mem_append.1 hd).elim (h id d) (hfacts id d)

lemma SentOnlyTo.encryptForDevices (hdevices : ∀ d ∈ devices, P d) :
    Ensures (encryptForDevices call id devices) m (fun _ => SentOnlyTo P) (SentOnlyTo P) := by
  refine (encryptForDevices_ensures (P := fun _ => True) (F := True) (fun chunk hchunk s hs => .get_bind ?_)
    (h.record (by simp))).mono (fun _ _ ht => ht.2) fun _ ht => ht.1
  dsimp only
  split
  · exact .fail ⟨hs, trivial⟩
  split
  · exact .ret ⟨fun _ _ => trivial, hs⟩
  refine .update_bind (.update_bind (.ret ⟨fun _ _ => trivial, ?_⟩))
  refine SentOnlyTo.record (m := s.requested id _) hs fun id' d hd => ?_
  exact hdevices d (hchunk d (mem_sent hd).2.1)

lemma SentOnlyTo.shareWith (changes : Changes)
    (hresult : ∀ session, ∀ d ∈ devicesToShareWith session result, P d) :
    Ensures (shareWith call result id changes) m (fun _ => SentOnlyTo P) (SentOnlyTo P) := by
  refine shareWith_ensures changes (h.encryptForDevices (hresult _)) (fun ht => ?_) (fun ht => ht) fun _ ht => ht
  exact .get_bind (.loop (fun chunk _ s hs => .update_bind (.update (hs.record (by simp)))) ht)

omit h in
lemma SentOnlyTo.upkeep : Upkeep (SentOnlyTo P) where
  loaded h hloaded := by rwa [SentOnlyTo, hloaded.history]
  restart h := h
  changed _ _ h _ := ⟨h, h⟩

/-- **A call only sends keys to the recipients of its strategy**, whatever fails in it. -/
lemma SentOnlyTo.step {action : Action} (hP : ∀ call, action = .shareRoomKey call →
    ∀ d, Allowed sigs call d → P d) :
    SentOnlyTo P (m.step sigs action) := by
  refine SentOnlyTo.upkeep.step h ?_ fun _ _ _ _ _ => ⟨h, h⟩
  rintro call rfl
  refine (SentOnlyTo.upkeep.shareRoomKey h (fun ht => ht) fun id changes ht hresult => ?_).finalState
  exact ht.shareWith changes fun _ d hd => hP call rfl d (allowed_of_mem hresult hd)

lemma SentOnlyTo.run {actions : List Action}
    (hP : ∀ call, .shareRoomKey call ∈ actions → ∀ d, Allowed sigs call d → P d) :
    SentOnlyTo P (m.run sigs actions) := by
  induction actions generalizing m with
  | nil => exact h
  | cons action actions ih =>
    refine ih (h.step ?_) fun call hcall => hP call (mem_cons_of_mem _ hcall)
    rintro call rfl
    exact hP call mem_cons_self

end Sent

end Steps

/-! ## Rotation -/

/-- The same user ID, device ID and key. -/
def SameDevice (d d' : DeviceData) : Prop :=
  (d.userId, d.deviceId) = (d'.userId, d'.deviceId) ∧ d.curve25519Key = d'.curve25519Key

lemma Kept.sessionFound {m : GroupSessionManager} (hm : Kept none m) {fails : Bool}
    (h : m.sessionFound fails = some session) :
    Recorded m.nextRequestId m.history session ∧ m.sessionFound false = some session := by
  unfold GroupSessionManager.sessionFound at h ⊢
  split at h
  · next id hid =>
    obtain rfl := Option.some.inj h
    exact ⟨hm.objects id, by simp [hid]⟩
  · next stored hcached hstored =>
    obtain rfl := Option.some.inj h
    exact ⟨hm.stored stored hstored nofun, by simp [hcached, hstored]⟩
  · cases h

/-- **A device that has the key of the session and is not a recipient any more forces a new
session**, unless a recipient has its IDs and another key. -/
theorem shareRoomKey_rotates {sigs : Signatures} {actions : List Action} {call : Call}
    {requests : List RequestId}
    {t : GroupSessionManager} {session : OutboundGroupSession} {d : DeviceData}
    (hrun : RunKeepsShares sigs new actions)
    (hcall : (∀ d, call.failures.encrypt d = false) ∧ call.failures.save = false)
    (h : shareRoomKey sigs call (new.run sigs actions) = .ok requests t)
    (hsession : (new.run sigs actions).sessionFound false = some session)
    (hsent : .keySent session.sessionId d ∈ (new.run sigs actions).history)
    (hremoved : ∀ d', Allowed sigs call d' → ¬ SameDevice d' d)
    (hreused : ∀ d', Allowed sigs call d' → (d'.userId, d'.deviceId) = (d.userId, d.deviceId) →
      d'.curve25519Key = d.curve25519Key) :
    ∃ id, t.cached = some id ∧ (new.run sigs actions).nextSessionId ≤ id ∧ id ≠ session.sessionId ∧
      ∀ d', SameDevice d' d → .keySent id d' ∉ t.history := by
  have hkept : Kept none (new.run sigs actions) := Kept.new.run hrun
  generalize new.run sigs actions = m at h hsession hsent hkept ⊢
  obtain ⟨id, ht⟩ := (hkept.shareRoomKey hcall.1 hcall.2).of_ok h
  have hnew : m.nextSessionId ≤ id := by
    rcases ht.choice with hle | ⟨session', result, hfound, rfl, hrotate, hresult⟩
    · exact hle
    · obtain ⟨hrecorded, hfound'⟩ := hkept.sessionFound hfound
      obtain rfl : session' = session := Option.some.inj (hfound'.symm.trans hsession)
      obtain ⟨d', hallowed, hids⟩ := exists_allowed_of_not_rotate hresult hrotate (hrecorded.complete d hsent)
      exact absurd ⟨hids, hreused d' hallowed hids⟩ (hremoved d' hallowed)
  refine ⟨id, ht.cached, hnew, ?_, fun d' hsame hd' => ?_⟩
  · exact ((hkept.sent_lt _ _ hsent).trans_le hnew).ne'
  · rcases ht.sent id d' hd' with hold | hallowed
    · exact absurd (hkept.sent_lt _ _ hold) hnew.not_gt
    · exact hremoved d' hallowed hsame

lemma not_allowed_bob (d : DeviceData) : ¬ Allowed aliceSignatures (bobCall .blackListed true) d := by
  rintro ⟨outbound, result, hresult, hd⟩
  obtain ⟨huser, hd, hcode⟩ := (allows_iff hresult).1 hd
  rw [mem_singleton.1 huser] at hd hcode
  obtain rfl := mem_singleton.1 hd
  cases hcode

/-- The key is sent to the device of Bob. -/
def bobHistory : List Action := [.shareRoomKey (bobCall .unset true), .markRequestAsSent false 0]

lemma runKeepsShares_bob : RunKeepsShares aliceSignatures new bobHistory := by
  refine ⟨⟨fun _ => rfl, rfl⟩, fun id hid infos hinfos e he hshared => ?_, trivial⟩
  obtain rfl : 0 = id := Option.some.inj hid
  obtain rfl := Option.some.inj hinfos
  obtain rfl := mem_singleton.1 he
  cases hshared

/-- The device is blacklisted after that. -/
theorem shareRoomKey_rotates_bob : ∃ requests t,
    shareRoomKey aliceSignatures (bobCall .blackListed true)
    (new.run aliceSignatures bobHistory) = .ok requests t ∧
      ∃ id, t.cached = some id ∧ 1 ≤ id ∧ id ≠ 0 ∧ ∀ d, SameDevice d (bobDevice "curve") →
        .keySent id d ∉ t.history := by
  have hsent : .keySent 0 (bobDevice "curve") ∈ (new.run aliceSignatures bobHistory).history :=
    mem_cons_of_mem _ (mem_singleton_self _)
  exact ⟨_, _, rfl, shareRoomKey_rotates runKeepsShares_bob ⟨fun _ => rfl, rfl⟩ rfl rfl hsent
    (fun d hd => absurd hd (not_allowed_bob d)) fun d hd => absurd hd (not_allowed_bob d)⟩

/-- There is no Olm session at first, and one later; the notice is marked as sent after the key. -/
def noticeLast : List Action :=
  [.shareRoomKey (bobCall .unset false), .shareRoomKey (bobCall .unset true), .markRequestAsSent false 1,
    .markRequestAsSent false 0]

/-- The device is blacklisted after that, and the session is not rotated. -/
theorem shareRoomKey_keeps_session :
    (new.run aliceSignatures noticeLast).cached = some 0 ∧
      .keySent 0 (bobDevice "curve") ∈ (new.run aliceSignatures noticeLast).history ∧
      (∀ d, ¬ Allowed aliceSignatures (bobCall .blackListed true) d) ∧
      ∃ requests t, shareRoomKey aliceSignatures (bobCall .blackListed true)
        (new.run aliceSignatures noticeLast) = .ok requests t ∧ t.cached = some 0 :=
  ⟨rfl, by decide, not_allowed_bob, _, _, rfl, rfl⟩

/-! ## Who gets a key at all -/

end GroupSessionManager

end HaranaMatrix.Crypto
