import HaranaMatrix.Crypto.KeyRequests

/-!
# The other half of our own sessions

A new outbound session is cached at once, and its inbound half is only saved when the call that
created it is through. If every call that creates a session goes through, the inbound half of the
session in use is in the store after a call. -/

namespace HaranaMatrix.Crypto

open List GroupSessionManager

namespace GroupSessionManager

/-! ## Calls that create a session -/

/-- There is no session, it cannot be used any more, or it has to be rotated. -/
def NeedsNewSession (sigs : Signatures) (m : GroupSessionManager) (call : Call) : Prop :=
  match m.sessionFound call.failures.load with
  | none => True
  | some session => session.expired call.elapsed ∨ session.invalidated ∨
      ∃ result, collectSessionRecipients sigs call.store call.users call.settings session = .ok result ∧
        result.shouldRotate

/-- Nothing fails after the session is created. -/
structure GoesThrough (sigs : Signatures) (call : Call) : Prop where
  senderData : call.failures.senderData = false
  collect : call.failures.collect = false
  collected : ∀ session, ∃ result, collectSessionRecipients sigs call.store call.users call.settings session = .ok result
  rotatedSenderData : call.failures.rotatedSenderData = false
  encrypt : ∀ d, call.failures.encrypt d = false
  save : call.failures.save = false

lemma GoesThrough.not_fails {sigs : Signatures} {call : Call} (h : GoesThrough sigs call) :
    ¬ ((∃ d, call.failures.encrypt d) ∨ call.failures.save) := by
  simp [h.encrypt, h.save]

lemma needsNewSession_of_unusable {sigs : Signatures} {m : GroupSessionManager} {call : Call}
    (h : Unusable call (m.sessionFound call.failures.load)) : NeedsNewSession sigs m call := by
  unfold NeedsNewSession
  split
  · trivial
  · next session hsession => exact (h session hsession).imp_right .inl

/-! ## Sessions whose inbound half is kept -/

/-- The inbound half of every session that can be used again is in the store, or among those to be
saved. -/
structure Held (toSave : List SessionId) (m : GroupSessionManager) : Prop where
  sessionId : ∀ id, (m.objects id).sessionId = id
  cached : ∀ id ∈ m.cached, id ∈ m.storedInbound ++ toSave
  beingShared : ∀ r ∈ m.beingShared, r.2 ∈ m.storedInbound ++ toSave
  stored : ∀ session ∈ m.storedOutbound, session.sessionId ∈ m.storedInbound ++ toSave

section Steps

variable {m t : GroupSessionManager} {id : SessionId} {call : Call} {sigs : Signatures}
  {toSave : List SessionId}

lemma Held.setObject (hm : Held toSave m) (session : OutboundGroupSession) (hid : session.sessionId = id) :
    Held toSave (m.setObject id session) where
  __ := hm
  sessionId := forall_setObject (fun id s => s.sessionId = id) hm.sessionId hid

lemma Held.loaded (hm : Held toSave m) (h : Loaded m t) : Held toSave t := by
  rcases h with rfl | ⟨session, -, hsession, rfl⟩
  · exact hm
  · have hset := hm.setObject session rfl
    have hstored := hm.stored session hsession
    refine ⟨hset.sessionId, ?_, ?_, hset.stored⟩
    · rintro id ⟨⟩
      exact hstored
    · intro r hr
      rcases mem_of_mem_restored hr with hr | hr
      · exact hm.beingShared r hr
      · rwa [hr]

lemma Held.created (hm : Held toSave m) (settings : EncryptionSettings) :
    Held (toSave ++ [m.nextSessionId]) (m.created settings) := by
  have hset := hm.setObject (.new m.nextSessionId settings) rfl
  have hmem : ∀ {id}, id ∈ m.storedInbound ++ toSave →
    id ∈ m.storedInbound ++ (toSave ++ [m.nextSessionId]) := by
    intro id hid
    rw [← append_assoc]
    exact mem_append_left _ hid
  refine ⟨hset.sessionId, ?_, fun r hr => hmem (hm.beingShared r hr), fun s hs => hmem (hm.stored s hs)⟩
  rintro id ⟨⟩
  simp

/-- While the session `id` is shared. -/
structure HeldFor (id : SessionId) (toSave : List SessionId) (m : GroupSessionManager) : Prop where
  held : Held toSave m
  cached : m.cached = some id

section

variable (hm : HeldFor id toSave m)
include hm

lemma HeldFor.mem : id ∈ m.storedInbound ++ toSave := hm.held.cached id hm.cached

lemma HeldFor.history (facts : List Fact) : HeldFor id toSave { m with history := m.history ++ facts } :=
  ⟨⟨hm.held.sessionId, hm.held.cached, hm.held.beingShared, hm.held.stored⟩, hm.cached⟩

lemma HeldFor.requested (infos : ShareInfoSet) : HeldFor id toSave (m.requested id infos) := by
  have hset := hm.held.setObject ((m.objects id).addRequest m.nextRequestId infos) (hm.held.sessionId id)
  refine ⟨⟨hset.sessionId, hset.cached, fun r hr => ?_, hset.stored⟩, hm.cached⟩
  rcases IndexMap.mem_insert hr with rfl | hr
  · exact hm.mem
  · exact hm.held.beingShared r hr

end

lemma Held.saved (hm : Held toSave m) {changes : Changes} (hin : changes.inboundGroupSessions = toSave)
    (hout : ∀ id ∈ changes.outboundGroupSessions, id ∈ m.storedInbound ++ toSave) :
      Held [] (m.saved changes) := by
  subst hin
  refine ⟨hm.sessionId, fun id hid => ?_, fun r hr => ?_, fun session hsession => ?_⟩ <;> rw [append_nil]
  · exact hm.cached id hid
  · exact hm.beingShared r hr
  · rcases Option.or_eq_some_iff.1 hsession with hlast | ⟨-, hstored⟩
    · obtain ⟨id, hid, rfl⟩ := Option.map_eq_some_iff.1 hlast
      rw [hm.sessionId id]
      exact hout id (mem_of_getLast? hid)
    · exact hm.stored session hstored

/-! ### Sharing -/

section

variable (hm : HeldFor id toSave m)
include hm

lemma HeldFor.encryptRequest (chunk : List DeviceData) :
    Ensures (encryptRequest call id chunk) m (fun _ => HeldFor id toSave)
      fun t => HeldFor id toSave t ∧ ∃ d, call.failures.encrypt d := by
  refine .get_bind ?_
  dsimp only
  split
  · next hfails =>
    obtain ⟨d, -, hd⟩ := any_eq_true.1 hfails
    exact .fail ⟨hm, d, hd⟩
  · split
    · exact .ret hm
    · exact .update_bind (.update_bind (.ret ((hm.requested _).history _)))

lemma HeldFor.encryptForDevices (devices : List DeviceData) :
    Ensures (encryptForDevices call id devices) m (fun _ => HeldFor id toSave)
      fun t => HeldFor id toSave t ∧ ∃ d, call.failures.encrypt d := by
  refine (encryptForDevices_ensures (P := fun _ => True) (fun chunk hchunk s hs => ?_) (hm.history _)).mono
    (fun _ _ ht => ht.2) fun _ ht => ht
  exact (hs.encryptRequest chunk).mono (fun _ _ ht => ⟨fun _ _ => trivial, ht⟩) fun _ ht => ht

lemma HeldFor.handleWithheldDevices (withheld : List (DeviceData × WithheldCode)) :
    Ensures (handleWithheldDevices call id withheld) m (fun _ => HeldFor id toSave) fun _ => False :=
  .get_bind (.loop (fun _ _ _ hs => .update_bind (.update ((hs.history _).requested _))) hm)

lemma HeldFor.markIfShared (changes : Changes) :
    Ensures (markIfShared id changes) m
      (fun changes' t => HeldFor id toSave t ∧ changes'.inboundGroupSessions = changes.inboundGroupSessions ∧
        ∀ o ∈ changes'.outboundGroupSessions, o = id ∨ o ∈ changes.outboundGroupSessions)
      fun _ => False := by
  refine .get_bind ?_
  split
  · refine .update_bind (.ret ⟨⟨hm.held.setObject _ (hm.held.sessionId id), hm.cached⟩, rfl, fun o ho => ?_⟩)
    rcases mem_append.1 ho with ho | ho
    · exact .inr ho
    · exact .inl (mem_singleton.1 ho)
  · exact .ret ⟨hm, rfl, fun _ ho => .inr ho⟩

end

section

variable {changes : Changes} (hm : HeldFor id changes.inboundGroupSessions m)
  (hout : ∀ o ∈ changes.outboundGroupSessions, o ∈ changes.inboundGroupSessions)
include hm hout

lemma HeldFor.shareWith (result : CollectRecipientsResult) :
    Ensures (shareWith call result id changes) m (fun _ => HeldFor id [])
      fun t => Held changes.inboundGroupSessions t ∧
        ((∃ d, call.failures.encrypt d) ∨ call.failures.save) := by
  refine .get_bind ?_
  set changes' : Changes :=
    if devicesToShareWith (m.objects id) result = [] then changes else { changes with outboundGroupSessions := [id] }
    with hchanges'
  have hin : changes'.inboundGroupSessions = changes.inboundGroupSessions := by
    rw [hchanges']
    split <;> rfl
  have hout' : ∀ o ∈ changes'.outboundGroupSessions, o = id ∨ o ∈ changes.inboundGroupSessions := by
    rw [hchanges']
    split
    · exact fun o ho => .inr (hout o ho)
    · exact fun o ho => .inl (mem_singleton.1 ho)
  refine (hm.encryptForDevices _).bindTo (fun t ht => ⟨ht.1.held, .inl ht.2⟩) fun unable t ht => ?_
  refine (ht.handleWithheldDevices _).bindTo nofun fun _ u hu => ?_
  refine (hu.markIfShared _).bindTo nofun fun changes'' v hv => ?_
  obtain ⟨hv, hin', hout''⟩ := hv
  split
  · next hempty =>
    refine .get_bind (.ret ⟨?_, hv.cached⟩)
    have hnil : changes.inboundGroupSessions = [] := by
      rw [← hin, ← hin']
      exact isEmpty_iff.1 (Bool.and_eq_true_iff.1 hempty).1
    rw [← hnil]
    exact hv.held
  · refine (saveChanges_ensures v _ _).bindTo (fun w hw => ⟨hw.1 ▸ hv.held, .inr hw.2⟩) fun _ w hw => ?_
    subst hw
    refine .get_bind (.ret ⟨hv.held.saved (hin'.trans hin) fun o ho => ?_, hv.cached⟩)
    rcases hout'' o ho with rfl | ho
    · exact hv.mem
    · rcases hout' o ho with rfl | ho
      · exact hv.mem
      · exact mem_append_right _ ho

lemma HeldFor.proceed
    (hneeds : (changes.inboundGroupSessions ≠ [] ∨ ∃ result, result.shouldRotate ∧
      collectSessionRecipients sigs call.store call.users call.settings (m.objects id) = .ok result) →
        GoesThrough sigs call)
    (halgorithm : changes.inboundGroupSessions ≠ [] → call.settings.algorithm = .megolmV1AesSha2) :
    Ensures (do
      let result ← collectRecipients sigs call id
      let (outbound, changes) ← maybeRotateGroupSession call result.shouldRotate id changes
      GroupSessionManager.shareWith call result outbound changes) m (fun _ t => ∃ id, HeldFor id [] t) (Held []) := by
  -- A failure is only possible if there is nothing to save.
  have hfail : (changes.inboundGroupSessions ≠ [] → False) → Held [] m := by
    intro hnil
    rw [← not_not.1 hnil]
    exact hm.held
  refine (collectRecipients_ensures sigs call id m).bindTo (fun t ht => ?_) fun result t ht => ?_
  · obtain ⟨rfl, hreason⟩ := ht
    refine hfail fun hne => ?_
    have hthrough := hneeds (.inl hne)
    obtain ⟨result, hresult⟩ := hthrough.collected (t.objects id)
    rcases hreason with hcollect | hnone
    · simp [hthrough.collect] at hcollect
    · exact hnone result hresult
  obtain ⟨rfl, hresult⟩ := ht
  refine (maybeRotateGroupSession_ensures t call _ _ _).bindTo (fun u hu => ?_) fun p u hu => ?_
  · obtain ⟨hrotate, ⟨rfl, hunsupported⟩ | ⟨-, hfails⟩⟩ := hu
    · exact hfail fun hne => hunsupported (halgorithm hne)
    · simp [(hneeds (.inr ⟨result, hrotate, hresult⟩)).rotatedSenderData] at hfails
  rcases hu with ⟨-, rfl, rfl⟩ | ⟨hrotate, rfl, rfl⟩
  · refine (hm.shareWith hout result).mono (fun _ _ hv => ⟨id, hv⟩) ?_
    rintro v ⟨hv, hfails⟩
    by_cases hnil : changes.inboundGroupSessions = []
    · rwa [← hnil]
    · exact ((hneeds (.inl hnil)).not_fails hfails).elim
  · have hcreated : HeldFor t.nextSessionId (withSession changes t.nextSessionId).inboundGroupSessions
        (t.created call.settings) := ⟨hm.held.created _, rfl⟩
    refine (hcreated.shareWith (fun o ho => ?_) result).mono (fun _ _ hv => ⟨_, hv⟩) fun v hv => ?_
    · rcases mem_append.1 ho with ho | ho
      · exact mem_append_left _ (hout o ho)
      · exact mem_append_right _ ho
    · exact ((hneeds (.inr ⟨result, hrotate, hresult⟩)).not_fails hv.2).elim

end

/-- **A call that goes through if it creates a session loses no inbound half.** -/
lemma Held.shareRoomKey (hm : Held [] m) (hcall : NeedsNewSession sigs m call → GoesThrough sigs call) :
    Ensures (shareRoomKey sigs call) m (fun _ t => ∃ id, HeldFor id [] t) (Held []) := by
  unfold GroupSessionManager.shareRoomKey
  split
  · exact .fail hm
  refine (getOrCreateOutboundSession_ensures m call).bindTo (fun t ht => hm.loaded ht) fun p t ht => ?_
  obtain ⟨id, created⟩ := p
  cases created with
  | false =>
    obtain ⟨hloaded, hfound⟩ := ht.found rfl
    have hheld : HeldFor id (Changes.mk [] []).inboundGroupSessions t := ⟨hm.loaded hloaded, ht.cached⟩
    refine hheld.proceed nofun (fun hneeds => hcall ?_) (by simp)
    obtain ⟨result, hrotate, hresult⟩ := hneeds.resolve_left (by simp)
    simpa [NeedsNewSession, hfound] using .inr (.inr ⟨result, hresult, hrotate⟩)
  | true =>
    obtain ⟨hunusable, halgorithm, u, hloaded, rfl, rfl⟩ := ht.unusable rfl
    have hthrough : GoesThrough sigs call := hcall (needsNewSession_of_unusable hunusable)
    have hheld : HeldFor u.nextSessionId (Changes.mk [u.nextSessionId] [u.nextSessionId]).inboundGroupSessions
      (u.created call.settings) := ⟨(hm.loaded hloaded).created _, rfl⟩
    refine (sessionChanges_ensures _ call _ true).bindTo (fun v hv => ?_) fun changes v hv => ?_
    · simp [hthrough.senderData] at hv
    obtain ⟨rfl, rfl⟩ := hv
    exact hheld.proceed (fun _ ho => ho) (fun _ => hthrough) fun _ => halgorithm

/-! ### Everything else -/

lemma Held.save (hm : Held [] m) (hid : id ∈ m.storedInbound) : Held [] (m.saved ⟨[id], []⟩) := by
  refine hm.saved rfl fun o ho => ?_
  rwa [mem_singleton.1 ho, append_nil]

lemma Held.answered (hm : Held [] m) (requestId : RequestId) (id : SessionId) :
    Held [] (m.answered requestId id) := by
  have hset := hm.setObject _ (((m.objects id).sessionId_markRequestAsSent requestId).trans (hm.sessionId id))
  exact { hset with beingShared := fun r hr => hm.beingShared r (mem_of_mem_filter hr) }

lemma Held.upkeep : Upkeep (Held []) where
  loaded := Held.loaded
  restart hm := ⟨hm.sessionId, nofun, nofun, hm.stored⟩
  changed {m id} n b hm hcached := by
    have hset := hm.setObject { m.objects id with messageCount := n, invalidated := b } (hm.sessionId _)
    have hstored : id ∈ m.storedInbound := by simpa using hm.cached id hcached
    exact ⟨hset, hset.save hstored⟩

/-- The condition on a step: a call that creates a session goes through. -/
def Action.GoesThrough (sigs : Signatures) (m : GroupSessionManager) : Action → Prop
  | .shareRoomKey call => NeedsNewSession sigs m call → GroupSessionManager.GoesThrough sigs call
  | _ => True

def RunGoesThrough (sigs : Signatures) (m : GroupSessionManager) : List Action → Prop
  | [] => True
  | action :: actions => action.GoesThrough sigs m ∧ RunGoesThrough sigs (m.step sigs action) actions

lemma Held.step (hm : Held [] m) {action : Action} (h : action.GoesThrough sigs m) :
    Held [] (m.step sigs action) := by
  refine Held.upkeep.step hm ?_ ?_
  · rintro call rfl
    refine Ensures.finalState ((hm.shareRoomKey h).mono ?_ fun _ ht => ht)
    rintro _ t ⟨id, ht⟩
    exact ht.held
  · rintro saveFails requestId rfl id hid
    have hstored : id ∈ m.storedInbound := by simpa using hm.beingShared _ (IndexMap.mem_of_get hid)
    exact ⟨hm.answered _ _, (hm.answered _ _).save hstored⟩

lemma Held.run (hm : Held [] m) {actions : List Action} (h : RunGoesThrough sigs m actions) :
    Held [] (m.run sigs actions) := by
  induction actions generalizing m with
  | nil => exact hm
  | cons action actions ih => exact ih (hm.step h.1) h.2

end Steps

lemma getOrLoad_cached {t : GroupSessionManager} {id : SessionId} (h : t.cached = some id)
    (loadFails : Bool) :
    getOrLoad loadFails t = .ok (some id) t := by
  obtain ⟨objects, cached⟩ := t
  obtain rfl : cached = some id := h
  rfl

lemma Held.new : Held [] new := ⟨fun _ => rfl, nofun, nofun, nofun⟩

/-- **We can decrypt what we encrypt**: after a call, the inbound half of the session that `encrypt`
uses is in the store, if every call that creates a session goes through. -/
theorem shareRoomKey_inbound_stored {sigs : Signatures} {actions : List Action} {call : Call}
    {requests : List RequestId} {t : GroupSessionManager} (hrun : RunGoesThrough sigs new actions)
    (hcall : NeedsNewSession sigs (new.run sigs actions) call → GoesThrough sigs call)
    (h : shareRoomKey sigs call (new.run sigs actions) = .ok requests t) :
    ∃ id, (∀ loadFails, getOrLoad loadFails t = .ok (some id) t) ∧ id ∈ t.storedInbound := by
  obtain ⟨id, ht⟩ := ((Held.new.run hrun).shareRoomKey hcall).of_ok h
  exact ⟨id, fun loadFails => getOrLoad_cached ht.cached loadFails, by simpa using ht.mem⟩

lemma goesThrough_bob : GoesThrough aliceSignatures (bobCall .unset true) where
  senderData := rfl
  collect := rfl
  collected _ := ⟨_, rfl⟩
  rotatedSenderData := rfl
  encrypt _ := rfl
  save := rfl

/-- The session is invalidated after a call, and the next call makes another one. -/
theorem shareRoomKey_inbound_stored_bob : ∃ requests t,
    shareRoomKey aliceSignatures (bobCall .unset true) (new.run aliceSignatures
        [.shareRoomKey (bobCall .unset true), .invalidateGroupSession false false]) = .ok requests t ∧
      ∃ id, (∀ loadFails, getOrLoad loadFails t = .ok (some id) t) ∧ id ∈ t.storedInbound := by
  have hrun : RunGoesThrough aliceSignatures new
      [.shareRoomKey (bobCall .unset true), .invalidateGroupSession false false] :=
    ⟨fun _ => goesThrough_bob, trivial, trivial⟩
  exact ⟨_, _, rfl, shareRoomKey_inbound_stored hrun (fun _ => goesThrough_bob) rfl⟩

/-- The first call cannot save the new session; the second one finds it in the cache and has nothing
to save. -/
theorem shareRoomKey_inbound_lost : ∃ requests t,
    shareRoomKey aliceSignatures (bobCall .unset true)
        (new.run aliceSignatures [.shareRoomKey { bobCall .unset true with failures := { save := true } }]) =
      .ok requests t ∧
    (∀ loadFails, getOrLoad loadFails t = .ok (some 0) t) ∧ 0 ∉ t.storedInbound :=
  ⟨_, _, rfl, getOrLoad_cached rfl, not_mem_nil⟩

end GroupSessionManager

end HaranaMatrix.Crypto
