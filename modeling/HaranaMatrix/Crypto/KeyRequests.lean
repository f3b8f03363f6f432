import HaranaMatrix.Crypto.GroupSessions
import HaranaMatrix.Lib.Greatest

/-!
# Answers to key requests

What a session remembers of a device is explained by what happened to it: an entry that the key was
shared, or that there was no Olm session, is there because the key was meant for a device with these
IDs. So a request is answered from a point at which the key was meant for the device, except that a
notice is found by the IDs of the device alone. -/

namespace HaranaMatrix.Crypto

open List GroupSessionManager

/-! ## What a session remembers -/

variable {e : (UserId × DeviceId) × ShareInfo} {infos : ShareInfoSet}

section Session

variable {session : OutboundGroupSession} {d : DeviceData} {i : ℕ}

lemma mem_sharesOf {info : ShareInfo} :
    info ∈ session.sharesOf d ↔ ((d.userId, d.deviceId), info) ∈ session.iterShares := by
  simp only [OutboundGroupSession.sharesOf, mem_map, mem_filter, decide_eq_true_eq]
  constructor
  · rintro ⟨⟨key, info⟩, ⟨hmem, rfl⟩, rfl⟩
    exact hmem
  · intro hmem
    exact ⟨_, ⟨hmem, rfl⟩, rfl⟩

lemma ShareState.mem_of_max? {states : List ShareState} {w : SequenceNumber}
    (h : (ShareState.max? states).getD .notShared = .shared i w) : .shared i w ∈ states := by
  cases states with
  | nil => cases h
  | cons first states =>
    rw [← h]
    refine foldl_choose_mem (fun a b => ?_) first states
    split
    · exact .inl rfl
    · exact .inr rfl

lemma exists_of_getShareState {w : SequenceNumber} (h : session.getShareState d = .shared i w) :
    ∃ key, d.curve25519Key = some key ∧
      ((d.userId, d.deviceId), .shared ⟨key, i, w⟩) ∈ session.iterShares := by
  obtain ⟨info, hinfo, hstate⟩ := mem_map.1 (ShareState.mem_of_max? h)
  cases info with
  | withheld info => cases hstate
  | shared info =>
    by_cases hkey : d.curve25519Key = some info.senderKey
    · obtain ⟨rfl, rfl⟩ : info.messageIndex = i ∧ info.olmWedgingIndex = w := by simpa [hkey] using hstate
      exact ⟨_, hkey, mem_sharesOf.1 hinfo⟩
    · simp [hkey] at hstate

lemma exists_of_withheldNoOlmIndex (h : session.withheldNoOlmIndex d = some i) :
    ((d.userId, d.deviceId), .withheld ⟨.noOlm, some i⟩) ∈ session.iterShares := by
  unfold OutboundGroupSession.withheldNoOlmIndex at h
  dsimp only at h
  split at h
  · cases h
  · next index indices hindices =>
    have hmem : some i ∈ index :: indices := by
      rw [← h]
      refine foldl_choose_mem (fun a b => ?_) index indices
      cases a with
      | none => exact .inl rfl
      | some a =>
        cases b with
        | none => exact .inr rfl
        | some b => rcases min_choice a b with hmin | hmin <;> simp [hmin]
    rw [← hindices] at hmem
    obtain ⟨info, hinfo, hsome⟩ := mem_filterMap.1 hmem
    cases info with
    | shared info => cases hsome
    | withheld info =>
      obtain ⟨hcode, hindex⟩ : info.code = .noOlm ∧ info.messageIndex = some i := by simpa using hsome
      rw [← hcode, ← hindex]
      exact mem_sharesOf.1 hinfo

lemma iterShares_addRequest {requestId : RequestId}
    (h : e ∈ (session.addRequest requestId infos).iterShares) : e ∈ session.iterShares ∨ e ∈ infos := by
  rcases mem_append.1 h with h | h
  · exact .inl (mem_append_left _ h)
  · obtain ⟨request, hrequest, he⟩ := mem_flatMap.1 h
    rcases IndexMap.mem_insert hrequest with rfl | hrequest
    · exact .inr he
    · exact .inl (mem_append_right _ (mem_flatMap.2 ⟨request, hrequest, he⟩))

lemma iterShares_markRequestAsSent {requestId : RequestId}
    (h : e ∈ (session.markRequestAsSent requestId).iterShares) : e ∈ session.iterShares := by
  unfold OutboundGroupSession.markRequestAsSent at h
  split at h
  · next infos hinfos =>
    rcases mem_append.1 h with h | h
    · rcases ShareInfoSet.mem_extend h with h | h
      · exact mem_append_left _ h
      · exact mem_append_right _ (mem_flatMap.2 ⟨_, IndexMap.mem_of_get hinfos, h⟩)
    · obtain ⟨request, hrequest, he⟩ := mem_flatMap.1 h
      exact mem_append_right _ (mem_flatMap.2 ⟨request, mem_of_mem_filter hrequest, he⟩)
  · exact h

end Session

/-! ## Entries that the history explains -/

/-- The key was meant for a device with the IDs of the entry, and with the key in it if there is
one. -/
def Explained (history : List Fact) (id : SessionId) (entry : (UserId × DeviceId) × ShareInfo) : Prop :=
  match entry.2 with
  | .shared info => ∃ d, .intended id d info.messageIndex ∈ history ∧ (d.userId, d.deviceId) = entry.1 ∧
      d.curve25519Key = some info.senderKey
  | .withheld info => info.code = .noOlm → ∃ d i, info.messageIndex = some i ∧ .intended id d i ∈ history ∧
      .withheld id d .noOlm ∈ history ∧ (d.userId, d.deviceId) = entry.1

lemma Explained.append {history : List Fact} {id : SessionId} {entry : (UserId × DeviceId) × ShareInfo}
    (h : Explained history id entry) (facts : List Fact) : Explained (history ++ facts) id entry := by
  unfold Explained at h ⊢
  split at h
  · obtain ⟨d, hd, hids⟩ := h
    exact ⟨d, mem_append_left _ hd, hids⟩
  · intro hcode
    obtain ⟨d, i, hi, hintended, hwithheld, hids⟩ := h hcode
    exact ⟨d, i, hi, mem_append_left _ hintended, mem_append_left _ hwithheld, hids⟩

namespace GroupSessionManager

/-- All that is remembered is explained. -/
structure Sound (m : GroupSessionManager) : Prop where
  sessionId : ∀ id, (m.objects id).sessionId = id
  objects : ∀ id, ∀ e ∈ (m.objects id).iterShares, Explained m.history id e
  stored : ∀ session ∈ m.storedOutbound, ∀ e ∈ session.iterShares, Explained m.history session.sessionId e

lemma Sound.new : Sound new where
  sessionId _ := rfl
  objects := by simp [GroupSessionManager.new, OutboundGroupSession.new, OutboundGroupSession.iterShares]
  stored := by simp [GroupSessionManager.new]

section Steps

variable {m : GroupSessionManager} {id : SessionId} {call : Call} {sigs : Signatures}

section

variable (hm : Sound m)
include hm

lemma Sound.setObject (session : OutboundGroupSession) (hid : session.sessionId = id)
    (h : ∀ e ∈ session.iterShares, Explained m.history id e) : Sound (m.setObject id session) where
  sessionId := forall_setObject (fun id s => s.sessionId = id) hm.sessionId hid
  objects := forall_setObject (fun id s => ∀ e ∈ s.iterShares, Explained m.history id e) hm.objects h
  stored := hm.stored

lemma Sound.history (facts : List Fact) : Sound { m with history := m.history ++ facts } where
  sessionId := hm.sessionId
  objects id e he := (hm.objects id e he).append facts
  stored session hsession e he := (hm.stored session hsession e he).append facts

lemma Sound.saved (changes : Changes) : Sound (m.saved changes) where
  __ := hm
  stored session hsession e he := by
    rcases Option.or_eq_some_iff.1 hsession with hlast | ⟨-, hstored⟩
    · obtain ⟨id, -, rfl⟩ := Option.map_eq_some_iff.1 hlast
      rw [hm.sessionId id]
      exact hm.objects id e he
    · exact hm.stored session hstored e he

lemma Sound.loaded {t : GroupSessionManager} (h : Loaded m t) : Sound t := by
  rcases h with rfl | ⟨session, -, hsession, rfl⟩
  · exact hm
  · have hset := hm.setObject session rfl (hm.stored session hsession)
    exact ⟨hset.sessionId, hset.objects, hset.stored⟩

lemma Sound.created (settings : EncryptionSettings) : Sound (m.created settings) := by
  have hset := hm.setObject (.new m.nextSessionId settings) rfl
    (by simp [OutboundGroupSession.iterShares, OutboundGroupSession.new])
  exact ⟨hset.sessionId, hset.objects, hset.stored⟩

lemma Sound.requested (h : ∀ e ∈ infos, Explained m.history id e) : Sound (m.requested id infos) := by
  have hset := hm.setObject ((m.objects id).addRequest m.nextRequestId infos) (hm.sessionId id) fun e he =>
    (iterShares_addRequest he).elim (hm.objects id e) (h e)
  exact ⟨hset.sessionId, hset.objects, hset.stored⟩

end

/-! ### Devices that get the key -/

/-- While the session `id`, at the index `n`, is shared with `devices`. -/
structure Sharing (id : SessionId) (n : ℕ) (devices : List DeviceData) (m : GroupSessionManager) : Prop where
  sound : Sound m
  messageCount : (m.objects id).messageCount = n
  intended : ∀ d ∈ devices, .intended id d n ∈ m.history

variable {n : ℕ} {devices : List DeviceData}

section

variable (hm : Sharing id n devices m)
include hm

lemma Sharing.history (facts : List Fact) : Sharing id n devices { m with history := m.history ++ facts } where
  sound := hm.sound.history facts
  messageCount := hm.messageCount
  intended d hd := mem_append_left _ (hm.intended d hd)

lemma Sharing.addRequest (h : ∀ e ∈ infos, Explained m.history id e) :
    Ensures (addRequest id infos) m (fun _ => Sharing id n devices) (Sharing id n devices) := by
  refine .update ⟨hm.sound.requested h, ?_, hm.intended⟩
  simpa [requested, setObject, OutboundGroupSession.addRequest] using hm.messageCount

lemma Sharing.explained_shared {chunk : List DeviceData} (hchunk : ∀ d ∈ chunk, d ∈ devices)
    (he : e ∈ ShareInfoSet.extend [] (chunk.filterMap (sharedEntry call n))) : Explained m.history id e := by
  rcases ShareInfoSet.mem_extend he with he | he
  · cases he
  · obtain ⟨d, hd, hentry⟩ := mem_filterMap.1 he
    obtain ⟨key, hkey, rfl⟩ := Option.map_eq_some_iff.1 hentry
    unfold Call.olmKey at hkey
    split at hkey
    · exact ⟨d, hm.intended d (hchunk d hd), rfl, hkey⟩
    · cases hkey

lemma Sharing.encryptRequest {chunk : List DeviceData} (hchunk : ∀ d ∈ chunk, d ∈ devices) :
    Ensures (encryptRequest call id chunk) m
      (fun unable t => (∀ p ∈ unable, p.1 ∈ devices ∧ p.2 = .noOlm) ∧ Sharing id n devices t)
      (Sharing id n devices) := by
  refine .get_bind ?_
  rw [hm.messageCount]
  have hunable : ∀ p ∈ (chunk.filter fun d => (Call.olmKey call d).isNone).map fun d => (d, WithheldCode.noOlm),
      p.1 ∈ devices ∧ p.2 = .noOlm := by
    intro p hp
    obtain ⟨d, hd, rfl⟩ := mem_map.1 hp
    exact ⟨hchunk d (mem_of_mem_filter hd), rfl⟩
  dsimp only
  split
  · exact .fail hm
  · split
    · exact .ret ⟨hunable, hm⟩
    · refine (hm.addRequest fun e he => hm.explained_shared hchunk he).bind fun _ t ht => ?_
      exact (Ensures.update (ht.history _)).bind fun _ _ hu => .ret ⟨hunable, hu⟩

end

lemma Sharing.encryptForDevices (hm : Sound m) :
    Ensures (encryptForDevices call id devices) m
      (fun unable t => (∀ p ∈ unable, p.1 ∈ devices ∧ p.2 = .noOlm) ∧
        Sharing id (m.objects id).messageCount devices t)
      Sound := by
  refine (encryptForDevices_ensures (F := True) (fun chunk hchunk s hs => ?_) ?_).mono (fun _ _ h => h)
    fun _ ht => ht.1.sound
  · exact (hs.encryptRequest hchunk).mono (fun _ _ h => h) fun _ ht => ⟨ht, trivial⟩
  · exact ⟨hm.history _, rfl, fun d hd => mem_append_right _ (mem_map_of_mem hd)⟩

/-! ### Devices that are told that they do not get it -/

lemma Sharing.handleWithheldDevices (hm : Sharing id n devices m)
    {withheld : List (DeviceData × WithheldCode)}
    (h : ∀ p ∈ withheld, p.2 = .noOlm → p.1 ∈ devices) :
    Ensures (handleWithheldDevices call id withheld) m (fun _ => Sound) Sound := by
  refine .get_bind ?_
  rw [hm.messageCount]
  have hloop : Ensures (forM (chunks MAX_TO_DEVICE_MESSAGES
      (withheld.filter fun entry => !m.isWithheldTo call id entry.1 entry.2)) fun chunk => do
        record (chunk.map fun entry => .withheld id entry.1 entry.2)
        GroupSessionManager.addRequest id (ShareInfoSet.extend [] (chunk.map (withheldEntry n)))) m
      (fun _ => Sharing id n devices) (Sharing id n devices) := by
    refine .loop (fun chunk hchunk s hs => .update_bind ((hs.history _).addRequest fun e he => ?_)) hm
    rcases ShareInfoSet.mem_extend he with he | he
    · cases he
    · obtain ⟨p, hp, rfl⟩ := mem_map.1 he
      intro (hcode : p.2 = .noOlm)
      have hd := h p (mem_of_mem_filter (mem_of_mem_chunks hchunk hp)) hcode
      refine ⟨p.1, n, rfl, mem_append_left _ (hs.intended p.1 hd), mem_append_right _ ?_, rfl⟩
      rw [← hcode]
      exact mem_map_of_mem hp
  exact hloop.mono (fun _ _ ht => ht.sound) fun _ ht => ht.sound

lemma Sound.shareWith (hm : Sound m) {result : CollectRecipientsResult}
    (hresult : ∀ p ∈ result.withheldDevices, p.2 ≠ .noOlm) (changes : Changes) :
    Ensures (shareWith call result id changes) m (fun _ => Sound) Sound := by
  refine shareWith_ensures changes (Sharing.encryptForDevices hm) (fun ht => ?_)
    (fun ht => ht.setObject _ (ht.sessionId id) (ht.objects id)) fun changes ht => ht.saved changes
  refine ht.2.handleWithheldDevices fun p hp hcode => ?_
  rcases mem_append.1 hp with hp | hp
  · exact absurd hcode (hresult p hp)
  · exact (ht.1 p hp).1

lemma withheldCodeFor_ne_noOlm {store : CryptoStore} {strategy : CollectStrategy} {u : UserId}
    {d : DeviceData} :
    withheldCodeFor sigs store strategy u d ≠ some .noOlm := by
  cases strategy with
  | allDevices =>
    simp only [withheldCodeFor, withheldCodeForDeviceForAllDevicesStrategy]
    split_ifs <;> simp
  | errorOnVerifiedUserProblem =>
    simp only [withheldCodeFor, handleDeviceForUserForErrorOnVerifiedUserProblemStrategy]
    split_ifs <;> simp
  | identityBasedStrategy =>
    simp only [withheldCodeFor]
    split
    · simp
    · unfold withheldCodeForDeviceWithOwnerForIdentityBasedStrategy
      split_ifs <;> simp
  | onlyTrustedDevices =>
    simp only [withheldCodeFor, withheldCodeForDeviceForOnlyTrustedDevicesStrategy]
    split <;> simp

lemma withheldDevices_ne_noOlm {session : OutboundGroupSession} {result : CollectRecipientsResult}
    (h : collectSessionRecipients sigs call.store call.users call.settings session = .ok result) :
    ∀ p ∈ result.withheldDevices, p.2 ≠ .noOlm := by
  obtain ⟨collected, hcollected, rfl⟩ := collectSessionRecipients_ok h
  intro p hp hcode
  simp only [(collect_ok hcollected).2] at hp
  obtain ⟨u, -, hp⟩ := mem_flatMap.1 hp
  obtain ⟨d, -, hd⟩ := mem_filterMap.1 hp
  obtain ⟨code, hdcode, rfl⟩ := Option.map_eq_some_iff.1 hd
  exact withheldCodeFor_ne_noOlm (hdcode.trans (congrArg some hcode))

/-! ### Everything else -/

lemma Sound.upkeep : Upkeep Sound where
  loaded hm := hm.loaded
  restart hm := ⟨hm.sessionId, hm.objects, hm.stored⟩
  changed {m id} n b hm _ := by
    have hset := hm.setObject { m.objects id with messageCount := n, invalidated := b } (hm.sessionId _) (hm.objects _)
    exact ⟨hset, hset.saved _⟩

section

variable (hm : Sound m)
include hm

lemma Sound.answered (requestId : RequestId) (id : SessionId) : Sound (m.answered requestId id) := by
  have hset := hm.setObject ((m.objects id).markRequestAsSent requestId)
    (((m.objects id).sessionId_markRequestAsSent requestId).trans (hm.sessionId id)) fun e he =>
      hm.objects id e (iterShares_markRequestAsSent he)
  exact ⟨hset.sessionId, hset.objects, hset.stored⟩

lemma Sound.step (action : Action) : Sound (m.step sigs action) := by
  refine Sound.upkeep.step hm ?_ fun _ _ _ _ _ => ⟨hm.answered _ _, (hm.answered _ _).saved _⟩
  rintro call rfl
  refine (Sound.upkeep.shareRoomKey hm (·.created _) fun id changes ht hresult => ?_).finalState
  exact ht.shareWith (withheldDevices_ne_noOlm hresult) changes

/-- **Whatever happens, all that is remembered is explained.** -/
theorem Sound.run (actions : List Action) : Sound (m.run sigs actions) := by
  induction actions generalizing m with
  | nil => exact hm
  | cons action actions ih => exact ih (hm.step action)

end

end Steps

/-! ## The answer -/

/-- The key was meant for the device that asks, at the index `i` or before. -/
def MeantFor (history : List Fact) (request : KeyRequest) (i : ℕ) : Prop :=
  ∃ d j, j ≤ i ∧ .intended request.sessionId d j ∈ history ∧ d.userId = request.device.userId ∧
    d.deviceId = request.device.deviceId ∧ d.curve25519Key = request.device.curve25519Key

lemma shareDecision_meantFor {history : List Fact} {outbound : Option OutboundGroupSession}
    {request : KeyRequest} (hrequest : ¬ (request.isOwnUser ∧ request.isVerified))
    (hkey : ∀ session ∈ outbound, session.getShareState request.device = .notShared →
      ∀ d, .withheld request.sessionId d .noOlm ∈ history → d.userId = request.device.userId →
        d.deviceId = request.device.deviceId → d.curve25519Key = request.device.curve25519Key)
    (houtbound : ∀ session ∈ outbound, ∀ e ∈ session.iterShares, Explained history session.sessionId e) :
    shareDecision outbound request ≠ .ok none ∧
      ∀ i, shareDecision outbound request = .ok (some i) → MeantFor history request i := by
  have hverified : (request.isOwnUser && request.isVerified) = false := by simpa using hrequest
  suffices hanswer : ∃ decision, shareDecision outbound request = decision ∧ decision ≠ .ok none ∧
      ∀ i, decision = .ok (some i) → MeantFor history request i by
    obtain ⟨_, rfl, hmeant⟩ := hanswer
    exact hmeant
  cases hfilter : outbound.filter (·.sessionId = request.sessionId) with
  | none =>
    have herror : ∃ e, shareDecision outbound request = .error e := by
      simp only [shareDecision, hverified, hfilter]
      cases request.isOwnUser
      · exact ⟨.missingOutboundSession, rfl⟩
      · exact ⟨.untrustedDevice, rfl⟩
    obtain ⟨e, he⟩ := herror
    exact ⟨_, he, nofun, nofun⟩
  | some session =>
    obtain ⟨hsession, hid⟩ := Option.filter_eq_some_iff.1 hfilter
    have hid : session.sessionId = request.sessionId := of_decide_eq_true hid
    have hexplained := hid ▸ houtbound session hsession
    cases hstate : session.getShareState request.device with
    | sharedButChangedSenderKey =>
      refine ⟨.error .changedSenderKey, ?_, nofun, nofun⟩
      simp [shareDecision, hverified, hfilter, hstate]
    | shared i w =>
      refine ⟨.ok (some i), ?_, nofun, fun j hj => ?_⟩
      · simp [shareDecision, hverified, hfilter, hstate]
      · obtain rfl : i = j := by simpa using hj
        obtain ⟨key, hcurve, hmem⟩ := exists_of_getShareState hstate
        obtain ⟨d, hd, hids, hdkey⟩ := hexplained _ hmem
        obtain ⟨huser, hdevice⟩ := Prod.mk.inj hids
        exact ⟨d, i, le_rfl, hd, huser, hdevice, hdkey.trans hcurve.symm⟩
    | notShared =>
      cases hindex : session.withheldNoOlmIndex request.device with
      | none =>
        refine ⟨.error .outboundSessionNotShared, ?_, nofun, nofun⟩
        simp [shareDecision, hverified, hfilter, hstate, hindex]
      | some i =>
        refine ⟨.ok (some i), ?_, nofun, fun j hj => ?_⟩
        · simp [shareDecision, hverified, hfilter, hstate, hindex]
        · obtain rfl : i = j := by simpa using hj
          obtain ⟨d, i', hi', hd, hwithheld, hids⟩ := hexplained _ (exists_of_withheldNoOlmIndex hindex) rfl
          obtain rfl : i = i' := Option.some.inj hi'
          obtain ⟨huser, hdevice⟩ := Prod.mk.inj hids
          exact ⟨d, i, le_rfl, hd, huser, hdevice, hkey session hsession hstate d hwithheld huser hdevice⟩

/-- **A key request is answered from a point at which the key was meant for the device**, unless the
key was not shared with a device of its IDs, and one with another key was told that there is no Olm
session. -/
theorem shouldShareKey_never_widens {sigs : Signatures} {actions : List Action} {loadFails : Bool}
    {request : KeyRequest}
    {decision : Except KeyForwardDecision (Option ℕ)} {t : GroupSessionManager}
    (hrequest : ¬ (request.isOwnUser ∧ request.isVerified))
    (hkey : ∀ session ∈ (new.run sigs actions).sessionFound loadFails,
      session.getShareState request.device = .notShared →
        ∀ d, .withheld request.sessionId d .noOlm ∈ (new.run sigs actions).history →
          d.userId = request.device.userId → d.deviceId = request.device.deviceId →
            d.curve25519Key = request.device.curve25519Key)
    (h : shouldShareKey loadFails request (new.run sigs actions) = .ok decision t) :
    decision ≠ .ok none ∧ ∀ i, decision = .ok (some i) →
      MeantFor (new.run sigs actions).history request i := by
  have hsound : Sound (new.run sigs actions) := Sound.new.run actions
  generalize new.run sigs actions = m at hkey h hsound ⊢
  have hensures : Ensures (shouldShareKey loadFails request) m (fun decision _ =>
      decision ≠ .ok none ∧ ∀ i, decision = .ok (some i) → MeantFor m.history request i) fun _ => True := by
    refine ((getOrLoad_ensures m loadFails).mono (fun _ _ h => h) nofun).bind fun outbound t ht => .get_bind (.ret ?_)
    rw [ht.2.1]
    refine shareDecision_meantFor hrequest hkey fun session hsession => ?_
    obtain ⟨id, -, rfl⟩ := Option.map_eq_some_iff.1 (ht.2.1.trans hsession)
    rw [(hsound.loaded ht.1).sessionId id, ← ht.1.history]
    exact (hsound.loaded ht.1).objects id
  exact hensures.of_ok h

/-- The device asks for the first session. -/
def bobRequest (key : Curve25519PublicKey) : KeyRequest := ⟨bobDevice key, false, false, 0⟩

/-- The room key was shared with the device of Bob. -/
theorem shouldShareKey_bob : ∃ t,
    shouldShareKey false (bobRequest "curve")
      (new.run aliceSignatures [.shareRoomKey (bobCall .unset true)]) = .ok (.ok (some 0)) t ∧
    MeantFor (new.run aliceSignatures [.shareRoomKey (bobCall .unset true)]).history (bobRequest "curve") 0 := by
  have hhistory : (new.run aliceSignatures [.shareRoomKey (bobCall .unset true)]).history =
    [.intended 0 (bobDevice "curve") 0, .keySent 0 (bobDevice "curve")] := rfl
  have hdecision : shouldShareKey false (bobRequest "curve")
    (new.run aliceSignatures [.shareRoomKey (bobCall .unset true)]) = .ok (.ok (some 0)) _ := rfl
  refine ⟨_, hdecision, (shouldShareKey_never_widens (by simp [bobRequest]) (fun _ _ _ d hd => ?_) hdecision).2 0 rfl⟩
  simp [hhistory] at hd

/-- Bob's device is told that there is no Olm session; another device with its ID asks for the key
and gets it. -/
theorem shouldShareKey_reused_deviceId : ∃ t,
    shouldShareKey false (bobRequest "another curve")
      (new.run aliceSignatures [.shareRoomKey (bobCall .unset false)]) = .ok (.ok (some 0)) t ∧
    ¬ MeantFor (new.run aliceSignatures [.shareRoomKey (bobCall .unset false)]).history (bobRequest "another curve") 0 := by
  have hhistory : (new.run aliceSignatures [.shareRoomKey (bobCall .unset false)]).history =
    [.intended 0 (bobDevice "curve") 0, .withheld 0 (bobDevice "curve") .noOlm] := rfl
  refine ⟨_, rfl, ?_⟩
  rintro ⟨d, j, -, hd, -, -, hkey⟩
  rw [hhistory] at hd
  obtain ⟨-, rfl, -⟩ : (0 : ℕ) = 0 ∧ d = bobDevice "curve" ∧ j = 0 := by simpa [bobRequest] using hd
  simp [bobRequest, bobDevice] at hkey

end GroupSessionManager

end HaranaMatrix.Crypto
