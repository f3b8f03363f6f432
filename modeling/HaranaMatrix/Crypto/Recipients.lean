import HaranaMatrix.Crypto.ShareStrategy

/-!
# Recipients are trusted

When the collection of recipients succeeds, each strategy has decided about every device by itself.
-/

namespace HaranaMatrix.Crypto

open List

variable {sigs : Signatures} {store : CryptoStore} {strategy : CollectStrategy}
  {outbound : Option OutboundGroupSession}
  {users : List UserId} {result : CollectRecipientsResult}

/-! ## One decision per device -/

/-- Why a strategy withholds the key from a device; an unsigned device of a verified user makes the
collection fail. -/
def withheldCodeFor (sigs : Signatures) (store : CryptoStore) (strategy : CollectStrategy) (userId : UserId)
    (device : DeviceData) : Option WithheldCode :=
  let owner := store.userIdentity userId
  match strategy with
  | .allDevices => withheldCodeForDeviceForAllDevicesStrategy sigs store.ownIdentity owner device
  | .errorOnVerifiedUserProblem =>
    match handleDeviceForUserForErrorOnVerifiedUserProblemStrategy sigs store.ownIdentity owner device with
    | .ok => none
    | .withhold code => some code
    | .unsignedOfVerified => some .unverified
  | .identityBasedStrategy =>
    match owner with
    | none => some .unverified
    | some owner => withheldCodeForDeviceWithOwnerForIdentityBasedStrategy sigs owner device
  | .onlyTrustedDevices => withheldCodeForDeviceForOnlyTrustedDevicesStrategy sigs store.ownIdentity owner device

def splitForUser (sigs : Signatures) (store : CryptoStore) (strategy : CollectStrategy) (userId : UserId) :
    RecipientDevicesForUser :=
  partitionDevices (withheldCodeFor sigs store strategy userId) (store.deviceDataForUserFiltered userId)

/-- A user who makes the collection fail. -/
def IsProblem (sigs : Signatures) (store : CryptoStore) (strategy : CollectStrategy)
    (userId : UserId) : Prop :=
  (strategy = .errorOnVerifiedUserProblem ∨ strategy = .identityBasedStrategy) ∧
    hasIdentityVerificationViolation sigs store.ownIdentity (store.userIdentity userId)

section Split

variable {userId : UserId} {devices : List DeviceData}

lemma split_identityBased : splitDevicesForUserForIdentityBasedStrategy sigs (store.userIdentity userId) devices =
    partitionDevices (withheldCodeFor sigs store .identityBasedStrategy userId) devices := by
  cases howner : store.userIdentity userId with
  | none =>
    have hcode : withheldCodeFor sigs store .identityBasedStrategy userId = fun _ => some .unverified := by
      funext d
      simp [withheldCodeFor, howner]
    simp [splitDevicesForUserForIdentityBasedStrategy, partitionDevices, hcode]
  | some owner =>
    have hcode : withheldCodeFor sigs store .identityBasedStrategy userId =
        withheldCodeForDeviceWithOwnerForIdentityBasedStrategy sigs owner := by
      funext d
      simp [withheldCodeFor, howner]
    rw [hcode]
    rfl

lemma split_errorOnVerifiedUserProblem {split : RecipientDevicesForUser}
    (h : splitDevicesForUserForErrorOnVerifiedUserProblemStrategy sigs store.ownIdentity (store.userIdentity userId)
      devices = .inr split) :
    split = partitionDevices (withheldCodeFor sigs store .errorOnVerifiedUserProblem userId) devices := by
  simp only [splitDevicesForUserForErrorOnVerifiedUserProblemStrategy] at h
  split at h
  · next hunsigned =>
    obtain rfl := Sum.inr.inj h
    congr 1
    on_goal 1 => refine filter_congr fun d hd => ?_
    on_goal 2 => refine filterMap_congr fun d hd => ?_
    all_goals
      have hd' := filterMap_eq_nil_iff.1 hunsigned d hd
      simp only [withheldCodeFor]
      generalize handleDeviceForUserForErrorOnVerifiedUserProblemStrategy sigs store.ownIdentity
        (store.userIdentity userId) d = decision at hd' ⊢
      cases decision with
      | ok | withhold => rfl
      | unsignedOfVerified => cases hd'
  · cases h

end Split

variable (sigs store strategy outbound) in
lemma collectForUser_cases (collected : Collected) (userId : UserId) :
    (collectForUser sigs store strategy outbound collected userId).verifiedUsersWithNewIdentities ≠ [] ∨
      (collectForUser sigs store strategy outbound collected userId).unsignedDevicesOfVerifiedUsers ≠ [] ∨
      (¬ IsProblem sigs store strategy userId ∧
        collectForUser sigs store strategy outbound collected userId = { collected with
          result := updateRecipientsForUser collected.result outbound userId
            (splitForUser sigs store strategy userId) }) := by
  cases strategy with
  | allDevices | onlyTrustedDevices => exact .inr (.inr ⟨by simp [IsProblem], rfl⟩)
  | identityBasedStrategy =>
    by_cases hviolation : hasIdentityVerificationViolation sigs store.ownIdentity (store.userIdentity userId)
    · exact .inl (by simp [collectForUser, hviolation])
    · refine .inr (.inr ⟨by simp [IsProblem, hviolation], ?_⟩)
      simp [collectForUser, hviolation, split_identityBased, splitForUser]
  | errorOnVerifiedUserProblem =>
    by_cases hviolation : hasIdentityVerificationViolation sigs store.ownIdentity (store.userIdentity userId)
    · exact .inl (by simp [collectForUser, hviolation])
    · cases hsplit : splitDevicesForUserForErrorOnVerifiedUserProblemStrategy sigs store.ownIdentity
          (store.userIdentity userId) (store.deviceDataForUserFiltered userId) with
      | inl devices => exact .inr (.inl (by simp [collectForUser, hviolation, hsplit]))
      | inr split =>
        refine .inr (.inr ⟨by simp [IsProblem, hviolation], ?_⟩)
        simp [collectForUser, hviolation, hsplit, split_errorOnVerifiedUserProblem hsplit, splitForUser]

variable (sigs store strategy outbound) in
lemma collectForUser_mono (collected : Collected) (userId : UserId) :
    (collected.verifiedUsersWithNewIdentities ≠ [] →
      (collectForUser sigs store strategy outbound collected userId).verifiedUsersWithNewIdentities ≠ []) ∧
      (collected.unsignedDevicesOfVerifiedUsers ≠ [] →
        (collectForUser sigs store strategy outbound collected userId).unsignedDevicesOfVerifiedUsers ≠ []) := by
  unfold collectForUser
  cases strategy with
  | allDevices | onlyTrustedDevices => exact ⟨id, id⟩
  | identityBasedStrategy =>
    simp only
    split <;> simp
  | errorOnVerifiedUserProblem =>
    simp only
    split
    · simp
    · split <;> simp

lemma foldl_collectForUser (us : List UserId) (collected : Collected)
    (hverified : (us.foldl (collectForUser sigs store strategy outbound) collected).verifiedUsersWithNewIdentities = [])
    (hunsigned : (us.foldl (collectForUser sigs store strategy outbound) collected).unsignedDevicesOfVerifiedUsers = []) :
    collected.verifiedUsersWithNewIdentities = [] ∧ collected.unsignedDevicesOfVerifiedUsers = [] ∧
      (∀ u ∈ us, ¬ IsProblem sigs store strategy u) ∧
      (us.foldl (collectForUser sigs store strategy outbound) collected).result = {
        shouldRotate := collected.result.shouldRotate || us.any fun u =>
          outbound.any (isSessionOversharedForUser · u (splitForUser sigs store strategy u).allowedDevices)
        devices := collected.result.devices ++ us.map fun u => (u, (splitForUser sigs store strategy u).allowedDevices)
        withheldDevices := collected.result.withheldDevices ++ us.flatMap fun u =>
          (splitForUser sigs store strategy u).deniedDevicesWithCode } := by
  induction us generalizing collected with
  | nil => exact ⟨hverified, hunsigned, by simp, by simp⟩
  | cons u us ih =>
    obtain ⟨hverified', hunsigned', hproblem, hresult⟩ := ih _ hverified hunsigned
    obtain ⟨hmono, hmono'⟩ := collectForUser_mono sigs store strategy outbound collected u
    obtain ⟨hu, heq⟩ := ((collectForUser_cases sigs store strategy outbound collected u).resolve_left
      (not_not.2 hverified')).resolve_left (not_not.2 hunsigned')
    refine ⟨not_not.1 fun hne => hmono hne hverified', not_not.1 fun hne => hmono' hne hunsigned', ?_, ?_⟩
    · simpa [hu] using hproblem
    · rw [foldl_cons, hresult, heq]
      simp [updateRecipientsForUser, Bool.or_assoc]

lemma collect_ok (h : collectRecipientsForShareStrategy sigs store strategy outbound users = .ok result) :
    (∀ u ∈ users, ¬ IsProblem sigs store strategy u) ∧
      result = {
        shouldRotate := hasLeftUsers outbound users || users.dedup.any fun u =>
          outbound.any (isSessionOversharedForUser · u (splitForUser sigs store strategy u).allowedDevices)
        devices := users.dedup.map fun u => (u, (splitForUser sigs store strategy u).allowedDevices)
        withheldDevices := users.dedup.flatMap fun u => (splitForUser sigs store strategy u).deniedDevicesWithCode } := by
  set start : Collected := ⟨⟨hasLeftUsers outbound users, [], []⟩, [], []⟩ with hstart
  have hfinish : (users.dedup.foldl (collectForUser sigs store strategy outbound) start).finish =
    .ok result := by
    unfold collectRecipientsForShareStrategy at h
    cases strategy with
    | allDevices | errorOnVerifiedUserProblem | onlyTrustedDevices => exact h
    | identityBasedStrategy =>
      cases hown : store.ownIdentity with
      | none => simp [hown] at h
      | some identity =>
        by_cases hverified : identity.isVerified
        · simpa only [hown, hverified, not_true, if_false] using h
        · simp [hown, hverified] at h
  unfold Collected.finish at hfinish
  split at hfinish
  · cases hfinish
  · next hunsigned =>
    split at hfinish
    · cases hfinish
    · next hverified =>
      obtain ⟨-, -, hproblem, hresult⟩ := foldl_collectForUser users.dedup start (not_not.1 hverified)
        (not_not.1 hunsigned)
      refine ⟨fun u hu => hproblem u (mem_dedup.2 hu), ?_⟩
      rw [← Except.ok.inj hfinish, hresult]
      simp [hstart]

lemma collectSessionRecipients_ok {settings : EncryptionSettings} {session : OutboundGroupSession}
    (h : collectSessionRecipients sigs store users settings session = .ok result) :
    ∃ collected, collectRecipientsForShareStrategy sigs store settings.sharingStrategy (some session) users =
        .ok collected ∧
      result = { collected with
        shouldRotate := collected.shouldRotate || session.settings.historyVisibility ≠ settings.historyVisibility ||
          session.settings.algorithm ≠ settings.algorithm } := by
  unfold collectSessionRecipients at h
  split at h
  · cases h
  · next collected hcollected => exact ⟨collected, hcollected, (Except.ok.inj h).symm⟩

/-! ## The laws -/

namespace CollectRecipientsResult

def Allows (result : CollectRecipientsResult) (d : DeviceData) : Prop := ∃ entry ∈ result.devices, d ∈ entry.2

def Withholds (result : CollectRecipientsResult) (d : DeviceData) : Prop :=
    ∃ code, (d, code) ∈ result.withheldDevices

end CollectRecipientsResult

/-- The owner of the device has an identity, and it has signed the device. -/
def IsCrossSigned (sigs : Signatures) (store : CryptoStore) (d : DeviceData) : Prop :=
  ∃ owner, store.userIdentity d.userId = some owner ∧ d.isCrossSignedByOwner sigs owner

/-- What is asked of every collection: each candidate is allowed or withheld, none of the allowed
devices is blacklisted, dehydrated ones are signed, and the stricter strategies keep their
promises. -/
structure RespectsTrust (sigs : Signatures) (store : CryptoStore) (strategy : CollectStrategy)
    (users : List UserId) (result : CollectRecipientsResult) : Prop where
  split : ∀ u ∈ users, ∀ d ∈ store.deviceDataForUserFiltered u, Xor (result.Allows d) (result.Withholds d)
  not_blacklisted : ∀ d, result.Allows d → d.isBlacklisted = false
  dehydrated : ∀ d, result.Allows d → d.isDehydrated → IsCrossSigned sigs store d
  identityBased : strategy = .identityBasedStrategy → ∀ d, result.Allows d →
    IsCrossSigned sigs store d ∧
      hasIdentityVerificationViolation sigs store.ownIdentity (store.userIdentity d.userId) = false
  onlyTrusted : strategy = .onlyTrustedDevices → ∀ d, result.Allows d →
    d.localTrustState = .verified ∨ d.localTrustState = .ignored ∨
      d.isCrossSigningTrusted sigs store.ownIdentity (store.userIdentity d.userId)

section Membership

variable {u : UserId} {d : DeviceData}

lemma userId_of_mem (hd : d ∈ store.deviceDataForUserFiltered u) : d.userId = u := by
  unfold CryptoStore.deviceDataForUserFiltered at hd
  split at hd
  · exact (store.userDevices u).owner d (mem_of_mem_filter hd)
  · exact (store.userDevices u).owner d hd

section

variable (h : collectRecipientsForShareStrategy sigs store strategy outbound users = .ok result)
include h

lemma allows_iff :
    result.Allows d ↔ d.userId ∈ users ∧ d ∈ store.deviceDataForUserFiltered d.userId ∧
      withheldCodeFor sigs store strategy d.userId d = none := by
  rw [(collect_ok h).2]
  constructor
  · rintro ⟨entry, hentry, hd⟩
    obtain ⟨u, hu, rfl⟩ := mem_map.1 hentry
    obtain ⟨hd, hcode⟩ := mem_filter.1 hd
    obtain rfl := userId_of_mem hd
    exact ⟨mem_dedup.1 hu, hd, by simpa using hcode⟩
  · rintro ⟨hu, hd, hcode⟩
    exact ⟨_, mem_map_of_mem (mem_dedup.2 hu), mem_filter.2 ⟨hd, by simpa using hcode⟩⟩

lemma withholds_iff :
    result.Withholds d ↔ d.userId ∈ users ∧ d ∈ store.deviceDataForUserFiltered d.userId ∧
      withheldCodeFor sigs store strategy d.userId d ≠ none := by
  rw [(collect_ok h).2]
  constructor
  · rintro ⟨code, hmem⟩
    obtain ⟨u, hu, hmem⟩ := mem_flatMap.1 hmem
    obtain ⟨e, he, hcode⟩ := mem_filterMap.1 hmem
    obtain ⟨c, hc, heq⟩ := Option.map_eq_some_iff.1 hcode
    obtain ⟨rfl, rfl⟩ := Prod.mk.inj heq
    obtain rfl := userId_of_mem he
    exact ⟨mem_dedup.1 hu, he, by simp [hc]⟩
  · rintro ⟨hu, hd, hcode⟩
    obtain ⟨code, hcode⟩ := Option.ne_none_iff_exists'.1 hcode
    exact ⟨code, mem_flatMap.2 ⟨_, mem_dedup.2 hu, mem_filterMap.2 ⟨d, hd, by simp [hcode]⟩⟩⟩

end

end Membership

/-! ## What each strategy lets through -/

section Strategies

variable {d : DeviceData}

lemma allowed_allDevices (h : withheldCodeFor sigs store .allDevices d.userId d = none) :
    d.isBlacklisted = false ∧ (d.isDehydrated → IsCrossSigned sigs store d) := by
  simp only [withheldCodeFor, withheldCodeForDeviceForAllDevicesStrategy] at h
  split at h
  · cases h
  · next hblack =>
    split at h
    · cases h
    · next hwithhold =>
      refine ⟨by simpa using hblack, fun hdehydrated => ?_⟩
      cases howner : store.userIdentity d.userId with
      | none => simp [hdehydrated, shouldWithholdToDehydratedDevice, howner] at hwithhold
      | some owner =>
        simp only [hdehydrated, shouldWithholdToDehydratedDevice, howner, Option.all_some, Bool.true_and,
          Bool.or_eq_true, not_or, Bool.not_eq_true', Bool.not_eq_false] at hwithhold
        exact ⟨owner, howner, hwithhold.1⟩

lemma allowed_errorOnVerifiedUserProblem
    (h : withheldCodeFor sigs store .errorOnVerifiedUserProblem d.userId d = none) :
    d.isBlacklisted = false ∧ (d.isDehydrated →
      d.localTrustState = .ignored ∨ IsCrossSigned sigs store d) := by
  simp only [withheldCodeFor, handleDeviceForUserForErrorOnVerifiedUserProblemStrategy] at h
  by_cases hblack : d.isBlacklisted
  · simp [hblack] at h
  · refine ⟨by simpa using hblack, fun hdehydrated => ?_⟩
    by_cases hignored : d.localTrustState = .ignored
    · exact .inl hignored
    · refine .inr ?_
      by_cases hunsigned : isUnsignedDeviceOfVerifiedUser sigs store.ownIdentity (store.userIdentity d.userId) d
      · simp [hblack, hignored, hunsigned] at h
      · cases howner : store.userIdentity d.userId with
        | none =>
          rw [howner] at hunsigned
          simp [hblack, hignored, hunsigned, hdehydrated, howner] at h
        | some owner =>
          by_cases hsigned : d.isCrossSignedByOwner sigs owner
          · exact ⟨owner, howner, hsigned⟩
          · rw [howner] at hunsigned
            simp [hblack, hignored, hunsigned, hdehydrated, howner, hsigned] at h

lemma allowed_identityBased (h : withheldCodeFor sigs store .identityBasedStrategy d.userId d = none) :
    IsCrossSigned sigs store d := by
  cases howner : store.userIdentity d.userId with
  | none => simp [withheldCodeFor, howner] at h
  | some owner =>
    refine ⟨owner, howner, ?_⟩
    by_contra hsigned
    simp [withheldCodeFor, howner, withheldCodeForDeviceWithOwnerForIdentityBasedStrategy, hsigned] at h

lemma allowed_onlyTrusted (h : withheldCodeFor sigs store .onlyTrustedDevices d.userId d = none) :
    d.isBlacklisted = false ∧ (d.localTrustState = .verified ∨ d.localTrustState = .ignored ∨
      d.isCrossSigningTrusted sigs store.ownIdentity (store.userIdentity d.userId)) := by
  simp only [withheldCodeFor, withheldCodeForDeviceForOnlyTrustedDevicesStrategy] at h
  cases htrust : d.localTrustState with
  | blackListed => simp [htrust] at h
  | ignored | verified => simp [DeviceData.isBlacklisted, htrust]
  | unset =>
    cases hsigned : d.isCrossSigningTrusted sigs store.ownIdentity (store.userIdentity d.userId) with
    | false => simp [htrust, hsigned] at h
    | true => simp [DeviceData.isBlacklisted, htrust]

lemma isCrossSigned_of_trusted
    (h : d.isCrossSigningTrusted sigs store.ownIdentity (store.userIdentity d.userId)) :
      IsCrossSigned sigs store d := by
  cases howner : store.userIdentity d.userId with
  | none => simp [DeviceData.isCrossSigningTrusted, howner] at h
  | some owner =>
    refine ⟨owner, howner, ?_⟩
    cases owner with
    | own identity =>
      have hown : store.ownIdentity = some identity := by
        rw [CryptoStore.ownIdentity, ← store.own_only _ _ howner, howner]
        rfl
      simp only [DeviceData.isCrossSigningTrusted, howner, hown, Option.any_some, Bool.and_eq_true] at h
      exact h.2
    | other identity =>
      simp only [DeviceData.isCrossSigningTrusted, howner, Option.any_some, Bool.and_eq_true] at h
      exact h.2

end Strategies

/-- **Recipients are trusted**, but for what a strategy lets through: blacklisted devices that are
signed by their owners with the identity-based one, and dehydrated devices that are not signed if
they are ignored, or trusted by hand, with two others. -/
theorem collect_respectsTrust_iff
    (h : collectRecipientsForShareStrategy sigs store strategy outbound users = .ok result) :
    RespectsTrust sigs store strategy users result ↔
      (strategy = .identityBasedStrategy → ∀ u ∈ users, ∀ d ∈ store.deviceDataForUserFiltered u,
        IsCrossSigned sigs store d → d.isBlacklisted = false) ∧
      (strategy = .errorOnVerifiedUserProblem → ∀ u ∈ users, ∀ d ∈ store.deviceDataForUserFiltered u,
        d.isDehydrated → d.localTrustState = .ignored → IsCrossSigned sigs store d) ∧
      (strategy = .onlyTrustedDevices → ∀ u ∈ users, ∀ d ∈ store.deviceDataForUserFiltered u,
        d.isDehydrated → d.localTrustState = .ignored ∨ d.localTrustState = .verified →
          IsCrossSigned sigs store d) := by
  have hallows {u : UserId} {d : DeviceData} (hu : u ∈ users) (hd : d ∈ store.deviceDataForUserFiltered u)
      (hcode : withheldCodeFor sigs store strategy d.userId d = none) : result.Allows d := by
    obtain rfl := userId_of_mem hd
    exact (allows_iff h).2 ⟨hu, hd, hcode⟩
  constructor
  · intro hlaws
    refine ⟨?_, ?_, ?_⟩
    · rintro rfl u hu d hd ⟨owner, howner, hsigned⟩
      refine hlaws.not_blacklisted d (hallows hu hd ?_)
      simp [withheldCodeFor, howner, withheldCodeForDeviceWithOwnerForIdentityBasedStrategy, hsigned]
    · rintro rfl u hu d hd hdehydrated hignored
      refine hlaws.dehydrated d (hallows hu hd ?_) hdehydrated
      simp [withheldCodeFor, handleDeviceForUserForErrorOnVerifiedUserProblemStrategy,
        DeviceData.isBlacklisted, hignored]
    · rintro rfl u hu d hd hdehydrated htrust
      refine hlaws.dehydrated d (hallows hu hd ?_) hdehydrated
      rcases htrust with htrust | htrust <;>
        simp [withheldCodeFor, withheldCodeForDeviceForOnlyTrustedDevicesStrategy, htrust]
  · rintro ⟨hidentity, herror, honly⟩
    constructor
    · intro u hu d hd
      obtain rfl := userId_of_mem hd
      rw [xor_iff_not_iff, allows_iff h, withholds_iff h]
      simp [hu, hd]
    · intro d hd
      obtain ⟨hu, hmem, hcode⟩ := (allows_iff h).1 hd
      cases strategy with
      | allDevices => exact (allowed_allDevices hcode).1
      | errorOnVerifiedUserProblem => exact (allowed_errorOnVerifiedUserProblem hcode).1
      | identityBasedStrategy => exact hidentity rfl _ hu d hmem (allowed_identityBased hcode)
      | onlyTrustedDevices => exact (allowed_onlyTrusted hcode).1
    · intro d hd hdehydrated
      obtain ⟨hu, hmem, hcode⟩ := (allows_iff h).1 hd
      cases strategy with
      | allDevices => exact (allowed_allDevices hcode).2 hdehydrated
      | errorOnVerifiedUserProblem =>
        rcases (allowed_errorOnVerifiedUserProblem hcode).2 hdehydrated with hignored | hsigned
        · exact herror rfl _ hu d hmem hdehydrated hignored
        · exact hsigned
      | identityBasedStrategy => exact allowed_identityBased hcode
      | onlyTrustedDevices =>
        rcases (allowed_onlyTrusted hcode).2 with hverified | hignored | htrusted
        · exact honly rfl _ hu d hmem hdehydrated (.inr hverified)
        · exact honly rfl _ hu d hmem hdehydrated (.inl hignored)
        · exact isCrossSigned_of_trusted htrusted
    · rintro rfl d hd
      obtain ⟨hu, -, hcode⟩ := (allows_iff h).1 hd
      refine ⟨allowed_identityBased hcode, ?_⟩
      by_contra hviolation
      exact (collect_ok h).1 _ hu ⟨.inr rfl, by simpa using hviolation⟩
    · rintro rfl d hd
      exact (allowed_onlyTrusted ((allows_iff h).1 hd).2.2).2

/-- No signature is valid but that of the key `ssk`. -/
def aliceSignatures : Signatures where
  verifyDevice key _ := key = "ssk"
  verifyMasterKey _ _ := false
  verifySignedObject _ _ := false

/-- Alice shares with Bob, whose only device is signed and has the given trust. -/
def bobStore (trust : LocalTrust) : CryptoStore where
  userId := "@alice"
  deviceId := "ALICE"
  userDevices userId :=
    { devices := if userId = "@bob" then [⟨"@bob", "BOB", some "curve", trust, false, false, ⟨0⟩⟩] else []
      nodup := by split <;> simp
      owner := by
        intro d hd
        split at hd
        · next heq => rw [mem_singleton.1 hd, heq]
        · cases hd }
  userIdentity userId :=
    if userId = "@alice" then some (.own ⟨"@alice", "msk", "ssk", "usk", .verified⟩)
    else if userId = "@bob" then some (.other ⟨"@bob", "bobs msk", "ssk", false⟩)
    else none
  own_only := by
    intro user identity h
    by_contra hne
    by_cases hbob : user = "@bob" <;> simp [hne, hbob] at h

theorem collect_respectsTrust_bob : ∃ result,
    collectRecipientsForShareStrategy aliceSignatures (bobStore .unset) .identityBasedStrategy none ["@bob"] = .ok result ∧
      RespectsTrust aliceSignatures (bobStore .unset) .identityBasedStrategy ["@bob"] result := by
  refine ⟨_, rfl, (collect_respectsTrust_iff rfl).2 ⟨?_, nofun, nofun⟩⟩
  rintro - u hu d hd -
  obtain rfl := mem_singleton.1 hu
  obtain rfl := mem_singleton.1 hd
  rfl

/-- A blacklisted device gets the key, as it is signed. -/
theorem collect_allows_blacklisted : ∃ result d,
    collectRecipientsForShareStrategy aliceSignatures (bobStore .blackListed) .identityBasedStrategy none ["@bob"] =
      .ok result ∧ result.Allows d ∧ d.isBlacklisted = true :=
  ⟨_, _, rfl, ⟨_, mem_singleton_self _, mem_singleton_self _⟩, rfl⟩

end HaranaMatrix.Crypto
