import HaranaMatrix.Crypto.OutboundSession

/-!
# Merging received room keys

An inbound group session is better the earlier its ratchet starts and the more its sender is
trusted. A received session is merged with the stored one into a session that has the better half of
each, so the order in which connected sessions come does not matter. -/

namespace HaranaMatrix.Crypto

abbrev RoomId := String

/-! ## Ratchets -/

inductive SessionOrdering
  | equal
  | better
  | worse
  | unconnected
deriving DecidableEq

/-- A ratchet that starts earlier is better. -/
def SessionOrdering.ofIndices (i j : ℕ) : SessionOrdering :=
  if i < j then .better else if j < i then .worse else .equal

/-- Megolm ratchets, which are not part of the source: connected ones are ordered by their first
known index. -/
structure Ratchets (R : Type) where
  firstKnownIndex : R → ℕ
  compare : R → R → SessionOrdering
  ordered : ∀ a b, compare a b ≠ .unconnected →
    compare a b = .ofIndices (firstKnownIndex a) (firstKnownIndex b)

/-! ## Trust -/

structure KnownSenderData where
  userId : UserId
  deviceId : Option DeviceId
  masterKey : MasterPubkey
deriving DecidableEq

inductive SenderData
  | unknownDevice (legacySession ownerCheckFailed : Bool)
  | deviceInfo (deviceId : DeviceId) (legacySession : Bool)
  | verificationViolation (data : KnownSenderData)
  | senderUnverified (data : KnownSenderData)
  | senderVerified (data : KnownSenderData)
deriving DecidableEq

namespace SenderData

def trustNumber : SenderData → ℕ
  | unknownDevice _ _ => 0
  | deviceInfo _ _ => 1
  | verificationViolation _ => 2
  | senderUnverified _ => 3
  | senderVerified _ => 4

def compareTrustLevel (a b : SenderData) : Ordering := compare a.trustNumber b.trustNumber

end SenderData

/-! ## Sessions -/

structure SessionCreatorInfo where
  curve25519Key : Curve25519PublicKey
  signingKeys : List (String × String)
deriving DecidableEq

/-- The first known index is that of the ratchet. -/
structure InboundGroupSession {R : Type} (ratchets : Ratchets R) where
  inner : R
  sessionId : SessionId
  firstKnownIndex : ℕ
  creatorInfo : SessionCreatorInfo
  senderData : SenderData
  roomId : RoomId
  algorithm : EventEncryptionAlgorithm
  backedUp : Bool
  index_eq : firstKnownIndex = ratchets.firstKnownIndex inner

variable {R : Type} {ratchets : Ratchets R}

namespace InboundGroupSession

/-- The copy with the ratchet of another session; a session of another room or with another ID is a
panic. -/
def withRatchet (session other : InboundGroupSession ratchets) : Option (InboundGroupSession ratchets) :=
  if session.sessionId ≠ other.sessionId then none
  else if session.roomId ≠ other.roomId then none
  else some { session with
    inner := other.inner
    firstKnownIndex := other.firstKnownIndex
    index_eq := other.index_eq }

/-- `sameObject` is whether both have the same ratchet in memory, which then has one value. -/
def compareRatchet [DecidableEq R] (sameObject : Bool)
    (session other : InboundGroupSession ratchets) : SessionOrdering :=
  if sameObject ∧ session.inner = other.inner then .equal
  else if session.creatorInfo.curve25519Key ≠ other.creatorInfo.curve25519Key ∨
      session.creatorInfo.signingKeys ≠ other.creatorInfo.signingKeys ∨
      session.algorithm ≠ other.algorithm ∨ session.roomId ≠ other.roomId then
    .unconnected
  else ratchets.compare session.inner other.inner

def trust (session : InboundGroupSession ratchets) : ℕ := session.senderData.trustNumber

end InboundGroupSession

open InboundGroupSession

/-- A session that was just received. -/
structure Received {R : Type} (ratchets : Ratchets R) where
  session : InboundGroupSession ratchets
  sameObject : Bool

abbrev InboundStore {R : Type} (ratchets : Ratchets R) :=
    RoomId → SessionId → Option (InboundGroupSession ratchets)

section Merge

variable [DecidableEq R]

/-- How a received session is merged with the old one; the outer `none` is a panic. -/
def mergeWith (old : InboundGroupSession ratchets) (received : Received ratchets) :
    Option (Option (InboundGroupSession ratchets)) :=
  let session := received.session
  match session.compareRatchet received.sameObject old, session.senderData.compareTrustLevel old.senderData with
  | .unconnected, _ => some none
  | .better, .gt | .better, .eq | .equal, .gt => some (some session)
  | .worse, .lt | .worse, .eq | .equal, .lt => some none
  | .equal, .eq => some none
  | .better, .lt => (old.withRatchet session).map fun result => some { result with backedUp := false }
  | .worse, .gt => (session.withRatchet old).map some

def mergeReceivedGroupSession (store : InboundStore ratchets) (received : Received ratchets) :
    Option (Option (InboundGroupSession ratchets)) :=
  match store received.session.roomId received.session.sessionId with
  | none => some (some received.session)
  | some old => mergeWith old received

/-- What is returned is stored. -/
def InboundStore.saved (store : InboundStore ratchets) (merged : Option (InboundGroupSession ratchets)) :
    InboundStore ratchets :=
  match merged with
  | none => store
  | some session => fun roomId sessionId =>
      if roomId = session.roomId ∧ sessionId = session.sessionId then some session else store roomId sessionId

def receiveAll (store : InboundStore ratchets) : List (Received ratchets) → Option (InboundStore ratchets)
  | [] => some store
  | received :: rest =>
    match mergeReceivedGroupSession store received with
    | none => none
    | some merged => receiveAll (store.saved merged) rest

/-! ## One merge -/

variable {old session : InboundGroupSession ratchets} {received : Received ratchets}
  {store : InboundStore ratchets}

/-- The session that is stored after a merge with `old`. -/
def storedAfter (old : InboundGroupSession ratchets) (merged : Option (InboundGroupSession ratchets)) :
    InboundGroupSession ratchets :=
  merged.getD old

section Ordered

variable {sameObject : Bool} {ordering : SessionOrdering}

lemma compareRatchet_ordered (ho : session.compareRatchet sameObject old = ordering)
    (h : ordering ≠ .unconnected) :
    ordering = .ofIndices session.firstKnownIndex old.firstKnownIndex := by
  subst ho
  unfold compareRatchet at h ⊢
  split_ifs at h ⊢ with hsame hkeys
  · simp [session.index_eq, old.index_eq, hsame.2, SessionOrdering.ofIndices]
  · exact absurd rfl h
  · rw [ratchets.ordered _ _ h, session.index_eq, old.index_eq]

lemma index_of_better (h : session.compareRatchet sameObject old = .better) :
    session.firstKnownIndex < old.firstKnownIndex := by
  have hordered := compareRatchet_ordered h (by simp)
  rw [SessionOrdering.ofIndices] at hordered
  split_ifs at hordered with hlt
  exact hlt

lemma index_of_worse (h : session.compareRatchet sameObject old = .worse) :
    old.firstKnownIndex < session.firstKnownIndex := by
  have hordered := compareRatchet_ordered h (by simp)
  rw [SessionOrdering.ofIndices] at hordered
  split_ifs at hordered with _ hlt
  exact hlt

lemma index_of_equal (h : session.compareRatchet sameObject old = .equal) :
    session.firstKnownIndex = old.firstKnownIndex := by
  have hordered := compareRatchet_ordered h (by simp)
  rw [SessionOrdering.ofIndices] at hordered
  split_ifs at hordered with hlt hgt
  omega

end Ordered

/-- What a merge gives: the better half of each, and something to store iff that is better than
before. -/
structure Merged (old : InboundGroupSession ratchets) (received : Received ratchets)
    (merged : Option (InboundGroupSession ratchets)) : Prop where
  unconnected : received.session.compareRatchet received.sameObject old = .unconnected → merged = none
  index : received.session.compareRatchet received.sameObject old ≠ .unconnected →
    (storedAfter old merged).firstKnownIndex = min old.firstKnownIndex received.session.firstKnownIndex
  trust : received.session.compareRatchet received.sameObject old ≠ .unconnected →
    (storedAfter old merged).trust = max old.trust received.session.trust
  isSome_iff : merged.isSome ↔ (storedAfter old merged).firstKnownIndex < old.firstKnownIndex ∨
    old.trust < (storedAfter old merged).trust
  inner : (storedAfter old merged).inner = old.inner ∨
    (storedAfter old merged).inner = received.session.inner ∧
    (received.session.compareRatchet received.sameObject old = .better ∨
      received.session.compareRatchet received.sameObject old = .equal)
  keys : (storedAfter old merged).creatorInfo = old.creatorInfo ∧
    (storedAfter old merged).algorithm = old.algorithm ∨
    (storedAfter old merged).creatorInfo = received.session.creatorInfo ∧
      (storedAfter old merged).algorithm = received.session.algorithm
  ids : (storedAfter old merged).roomId = old.roomId ∧ (storedAfter old merged).sessionId = old.sessionId

lemma Merged.keep (h : received.session.compareRatchet received.sameObject old ≠ .unconnected →
      old.firstKnownIndex ≤ received.session.firstKnownIndex ∧ received.session.trust ≤ old.trust) :
    Merged old received none where
  unconnected _ := rfl
  index hne := (min_eq_left (h hne).1).symm
  trust hne := (max_eq_left (h hne).2).symm
  isSome_iff := by simp [storedAfter]
  inner := .inl rfl
  keys := .inl ⟨rfl, rfl⟩
  ids := ⟨rfl, rfl⟩

lemma Merged.take (hratchet : received.session.compareRatchet received.sameObject old = .better ∨
      received.session.compareRatchet received.sameObject old = .equal)
    (hindex : received.session.firstKnownIndex ≤ old.firstKnownIndex)
    (htrust : old.trust ≤ received.session.trust)
    (hbetter : received.session.firstKnownIndex < old.firstKnownIndex ∨ old.trust < received.session.trust)
    (hroom : received.session.roomId = old.roomId) (hid : received.session.sessionId = old.sessionId) :
    Merged old received (some received.session) where
  unconnected h := by rcases hratchet with hratchet | hratchet <;> simp [hratchet] at h
  index _ := (min_eq_right hindex).symm
  trust _ := (max_eq_right htrust).symm
  isSome_iff := ⟨fun _ => hbetter, fun _ => rfl⟩
  inner := .inr ⟨rfl, hratchet⟩
  keys := .inr ⟨rfl, rfl⟩
  ids := ⟨hroom, hid⟩

/-- **A merge has the better half of each session.** -/
lemma mergeWith_spec (hroom : received.session.roomId = old.roomId)
    (hid : received.session.sessionId = old.sessionId) :
    ∃ merged, mergeWith old received = some merged ∧ Merged old received merged := by
  have hle : received.session.senderData.compareTrustLevel old.senderData ≠ .gt →
    received.session.trust ≤ old.trust :=
    Nat.compare_ne_gt.1
  have hge : received.session.senderData.compareTrustLevel old.senderData ≠ .lt →
    old.trust ≤ received.session.trust :=
    Nat.compare_ne_lt.1
  cases hratchet : received.session.compareRatchet received.sameObject old with
  | unconnected => exact ⟨none, by simp [mergeWith, hratchet], .keep fun h => absurd hratchet h⟩
  | better =>
    have hindex := index_of_better hratchet
    cases htrust : received.session.senderData.compareTrustLevel old.senderData with
    | lt =>
      refine ⟨some { old with
        inner := received.session.inner
        firstKnownIndex := received.session.firstKnownIndex
        backedUp := false
        index_eq := received.session.index_eq }, ?_, ?_⟩
      · simp [mergeWith, hratchet, htrust, withRatchet, hroom, hid]
      · refine ⟨by simp [hratchet], fun _ => (min_eq_right hindex.le).symm, fun _ => (max_eq_left (hle (by simp [htrust]))).symm,
          ⟨fun _ => .inl hindex, fun _ => rfl⟩, .inr ⟨rfl, .inl hratchet⟩, .inl ⟨rfl, rfl⟩, rfl, rfl⟩
    | eq | gt =>
      exact ⟨_, by simp [mergeWith, hratchet, htrust],
        .take (.inl hratchet) hindex.le (hge (by simp [htrust])) (.inl hindex) hroom hid⟩
  | equal =>
    have hindex := index_of_equal hratchet
    cases htrust : received.session.senderData.compareTrustLevel old.senderData with
    | lt | eq =>
      exact ⟨none, by simp [mergeWith, hratchet, htrust], .keep fun _ => ⟨hindex.ge, hle (by simp [htrust])⟩⟩
    | gt =>
      have htrust' : old.trust < received.session.trust := Nat.compare_eq_gt.1 htrust
      exact ⟨_, by simp [mergeWith, hratchet, htrust],
        .take (.inr hratchet) hindex.le htrust'.le (.inr htrust') hroom hid⟩
  | worse =>
    have hindex := index_of_worse hratchet
    cases htrust : received.session.senderData.compareTrustLevel old.senderData with
    | lt | eq =>
      exact ⟨none, by simp [mergeWith, hratchet, htrust], .keep fun _ => ⟨hindex.le, hle (by simp [htrust])⟩⟩
    | gt =>
      have htrust' : old.trust < received.session.trust := Nat.compare_eq_gt.1 htrust
      refine ⟨some { received.session with
        inner := old.inner
        firstKnownIndex := old.firstKnownIndex
        index_eq := old.index_eq }, ?_, ?_⟩
      · simp [mergeWith, hratchet, htrust, withRatchet, hroom, hid]
      · exact ⟨by simp [hratchet], fun _ => (min_eq_left hindex.le).symm, fun _ => (max_eq_right htrust'.le).symm,
          ⟨fun _ => .inr htrust', fun _ => rfl⟩, .inl rfl, .inr ⟨rfl, rfl⟩, hroom, hid⟩

/-! ## The store -/

/-- Sessions are stored under their own room and ID. -/
def InboundStore.Keyed (store : InboundStore ratchets) : Prop :=
  ∀ roomId sessionId, ∀ session ∈ store roomId sessionId, session.roomId = roomId ∧
    session.sessionId = sessionId

omit [DecidableEq R] in
lemma InboundStore.Keyed.saved (h : store.Keyed) (merged : Option (InboundGroupSession ratchets)) :
    (store.saved merged).Keyed := by
  cases merged with
  | none => exact h
  | some session =>
    intro roomId sessionId s hs
    unfold InboundStore.saved at hs
    dsimp only at hs
    split_ifs at hs with hids
    · obtain rfl := Option.some.inj hs
      exact ⟨hids.1.symm, hids.2.symm⟩
    · exact h roomId sessionId s hs

omit [DecidableEq R] in
lemma saved_apply {merged : Option (InboundGroupSession ratchets)} {roomId : RoomId} {sessionId : SessionId}
    (hold : store roomId sessionId = some old)
    (hids : (storedAfter old merged).roomId = roomId ∧ (storedAfter old merged).sessionId = sessionId) :
    store.saved merged roomId sessionId = some (storedAfter old merged) := by
  cases merged with
  | none => exact hold
  | some session => exact if_pos ⟨hids.1.symm, hids.2.symm⟩

lemma mergeReceivedGroupSession_spec (h : store.Keyed) (received : Received ratchets) :
    ∃ merged, mergeReceivedGroupSession store received = some merged ∧
      (store received.session.roomId received.session.sessionId = none → merged = some received.session) ∧
      ∀ old ∈ store received.session.roomId received.session.sessionId, Merged old received merged := by
  unfold mergeReceivedGroupSession
  cases hold : store received.session.roomId received.session.sessionId with
  | none => exact ⟨_, rfl, fun _ => rfl, nofun⟩
  | some old =>
    obtain ⟨hroom, hid⟩ := h _ _ old hold
    obtain ⟨merged, hmerged, hspec⟩ := mergeWith_spec hroom.symm hid.symm
    refine ⟨merged, hmerged, nofun, ?_⟩
    rintro _ ⟨⟩
    exact hspec

lemma receiveAll_concat (store : InboundStore ratchets) (before : List (Received ratchets))
    (r : Received ratchets) :
    receiveAll store (before ++ [r]) = (receiveAll store before).bind fun store =>
      (mergeReceivedGroupSession store r).map store.saved := by
  induction before generalizing store with
  | nil =>
    cases hmerge : mergeReceivedGroupSession store r <;> simp [receiveAll, hmerge]
  | cons r' before ih =>
    rw [List.cons_append, receiveAll, receiveAll]
    cases mergeReceivedGroupSession store r' with
    | none => rfl
    | some merged => exact ih _

lemma exists_receiveAll (h : store.Keyed) (received : List (Received ratchets)) :
    ∃ final, receiveAll store received = some final ∧ final.Keyed := by
  induction received generalizing store with
  | nil => exact ⟨store, rfl, h⟩
  | cons r received ih =>
    obtain ⟨merged, hmerged, -⟩ := mergeReceivedGroupSession_spec h r
    rw [receiveAll, hmerged]
    exact ih (h.saved merged)

/-! ## Any order -/

/-- The ratchets compare as connected, and the keys are the same. -/
def InboundGroupSession.Connected (session other : InboundGroupSession ratchets) : Prop :=
  session.compareRatchet false other ≠ .unconnected

lemma compareRatchet_ne_unconnected {sameObject : Bool} (hcreator : session.creatorInfo = old.creatorInfo)
    (halgorithm : session.algorithm = old.algorithm) (hroom : session.roomId = old.roomId)
    (hinner : ratchets.compare session.inner old.inner ≠ .unconnected) :
    session.compareRatchet sameObject old ≠ .unconnected := by
  unfold compareRatchet
  split_ifs with hsame hkeys
  · simp
  · simp [hcreator, halgorithm, hroom] at hkeys
  · exact hinner

lemma InboundGroupSession.Connected.keys (h : session.Connected old) : session.creatorInfo = old.creatorInfo ∧
    session.algorithm = old.algorithm ∧ ratchets.compare session.inner old.inner ≠ .unconnected := by
  unfold InboundGroupSession.Connected compareRatchet at h
  rw [if_neg (by simp)] at h
  split_ifs at h with hkeys
  · exact absurd rfl h
  · push Not at hkeys
    obtain ⟨hcurve, hsigning, halgorithm, -⟩ := hkeys
    refine ⟨?_, halgorithm, h⟩
    rcases hs : session.creatorInfo with ⟨curve, signing⟩
    rcases ho : old.creatorInfo with ⟨curve', signing'⟩
    simp only [hs, ho] at hcurve hsigning
    rw [hcurve, hsigning]

/-- The stored session is the best of those received so far, and connected with what they are
connected with. -/
structure Best (received : List (Received ratchets)) (last : InboundGroupSession ratchets) : Prop where
  index : IsLeast { i | ∃ r ∈ received, r.session.firstKnownIndex = i } last.firstKnownIndex
  trust : IsGreatest { n | ∃ r ∈ received, r.session.trust = n } last.trust
  inner : ∃ r ∈ received, last.inner = r.session.inner
  keys : ∃ r ∈ received, last.creatorInfo = r.session.creatorInfo ∧ last.algorithm = r.session.algorithm

omit [DecidableEq R] in
lemma setOf_concat {f : InboundGroupSession ratchets → ℕ} (before : List (Received ratchets))
    (r : Received ratchets) :
    { i | ∃ r' ∈ before ++ [r], f r'.session = i } = insert (f r.session)
    { i | ∃ r' ∈ before, f r'.session = i } := by
  ext i
  simp only [List.mem_append, List.mem_singleton, Set.mem_ofPred_eq, Set.mem_insert_iff]
  constructor
  · rintro ⟨r', hr' | rfl, rfl⟩
    · exact .inr ⟨r', hr', rfl⟩
    · exact .inl rfl
  · rintro (rfl | ⟨r', hr', rfl⟩)
    · exact ⟨r, .inr rfl, rfl⟩
    · exact ⟨r', .inl hr', rfl⟩

omit [DecidableEq R] in
lemma Best.single (r : Received ratchets) : Best [r] r.session where
  index := ⟨⟨r, by simp, rfl⟩, by rintro _ ⟨r', hr', rfl⟩; rw [List.mem_singleton.1 hr']⟩
  trust := ⟨⟨r, by simp, rfl⟩, by rintro _ ⟨r', hr', rfl⟩; rw [List.mem_singleton.1 hr']⟩
  inner := ⟨r, by simp, rfl⟩
  keys := ⟨r, by simp, rfl, rfl⟩

lemma Best.step {before : List (Received ratchets)} {r : Received ratchets}
    {merged : Option (InboundGroupSession ratchets)}
    (h : Best before old) (hconnected : ∀ r' ∈ before, r.session.Connected r'.session)
    (hroom : r.session.roomId = old.roomId) (hmerged : Merged old r merged) :
    Best (before ++ [r]) (storedAfter old merged) := by
  -- The stored session has the ratchet of one received session and the keys of another.
  have hcompare : r.session.compareRatchet r.sameObject old ≠ .unconnected := by
    obtain ⟨r₁, hr₁, hinner⟩ := h.inner
    obtain ⟨r₂, hr₂, hcreator, halgorithm⟩ := h.keys
    obtain ⟨hcreator', halgorithm', -⟩ := (hconnected r₂ hr₂).keys
    refine compareRatchet_ne_unconnected (hcreator'.trans hcreator.symm) (halgorithm'.trans halgorithm.symm) hroom ?_
    rw [hinner]
    exact (hconnected r₁ hr₁).keys.2.2
  refine ⟨?_, ?_, ?_, ?_⟩
  · rw [hmerged.index hcompare, min_comm, setOf_concat]
    exact h.index.insert _
  · rw [hmerged.trust hcompare, max_comm, setOf_concat]
    exact h.trust.insert _
  · rcases hmerged.inner with hinner | ⟨hinner, -⟩
    · obtain ⟨r', hr', heq⟩ := h.inner
      exact ⟨r', List.mem_append_left _ hr', hinner.trans heq⟩
    · exact ⟨r, by simp, hinner⟩
  · rcases hmerged.keys with ⟨hcreator, halgorithm⟩ | hkeys
    · obtain ⟨r', hr', hcreator', halgorithm'⟩ := h.keys
      exact ⟨r', List.mem_append_left _ hr', hcreator.trans hcreator', halgorithm.trans halgorithm'⟩
    · exact ⟨r, by simp, hkeys⟩

/-- **Connected sessions merge to the best of all, in any order.** -/
lemma best_receiveAll {roomId : RoomId} {sessionId : SessionId}
    {received : List (Received ratchets)} (h : store.Keyed) (hempty : store roomId sessionId = none)
    (hids : ∀ r ∈ received, r.session.roomId = roomId ∧ r.session.sessionId = sessionId)
    (hconnected : received.Pairwise fun r r' => r'.session.Connected r.session) (hne : received ≠ []) :
    ∃ final last, receiveAll store received = some final ∧ final.Keyed ∧ final roomId sessionId = some last ∧
      Best received last := by
  induction received using List.reverseRecOn with
  | nil => exact absurd rfl hne
  | append_singleton before r ih =>
    have hr := hids r (by simp)
    obtain ⟨hbefore, -, hlast⟩ := List.pairwise_append.1 hconnected
    by_cases hnil : before = []
    · subst hnil
      obtain ⟨merged, hmerged, hnew, -⟩ := mergeReceivedGroupSession_spec h r
      obtain rfl := hnew (by rw [hr.1, hr.2, hempty])
      refine ⟨store.saved (some r.session), r.session, by simp [receiveAll, hmerged], h.saved _, ?_, .single r⟩
      exact if_pos ⟨hr.1.symm, hr.2.symm⟩
    · obtain ⟨final, last, hfinal, hkeyed, hlast', hbest⟩ :=
        ih (fun r' hr' => hids r' (by simp [hr'])) hbefore hnil
      obtain ⟨merged, hmerged, -, hold⟩ := mergeReceivedGroupSession_spec hkeyed r
      rw [hr.1, hr.2] at hold
      have hmerge := hold last hlast'
      obtain ⟨hroom, hid⟩ := hkeyed _ _ last hlast'
      refine ⟨final.saved merged, storedAfter last merged, ?_, hkeyed.saved merged, ?_, ?_⟩
      · rw [receiveAll_concat, hfinal, Option.bind_some, hmerged, Option.map_some]
      · exact saved_apply hlast' ⟨hmerge.ids.1.trans hroom, hmerge.ids.2.trans hid⟩
      · exact hbest.step (fun r' hr' => hlast r' hr' r (by simp)) (hr.1.trans hroom.symm) hmerge

/-- **Merging is independent of the order and never regresses.** -/
theorem receiveAll_merges {roomId : RoomId} {sessionId : SessionId}
    {received : List (Received ratchets)} (h : store.Keyed) (hempty : store roomId sessionId = none)
    (hids : ∀ r ∈ received, r.session.roomId = roomId ∧ r.session.sessionId = sessionId) :
    (∀ before r after, received = before ++ r :: after →
      ∃ store' merged, receiveAll store before = some store' ∧
      mergeReceivedGroupSession store' r = some merged ∧
        receiveAll store (before ++ [r]) = some (store'.saved merged) ∧
      (store' roomId sessionId = none → merged = some r.session) ∧
      ∀ old ∈ store' roomId sessionId, ∃ new, store'.saved merged roomId sessionId = some new ∧
        (new.inner = old.inner ∨ new.inner = r.session.inner ∧
          (r.session.compareRatchet r.sameObject old = .better ∨
            r.session.compareRatchet r.sameObject old = .equal)) ∧
        new.firstKnownIndex ≤ old.firstKnownIndex ∧ old.trust ≤ new.trust ∧
        (merged.isSome ↔ new.firstKnownIndex < old.firstKnownIndex ∨ old.trust < new.trust) ∧
        (r.session.compareRatchet r.sameObject old = .unconnected → new = old)) ∧
    (received ≠ [] → (received.Pairwise fun r r' => r.session.Connected r'.session ∧
      r'.session.Connected r.session) →
      ∃ final last, receiveAll store received = some final ∧ final roomId sessionId = some last ∧
        IsLeast { i | ∃ r ∈ received, r.session.firstKnownIndex = i } last.firstKnownIndex ∧
        IsGreatest { n | ∃ r ∈ received, r.session.trust = n } last.trust) := by
  refine ⟨?_, fun hne hconnected => ?_⟩
  · rintro before r after rfl
    obtain ⟨store', hstore', hkeyed⟩ := exists_receiveAll h before
    obtain ⟨merged, hmerged, hnew, hold⟩ := mergeReceivedGroupSession_spec hkeyed r
    obtain ⟨rfl, rfl⟩ := hids r (by simp)
    refine ⟨store', merged, hstore', hmerged, ?_, hnew, fun old hmem => ?_⟩
    · rw [receiveAll_concat, hstore', Option.bind_some, hmerged, Option.map_some]
    have hmerge := hold old hmem
    obtain ⟨hroom, hid⟩ := hkeyed _ _ old hmem
    refine ⟨storedAfter old merged,
      saved_apply hmem ⟨hmerge.ids.1.trans hroom, hmerge.ids.2.trans hid⟩, hmerge.inner,
      ?_, ?_, hmerge.isSome_iff, fun hun => ?_⟩
    · by_cases hun : r.session.compareRatchet r.sameObject old = .unconnected
      · rw [hmerge.unconnected hun]
        exact le_rfl
      · rw [hmerge.index hun]
        exact min_le_left _ _
    · by_cases hun : r.session.compareRatchet r.sameObject old = .unconnected
      · rw [hmerge.unconnected hun]
        exact le_rfl
      · rw [hmerge.trust hun]
        exact le_max_left _ _
    · rw [hmerge.unconnected hun]
      rfl
  · obtain ⟨final, last, hfinal, -, hlast, hbest⟩ :=
      best_receiveAll h hempty hids (hconnected.imp fun h => h.2) hne
    exact ⟨final, last, hfinal, hlast, hbest.index, hbest.trust⟩

end Merge

/-- Ratchets that are all connected, given by their first index. -/
def plainRatchets : Ratchets ℕ where
  firstKnownIndex i := i
  compare := .ofIndices
  ordered _ _ _ := rfl

def plainReceived (index : ℕ) (senderData : SenderData) : Received plainRatchets where
  session := ⟨index, 0, index, ⟨"curve", []⟩, senderData, "!room", .megolmV1AesSha2, false, rfl⟩
  sameObject := false

/-- A verified sender's key from a late index, and an unknown one from the start. -/
def plainSequence : List (Received plainRatchets) :=
  [plainReceived 3 (.senderVerified ⟨"@bob", none, "msk"⟩), plainReceived 0 (.unknownDevice false false)]

theorem receiveAll_merges_plain : ∃ final last, receiveAll (fun _ _ => none) plainSequence = some final ∧
    final "!room" 0 = some last ∧ last.firstKnownIndex = 0 ∧ last.trust = 4 := by
  have hkeyed : InboundStore.Keyed (fun _ _ => none : InboundStore plainRatchets) := nofun
  have hids : ∀ r ∈ plainSequence, r.session.roomId = "!room" ∧ r.session.sessionId = 0 := by
    simp [plainSequence, plainReceived]
  have hconnected : plainSequence.Pairwise fun r r' =>
      r.session.Connected r'.session ∧ r'.session.Connected r.session := by
    simp [plainSequence, InboundGroupSession.Connected, InboundGroupSession.compareRatchet,
      plainReceived, plainRatchets, SessionOrdering.ofIndices]
  obtain ⟨final, last, hfinal, hlast, hindex, htrust⟩ :=
    (receiveAll_merges hkeyed rfl hids).2 nofun hconnected
  refine ⟨final, last, hfinal, hlast,
    Nat.le_zero.1 (hindex.2 ⟨_, List.mem_cons_of_mem _ List.mem_cons_self, rfl⟩), ?_⟩
  have hle : 4 ≤ last.trust := htrust.2 ⟨_, List.mem_cons_self, rfl⟩
  obtain ⟨r, hr, heq⟩ := htrust.1
  rcases List.mem_cons.1 hr with rfl | hr
  · exact heq.symm
  · rw [List.mem_singleton.1 hr] at heq
    change 0 = last.trust at heq
    omega

end HaranaMatrix.Crypto
