import HaranaMatrix.Lib.Bounded

/-!
# Replayed messages

A ratchet index identifies one message of a Megolm session. The event in which it was first
decrypted is remembered, for a bounded number of sessions and of indices of each, and a message that
turns up in another event is reported. -/

namespace HaranaMatrix.Crypto

open List Bounded

def maxTrackedSessions : ℕ := 1000
def maxTrackedIndicesPerSession : ℕ := 5000

/-- The event a ratchet index was first decrypted in. -/
structure EventFingerprint where
  eventId : String
  originServerTs : ℕ
deriving DecidableEq

/-- The records of a session: `by_index` and its insertion order. -/
abbrev SessionRecords := Bounded UInt32 EventFingerprint

/-- The fingerprint that was there, if any, and the records. -/
def SessionRecords.record (records : SessionRecords) (messageIndex : UInt32)
    (fingerprint : EventFingerprint) :
    Option EventFingerprint × SessionRecords :=
  match records.get messageIndex with
  | some existing => (some existing, records)
  | none => (none, records.add maxTrackedIndicesPerSession messageIndex fingerprint)

inductive ReplayCheck
  | ok
  | replayed (originalEventId : String)
deriving DecidableEq

/-- The sessions and their insertion order. -/
abbrev ReplayProtection := Bounded String SessionRecords

/-- The arguments of a check. -/
structure ReplayProtection.Call where
  sessionId : String
  messageIndex : UInt32
  eventId : String
  originServerTs : ℕ

namespace ReplayProtection

def Call.fingerprint (call : Call) : EventFingerprint := ⟨call.eventId, call.originServerTs⟩

/-- The call is about a message. -/
def Call.isFor (call : Call) (sessionId : String) (messageIndex : UInt32) : Bool :=
  call.sessionId = sessionId ∧ call.messageIndex = messageIndex

def check (protection : ReplayProtection) (call : Call) : ReplayCheck × ReplayProtection :=
  let sessions := protection.add maxTrackedSessions call.sessionId .empty
  -- the session was just inserted, if it was not there
  let records := (sessions.get call.sessionId).getD .empty
  let (existing, records) := SessionRecords.record records call.messageIndex call.fingerprint
  let result := match existing with
    | none => .ok
    | some existing => if existing = call.fingerprint then .ok else .replayed existing.eventId
  (result, sessions.modify call.sessionId fun _ => records)

variable (calls : List Call)

/-- After a sequence of calls. -/
def run : ReplayProtection := calls.foldl (fun protection call => (check protection call).2) .empty

lemma run_concat (call : Call) : run (calls ++ [call]) = (check (run calls) call).2 := by
  rw [run, foldl_append]
  rfl

/-! ## What is remembered of a message -/

def lookup (protection : ReplayProtection) (sessionId : String) (messageIndex : UInt32) :
    Option EventFingerprint :=
  (protection.get sessionId).bind (·.get messageIndex)

variable {protection : ReplayProtection} {call : Call} {sessionId : String} {messageIndex : UInt32}
  {fingerprint : EventFingerprint}

lemma record_snd (records : SessionRecords) :
    (SessionRecords.record records messageIndex fingerprint).2 =
      records.add maxTrackedIndicesPerSession messageIndex fingerprint := by
  unfold SessionRecords.record
  split
  · next h => rw [add, dif_neg (by simp [h])]
  · rfl

lemma get_check_self : (check protection call).2.get call.sessionId = some
    (((protection.get call.sessionId).getD .empty).add maxTrackedIndicesPerSession call.messageIndex call.fingerprint) := by
  simp only [check]
  rw [get_modify, if_pos rfl, get_add_self, record_snd]
  rfl

lemma get_check_ne (h : sessionId ≠ call.sessionId) :
    (check protection call).2.get sessionId =
      (protection.add maxTrackedSessions call.sessionId .empty).get sessionId := by
  simp only [check]
  rw [get_modify, if_neg h]

lemma lookup_self : ((protection.get sessionId).getD .empty).get messageIndex =
    lookup protection sessionId messageIndex := by
  unfold lookup
  cases protection.get sessionId <;> rfl

/-- **The result depends on what is remembered of the message.** -/
lemma check_fst : (check protection call).1 = match lookup protection call.sessionId call.messageIndex with
    | none => .ok
    | some existing => if existing = call.fingerprint then .ok else .replayed existing.eventId := by
  simp only [check]
  rw [get_add_self, Option.getD_some, ← lookup_self, SessionRecords.record]
  cases ((protection.get call.sessionId).getD .empty).get call.messageIndex <;> rfl

lemma lookup_of_check (h : lookup (check protection call).2 sessionId messageIndex = some fingerprint) :
    lookup protection sessionId messageIndex = some fingerprint ∨
      sessionId = call.sessionId ∧ messageIndex = call.messageIndex ∧ fingerprint = call.fingerprint := by
  by_cases hs : sessionId = call.sessionId
  · rw [lookup, hs, get_check_self, Option.bind_some] at h
    rw [← lookup_self, hs]
    exact (get_of_add h).imp_right fun h => ⟨rfl, h⟩
  · rw [lookup, get_check_ne hs] at h
    obtain ⟨records, hrecords, h⟩ := Option.bind_eq_some_iff.1 h
    rcases get_of_add hrecords with hrecords | ⟨heq, -⟩
    · exact .inl (Option.bind_eq_some_iff.2 ⟨records, hrecords, h⟩)
    · exact absurd heq hs

/-- **What is remembered was seen**, whatever was forgotten. -/
lemma exists_of_lookup {calls : List Call}
    (h : lookup (run calls) sessionId messageIndex = some fingerprint) :
    ∃ call ∈ calls, call.sessionId = sessionId ∧ call.messageIndex = messageIndex ∧
      call.fingerprint = fingerprint := by
  induction calls using List.reverseRecOn with
  | nil => cases h
  | append_singleton calls call ih =>
    rw [run_concat] at h
    rcases lookup_of_check h with h | ⟨hs, hi, hf⟩
    · obtain ⟨call', hmem, hcall'⟩ := ih h
      exact ⟨call', mem_append_left _ hmem, hcall'⟩
    · exact ⟨call, by simp, hs.symm, hi.symm, hf.symm⟩

/-! ## Within the bounds -/

/-- There are at most so many sessions, and indices of each. -/
def WithinBounds : Prop :=
  (calls.map (·.sessionId)).toFinset.card ≤ maxTrackedSessions ∧
    ∀ sessionId, ((calls.filter (·.sessionId = sessionId)).map (·.messageIndex)).toFinset.card ≤
      maxTrackedIndicesPerSession

lemma WithinBounds.of_concat {calls : List Call} (h : WithinBounds (calls ++ [call])) : WithinBounds calls :=
  ⟨(card_le (map_subset _ (subset_append_left _ _))).trans h.1, fun sessionId =>
    (card_le (map_subset _ (filter_subset _ (subset_append_left _ _)))).trans (h.2 sessionId)⟩

lemma mem_sessions {calls : List Call} (h : sessionId ∈ (run calls).insertionOrder) :
    sessionId ∈ calls.map (·.sessionId) := by
  induction calls using List.reverseRecOn with
  | nil => cases h
  | append_singleton calls call ih =>
    rw [run_concat] at h
    rw [map_append, mem_append, map_singleton, mem_singleton]
    exact (mem_of_mem_add h).imp_left ih

lemma mem_indices {calls : List Call}
    (h : messageIndex ∈ (((run calls).get sessionId).getD .empty).insertionOrder) :
    messageIndex ∈ (calls.filter (·.sessionId = sessionId)).map (·.messageIndex) := by
  obtain ⟨fingerprint, hf⟩ := Option.isSome_iff_exists.1 (mem_insertionOrder.1 h)
  rw [lookup_self] at hf
  obtain ⟨call, hmem, hs, hi, -⟩ := exists_of_lookup hf
  exact mem_map.2 ⟨call, mem_filter.2 ⟨hmem, by simpa using hs⟩, hi⟩

lemma lookup_check
    (hsession : protection.get call.sessionId = none → protection.insertionOrder.length < maxTrackedSessions)
    (hindex : ((protection.get call.sessionId).getD .empty).get call.messageIndex = none →
      ((protection.get call.sessionId).getD .empty).insertionOrder.length < maxTrackedIndicesPerSession) :
    lookup (check protection call).2 sessionId messageIndex =
      (lookup protection sessionId messageIndex).or
        (if call.isFor sessionId messageIndex then some call.fingerprint else none) := by
  by_cases hs : sessionId = call.sessionId
  · rw [lookup, hs, get_check_self, Option.bind_some, get_add hindex, lookup_self]
    by_cases hi : messageIndex = call.messageIndex
    · rw [if_pos hi, if_pos (by simp [Call.isFor, hi])]
      cases lookup protection call.sessionId messageIndex <;> rfl
    · rw [if_neg hi, if_neg (by simp [Call.isFor, Ne.symm hi]), Option.or_none]
  · rw [lookup, get_check_ne hs, get_add hsession, if_neg hs, if_neg (by simp [Call.isFor, Ne.symm hs]),
      Option.or_none]
    rfl

/-- **Within the bounds the first event of each message is remembered.** -/
lemma lookup_run {calls : List Call} (h : WithinBounds calls) (sessionId : String) (messageIndex : UInt32) :
    lookup (run calls) sessionId messageIndex =
      (calls.find? (·.isFor sessionId messageIndex)).map Call.fingerprint := by
  induction calls using List.reverseRecOn with
  | nil => rfl
  | append_singleton calls call ih =>
    have hsessions : call.sessionId ∈ (calls ++ [call]).map (·.sessionId) := by simp
    have hindices : call.messageIndex ∈
        ((calls ++ [call]).filter (·.sessionId = call.sessionId)).map (·.messageIndex) := by simp
    rw [run_concat, lookup_check, ih h.of_concat, List.find?_append, Option.map_or, List.find?_singleton]
    · split <;> simp [*]
    · exact length_lt (fun s hs => map_subset _ (subset_append_left _ _) (mem_sessions hs)) hsessions h.1
    · exact length_lt (fun i hi => map_subset _ (filter_subset _ (subset_append_left _ _))
        (mem_indices hi)) hindices (h.2 call.sessionId)

/-- **Replays are detected exactly.** A message that is reported was seen before in the event that
is named, with another fingerprint. Within the bounds it is accepted if and only if its fingerprint
is that of the first call for it. -/
theorem check_exact (call : Call) :
    (∀ originalEventId, (check (run calls) call).1 = .replayed originalEventId →
      ∃ earlier ∈ calls, earlier.isFor call.sessionId call.messageIndex ∧ earlier.eventId = originalEventId ∧
        earlier.fingerprint ≠ call.fingerprint) ∧
    (WithinBounds (calls ++ [call]) →
      ((check (run calls) call).1 = .ok ↔
        ∃ first ∈ (calls ++ [call]).find? (·.isFor call.sessionId call.messageIndex),
          first.fingerprint = call.fingerprint)) := by
  rw [check_fst]
  constructor
  · intro originalEventId h
    cases hlookup : lookup (run calls) call.sessionId call.messageIndex with
    | none => rw [hlookup] at h; cases h
    | some existing =>
      obtain ⟨earlier, hmem, hs, hi, rfl⟩ := exists_of_lookup hlookup
      simp only [hlookup] at h
      split at h
      · cases h
      · next hne => exact ⟨earlier, hmem, by simp [Call.isFor, hs, hi], ReplayCheck.replayed.inj h, hne⟩
  · intro h
    rw [lookup_run h.of_concat, List.find?_append]
    cases calls.find? (·.isFor call.sessionId call.messageIndex) with
    | none => simp [Call.isFor]
    | some first => simp

end ReplayProtection

end HaranaMatrix.Crypto
