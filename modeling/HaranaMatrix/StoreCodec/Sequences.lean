import HaranaMatrix.StoreCodec.RoundTrip

/-!
# Sequences

A sequence has no length: it is written as its elements, with a separator after those that ask for
one. It is read as if it had one element at least, and a separator in front of all the others.
Strings agree with that, if there are any; integers, which ask for no separator, agree only if there
is exactly one of them. -/

namespace HaranaMatrix.StoreCodec

open Bytes Deserializer List

/-- A value is written, and read again. -/
def readBack (debug : Bool) (t : Ty) (v : Value) : Except Error Value := do
  let bytes ← serializeToVec debug v
  fromSlice debug t bytes

variable {debug : Bool}

/-! ## Writing -/

section Write

variable {s : Serializer}

lemma serializeToVec_seq {vs : List Value} (hs : Serializer.serializeSeqElements debug vs
    ⟨[], if debug then 1 else 0, false, false⟩ = .ok s) (hdepth : s.depth = if debug then 1 else 0) :
    serializeToVec debug (.seq vs) = .ok s.out := by
  have hstart : Serializer.sequenceStart debug ⟨[], 0, false, false⟩ =
      .ok ⟨[], if debug then 1 else 0, false, false⟩ := by cases debug <;> rfl
  rw [serializeToVec, Serializer.serialize, hstart, ok_bind, hs, ok_bind, Serializer.sequenceEnd]
  cases debug <;> simp_all [debugAssert, pure, Except.pure]

lemma Serializer.Open.serializeStrings (h : s.Open debug) (vs : List String) :
    Serializer.serializeSeqElements debug (vs.map .str) s = .ok
      { s with
        out := s.out ++ if s.sep then following (vs.map utf8) else join (vs.map utf8)
        sep := s.sep || !vs.isEmpty } := by
  induction vs generalizing s with
  | nil => cases s; simp [Serializer.serializeSeqElements, join]
  | cons v vs ih =>
    set s₁ : Serializer := { s with out := s.out ++ if s.sep then [SEP] else [], sep := true } with hs₁
    have h₁ : s₁.Open debug := ⟨h.depth, h.fin⟩
    have hv : Serializer.serialize debug (.str v) s₁ = .ok { s₁ with out := s₁.out ++ utf8 v, sep := true } := by
      rw [Serializer.serialize, Serializer.serializeStr, h₁.assert_depth, ok_bind, Serializer.serializeBytes,
        h₁.assert_depth]
      rfl
    have h₂ : ({ s₁ with out := s₁.out ++ utf8 v, sep := true } : Serializer).Open debug := ⟨h.depth, h.fin⟩
    rw [map_cons, Serializer.serializeSeqElements, h.recordStart, ok_bind, hv, ok_bind, ih h₂]
    cases hsep : s.sep <;> simp [hs₁, hsep, join]

lemma Serializer.Open.serializeIntegers (h : s.Open debug) (hsep : s.sep = false) (vs : List UInt64) :
    Serializer.serializeSeqElements debug (vs.map .u64) s =
      .ok { s with out := s.out ++ vs.flatMap fun v => toBe 8 v.toNat } := by
  induction vs generalizing s with
  | nil => simp [Serializer.serializeSeqElements]
  | cons v vs ih =>
    have h₁ : ({ s with out := s.out ++ toBe 8 v.toNat, sep := false } : Serializer).Open debug := ⟨h.depth, h.fin⟩
    have hv : Serializer.serialize debug (.u64 v) { s with out := s.out, sep := true } =
        .ok { s with out := s.out ++ toBe 8 v.toNat, sep := false } := rfl
    rw [map_cons, Serializer.serializeSeqElements, h.recordStart, ok_bind]
    simp only [hsep, Bool.false_eq_true, if_false, append_nil]
    rw [hv, ok_bind, ih h₁ rfl]
    simp

lemma serializeToVec_strings (debug : Bool) (vs : List String) :
    serializeToVec debug (.seq (vs.map .str)) = .ok (join (vs.map utf8)) :=
  serializeToVec_seq ((open_start debug).serializeStrings vs) rfl

lemma serializeToVec_integers (debug : Bool) (vs : List UInt64) :
    serializeToVec debug (.seq (vs.map .u64)) = .ok (vs.flatMap fun v => toBe 8 v.toNat) :=
  serializeToVec_seq ((open_start debug).serializeIntegers rfl vs) rfl

end Write

/-! ## Reading -/

section Read

variable {d d' : Deserializer}

lemma fromSlice_seq_iff {t : Ty} {buf : List UInt8} {vs : List Value} :
    fromSlice debug (.seq t) buf = .ok (.seq vs) ↔
      ∃ d, visitSeq debug (deserialize debug t) (buf.length + 2) ⟨buf, 0, 0, 1⟩ = .ok (vs, d) ∧
        (debug = true → d.finished = true) := by
  simp only [fromSlice, deserialize, sequenceStart, beq_self_eq_true, debugAssert_true, ok_bind,
    pure, Except.pure]
  cases hvisit : visitSeq debug (deserialize debug t) (buf.length + 2) ⟨buf, 0, 0, 1⟩ with
  | error e => simp [Bind.bind, Except.bind]
  | ok r =>
    obtain ⟨ws, d⟩ := r
    cases debug <;> cases hfinished : d.finished <;> simp [debugAssert, hfinished, Bind.bind, Except.bind]

variable {seed : Deserializer → Except Error (Value × Deserializer)} {fuel : ℕ} {v : Value}

lemma visitSeq_succ (h : d.nextElement debug seed = .ok (some v, d')) :
    d.visitSeq debug seed (fuel + 1) = prepend [v] (d'.visitSeq debug seed fuel) := by
  rw [visitSeq, h, ok_bind]
  dsimp only
  cases d'.visitSeq debug seed fuel <;> rfl

lemma visitSeq_done (h : d.At []) (hseq : d.seq ≤ d.record) :
    d.visitSeq debug seed (fuel + 1) = .ok ([], d) := by
  have hle : d.buf.length ≤ d.pos := h.length.ge
  simp only [visitSeq, nextElement, hle, hseq, decide_true, Bool.and_self, if_true]
  rfl

lemma nextElement_eq {d₁ : Deserializer} (h : ¬ (d.buf.length ≤ d.pos ∧ d.seq ≤ d.record))
    (hstart : d.recordStart debug = .ok d₁)
    (hseed : seed d₁ = .ok (v, d')) : d.nextElement debug seed = .ok (some v, d') := by
  have hdone : (decide (d.buf.length ≤ d.pos) && decide (d.seq ≤ d.record)) = false := by simpa using h
  simp only [nextElement, hdone, Bool.false_eq_true, if_false, hstart, ok_bind, hseed]
  rfl

/-- **The strings after the first one are read in turn.** -/
lemma visitSeq_following (vs : List String) {fuel : ℕ} (h : d.At (following (vs.map utf8)))
    (hrecord : 0 < d.record) (hseq : d.seq ≤ d.record) (hfuel : vs.length < fuel) :
    ∃ d', d.visitSeq debug (deserialize debug .string) fuel = .ok (vs.map .str, d') ∧ d'.At [] := by
  induction vs generalizing d fuel with
  | nil =>
    obtain ⟨fuel, rfl⟩ := Nat.exists_eq_succ_of_ne_zero (Nat.ne_of_gt hfuel)
    exact ⟨d, visitSeq_done h hseq, h⟩
  | cons v vs ih =>
    obtain ⟨fuel, rfl⟩ := Nat.exists_eq_succ_of_ne_zero (Nat.ne_of_gt (Nat.zero_lt_of_lt hfuel))
    have hat : d.At (SEP :: (utf8 v ++ following (vs.map utf8))) := h
    have hat₁ : (d.advance 1 1).At (utf8 v ++ following (vs.map utf8)) := hat.singleton_append.advance 1
    have hread : (d.advance 1 1).deserialize debug .string =
      .ok (.str v, (d.advance 1 1).advance (utf8 v).length 0) :=
      hat₁.deserialize (f := .string v) debug (recordEnd_following _)
    have hmore : ¬ (d.buf.length ≤ d.pos ∧ d.seq ≤ d.record) := by
      have := hat.length
      rw [length_cons] at this
      omega
    rw [visitSeq_succ (nextElement_eq hmore (hat.recordStart debug hrecord) hread)]
    obtain ⟨d', hd', hend⟩ := ih (hat₁.advance 0) (Nat.succ_pos _) (by simpa using Nat.le_succ_of_le hseq)
      (by simpa using hfuel)
    exact ⟨d', by rw [hd']; rfl, hend⟩

lemma length_le_following (bss : List (List UInt8)) : bss.length ≤ (following bss).length := by
  induction bss with
  | nil => exact Nat.le_refl _
  | cons bs bss ih =>
    simp only [following_cons, length_cons, length_append]
    omega

lemma nextElement_first {buf : List UInt8} (hseed : seed ⟨buf, 0, 1, 1⟩ = .ok (v, d')) :
    nextElement debug seed ⟨buf, 0, 0, 1⟩ = .ok (some v, d') :=
  nextElement_eq (by simp) (recordStart_first debug rfl rfl) hseed

/-- **Strings are read from their records**, and one empty string from no record. -/
theorem fromSlice_strings (debug : Bool) (v : String) (vs : List String) :
    fromSlice debug (.seq .string) (join ((v :: vs).map utf8)) = .ok (.seq ((v :: vs).map .str)) := by
  set buf := join ((v :: vs).map utf8) with hbuf
  have hat : (⟨buf, 0, 1, 1⟩ : Deserializer).At (utf8 v ++ following (vs.map utf8)) := ⟨Nat.zero_le _, rfl⟩
  have hread : deserialize debug .string ⟨buf, 0, 1, 1⟩ =
      .ok (.str v, advance (utf8 v).length 0 ⟨buf, 0, 1, 1⟩) :=
    hat.deserialize (f := .string v) debug (recordEnd_following _)
  have hfuel : vs.length < buf.length + 1 := by
    have := length_le_following (vs.map utf8)
    rw [length_map] at this
    rw [hbuf, map_cons, join, length_append]
    omega
  obtain ⟨d, hd, hend⟩ := @visitSeq_following debug _ vs _ (hat.advance 0) Nat.one_pos le_rfl hfuel
  refine fromSlice_seq_iff.2 ⟨d, ?_, fun _ => hend.finished⟩
  rw [visitSeq_succ (nextElement_first hread), hd]
  rfl

lemma incPos_eq_ok {n : ℕ} (h : d.incPos debug n = .ok d') : d' = d.advance n 0 := by
  obtain ⟨-, -, h⟩ := bind_eq_ok h
  cases h
  rfl

lemma deserialize_u64_eq_ok {v : Value} (h : d.deserialize debug .u64 = .ok (v, d')) :
    d' = d.advance 8 0 ∧ d.pos + 8 ≤ d.buf.length := by
  obtain ⟨bytes, hrest, h⟩ := bind_eq_ok h
  rw [rest] at hrest
  split at hrest
  · next hle =>
    cases hrest
    simp only at h
    split at h
    · cases h
    · next hlen =>
      obtain ⟨d₁, hinc, h⟩ := bind_eq_ok h
      cases h
      refine ⟨incPos_eq_ok hinc, ?_⟩
      rw [length_take, length_drop] at hlen
      omega
  · cases hrest

lemma nextElement_u64_eq_ok {o : Option Value} (hrecord : 0 < d.record) (hdone : ¬ d.buf.length ≤ d.pos)
    (h : d.nextElement debug (deserialize debug .u64) = .ok (o, d')) :
    d' = d.advance 9 1 ∧ d.pos + 9 ≤ d.buf.length := by
  rw [nextElement] at h
  simp only [hdone, decide_false, Bool.false_and, Bool.false_eq_true, if_false] at h
  obtain ⟨d₁, hstart, h⟩ := bind_eq_ok h
  obtain ⟨⟨v, d₂⟩, hread, h⟩ := bind_eq_ok h
  cases h
  rw [recordStart] at hstart
  simp only [hdone, hrecord, decide_true, decide_false, Bool.or_true, Bool.false_and,
    Bool.not_false, Bool.and_self, if_true] at hstart
  obtain ⟨-, -, hstart⟩ := bind_eq_ok hstart
  obtain ⟨d₃, hinc, hstart⟩ := bind_eq_ok hstart
  cases hstart
  obtain rfl := incPos_eq_ok hinc
  obtain ⟨rfl, hle⟩ := deserialize_u64_eq_ok hread
  exact ⟨rfl, by simpa [incRec, advance, Nat.add_assoc] using hle⟩

lemma visitSeq_integers {fuel : ℕ} {ws : List Value} (hrecord : 0 < d.record) (hseq : d.seq ≤ d.record)
    (hle : d.pos ≤ d.buf.length) (h : d.visitSeq debug (deserialize debug .u64) fuel = .ok (ws, d')) :
    d.pos + 9 * ws.length ≤ d.buf.length := by
  induction fuel generalizing d ws with
  | zero => cases h
  | succ fuel ih =>
    by_cases hdone : d.buf.length ≤ d.pos
    · rw [visitSeq_done ⟨hle, drop_eq_nil_of_le hdone⟩ hseq] at h
      cases h
      simpa using hle
    · obtain ⟨⟨o, d₁⟩, hnext, h⟩ := bind_eq_ok h
      obtain ⟨rfl, hle₁⟩ := nextElement_u64_eq_ok hrecord hdone hnext
      cases o with
      | none =>
        cases h
        exact Nat.le_trans (Nat.le_add_right _ _) hle₁
      | some v =>
        obtain ⟨⟨vs, d₂⟩, hrest, h⟩ := bind_eq_ok h
        cases h
        have := ih (d := d.advance 9 1) (Nat.succ_pos _) (Nat.le_succ_of_le hseq) hle₁ hrest
        rw [length_cons]
        simp only [advance] at this
        omega

/-- **Of several integers not all are read**, and of none, one. -/
lemma length_of_fromSlice_integers {vs : List UInt64} {ws : List Value}
    (h : fromSlice debug (.seq .u64) (vs.flatMap fun v => toBe 8 v.toNat) = .ok (.seq ws)) :
    0 < ws.length ∧ 9 * ws.length ≤ 8 * vs.length + 1 := by
  set buf := vs.flatMap fun v => toBe 8 v.toNat with hbuf
  have hlen : buf.length = 8 * vs.length := by
    rw [hbuf, length_flatMap]
    simp [length_toBe, Nat.mul_comm]
  obtain ⟨d, hvisit, -⟩ := fromSlice_seq_iff.1 h
  obtain ⟨⟨o, d₁⟩, hnext, hvisit⟩ := bind_eq_ok hvisit
  have hmore : (decide (buf.length ≤ 0) && decide (1 ≤ 0)) = false := by simp
  rw [nextElement, recordStart_first debug rfl rfl, ok_bind] at hnext
  simp only [hmore, Bool.false_eq_true, if_false] at hnext
  obtain ⟨⟨v, d₂⟩, hread, hnext⟩ := bind_eq_ok hnext
  cases hnext
  obtain ⟨rfl, hle⟩ := deserialize_u64_eq_ok hread
  obtain ⟨⟨vs', d₃⟩, hrest, hvisit⟩ := bind_eq_ok hvisit
  cases hvisit
  have hrest := visitSeq_integers (Nat.succ_pos _) le_rfl hle hrest
  have hpos : 8 + 9 * vs'.length ≤ buf.length := by simpa [advance] using hrest
  rw [length_cons]
  omega

lemma fromSlice_integer (debug : Bool) (v : UInt64) :
    fromSlice debug (.seq .u64) (toBe 8 v.toNat) = .ok (.seq [.u64 v]) := by
  have hat : (⟨toBe 8 v.toNat, 0, 1, 1⟩ : Deserializer).At (toBe 8 v.toNat ++ []) := ⟨Nat.zero_le _, by simp⟩
  have hread : deserialize debug .u64 ⟨toBe 8 v.toNat, 0, 1, 1⟩ =
      .ok (.u64 v, advance (toBe 8 v.toNat).length 0 ⟨toBe 8 v.toNat, 0, 1, 1⟩) :=
    hat.deserialize (f := .u64 v) debug (.inl rfl)
  have hend := hat.advance 0
  refine fromSlice_seq_iff.2 ⟨advance (toBe 8 v.toNat).length 0 ⟨toBe 8 v.toNat, 0, 1, 1⟩, ?_,
    fun _ => hend.finished⟩
  rw [visitSeq_succ (nextElement_first hread), visitSeq_done hend le_rfl]
  rfl

end Read

/-- **A sequence of strings is read back unless it is empty, and one of integers only if there is
one of them.** -/
theorem readBack_seq_iff (debug : Bool) :
    (∀ vs : List String, readBack debug (.seq .string) (.seq (vs.map .str)) =
      .ok (.seq (vs.map .str)) ↔ vs ≠ []) ∧
    ∀ vs : List UInt64, readBack debug (.seq .u64) (.seq (vs.map .u64)) = .ok (.seq (vs.map .u64)) ↔
      vs.length = 1 := by
  refine ⟨fun vs => ?_, fun vs => ?_⟩
  · rw [readBack, serializeToVec_strings, ok_bind]
    cases vs with
    | nil =>
      -- no record is one empty record
      have hempty : fromSlice debug (.seq .string) (join []) = .ok (.seq [.str ""]) :=
        fromSlice_strings debug "" []
      simp [hempty]
    | cons v vs => exact iff_of_true (fromSlice_strings debug v vs) (cons_ne_nil v vs)
  · rw [readBack, serializeToVec_integers, ok_bind]
    constructor
    · intro h
      have := length_of_fromSlice_integers h
      rw [length_map] at this
      omega
    · intro h
      obtain ⟨v, rfl⟩ := length_eq_one_iff.1 h
      simpa using fromSlice_integer debug v

/-- Two integers are written in sixteen bytes. In a debug build no separator is found after the
first eight, otherwise one byte is skipped and seven are left. -/
theorem readBack_two_integers :
    serializeToVec true (.seq [.u64 1, .u64 2]) = .ok [0, 0, 0, 0, 0, 0, 0, 1, 0, 0, 0, 0, 0, 0, 0, 2] ∧
    readBack true (.seq .u64) (.seq [.u64 1, .u64 2]) =
      .error (.panic "Missing expected record separator at current position") ∧
    readBack false (.seq .u64) (.seq [.u64 1, .u64 2]) = .error (.serdeDe "u64 buffer underflow") ∧
    readBack true (.seq .string) (.seq []) = .ok (.seq [.str ""]) :=
  ⟨rfl, rfl, rfl, rfl⟩

end HaranaMatrix.StoreCodec
