import HaranaMatrix.StoreCodec.Layout

/-!
# Round trips

A cursor in front of the bytes of a field reads the field and stops at the next separator, also when
the bytes of an integer contain the separator. Once the input is exhausted, the remaining elements
of the tuple read empty input. -/

namespace HaranaMatrix.StoreCodec

open Bytes List Deserializer StoreCodec.Field

variable (debug : Bool) {d : Deserializer} {as bs : List UInt8}

namespace Deserializer

/-! ## The cursor -/

/-- The cursor is in front of `bs`. -/
structure At (d : Deserializer) (bs : List UInt8) : Prop where
  le : d.pos ≤ d.buf.length
  drop : d.buf.drop d.pos = bs

/-- The cursor after `n` more bytes and `r` more records. -/
def advance (n r : ℕ) (d : Deserializer) : Deserializer :=
  { d with pos := d.pos + n, record := d.record + r }

lemma advance_advance (n m r q : ℕ) : (d.advance n r).advance m q = d.advance (n + m) (r + q) := by
  simp [advance, add_assoc]

@[simp] lemma advance_record (n r : ℕ) : (d.advance n r).record = d.record + r := rfl

@[simp] lemma advance_seq (n r : ℕ) : (d.advance n r).seq = d.seq := rfl

lemma At.rest (h : d.At bs) : d.rest = .ok bs := by
  rw [Deserializer.rest, if_pos h.le, h.drop]

lemma At.length (h : d.At bs) : d.pos + bs.length = d.buf.length := by
  have := h.le
  rw [← h.drop, length_drop]
  omega

lemma At.advance (h : d.At (as ++ bs)) (r : ℕ) : (d.advance as.length r).At bs := by
  have hlen := h.length
  rw [length_append] at hlen
  refine ⟨show d.pos + as.length ≤ d.buf.length by omega, ?_⟩
  show d.buf.drop (d.pos + as.length) = bs
  rw [← drop_drop, h.drop, drop_left]

lemma At.nil_append (h : d.At bs) : d.At ([] ++ bs) := h

lemma At.singleton_append {b : UInt8} (h : d.At (b :: bs)) : d.At ([b] ++ bs) := h

lemma At.finished (h : d.At []) : d.finished = true := by
  simp [Deserializer.finished, h.le, h.drop]

lemma At.incPos (h : d.At (as ++ bs)) : d.incPos debug as.length = .ok (d.advance as.length 0) := by
  have hle : d.pos + as.length ≤ d.buf.length := (h.advance 0).le
  simp [Deserializer.incPos, hle, Deserializer.advance]

/-- What follows a field: nothing, or a separator. -/
def RecordEnd (bs : List UInt8) : Prop :=
  bs = [] ∨ ∃ cs, bs = SEP :: cs

lemma takeWhile_ne_sep (has : SEP ∉ as) (hbs : RecordEnd bs) : (as ++ bs).takeWhile (· != SEP) = as := by
  have htext : ∀ a ∈ as, (a != SEP) = true := fun a ha => by
    rw [bne_iff_ne]
    rintro rfl
    exact has ha
  rw [takeWhile_append_of_pos htext]
  rcases hbs with rfl | ⟨cs, rfl⟩ <;> simp

lemma At.recordNext (h : d.At (as ++ bs)) (has : SEP ∉ as) (hbs : RecordEnd bs) :
    d.recordNext debug = .ok (as, d.advance as.length 0) := by
  simp only [Deserializer.recordNext, h.rest, ok_bind, takeWhile_ne_sep has hbs, h.incPos debug]
  rfl

lemma At.deserializeInt {n : UInt64} (h : d.At (toBe 8 n.toNat ++ bs)) (underflow : String)
    (visit : UInt64 → Value) :
    d.deserializeInt debug underflow visit = .ok (visit n, d.advance (toBe 8 n.toNat).length 0) := by
  have htake : (toBe 8 n.toNat ++ bs).take 8 = toBe 8 n.toNat := take_left' (length_toBe 8 _)
  have hn : UInt64.ofNat (fromBe (toBe 8 n.toNat)) = n := by
    have hlt : n.toNat < 256 ^ 8 := n.toNat_lt
    rw [fromBe_toBe, Nat.mod_eq_of_lt hlt, UInt64.ofNat_toNat]
  have hinc := h.incPos debug
  rw [length_toBe] at hinc ⊢
  simp only [Deserializer.deserializeInt, h.rest, ok_bind, htake, length_toBe, hinc, hn]
  rfl

/-- **A field is read from its own bytes.** -/
theorem At.deserialize {f : Field} (h : d.At (f.bytes ++ bs)) (hbs : RecordEnd bs) :
    d.deserialize debug f.ty = .ok (f.value, d.advance f.bytes.length 0) := by
  cases f with
  | string v =>
    have hnext := h.recordNext debug (sep_notMem_utf8 v) hbs
    simp only [Field.ty, Deserializer.deserialize, Deserializer.deserializeStr, hnext, ok_bind, Field.bytes,
      Deserializer.strFromBytes, fromUtf8_utf8]
    rfl
  | u64 v => exact At.deserializeInt debug h _ _
  | i64 v =>
    have hint := At.deserializeInt debug h "i64 buffer underflow" fun n => .i64 n.toInt64
    rwa [Int64.toInt64_toUInt64] at hint

/-! ## The elements of a tuple -/

lemma recordStart_first (hpos : d.pos = 0) (hrecord : d.record = 0) :
    d.recordStart debug = .ok (d.advance 0 1) := by
  obtain ⟨buf, pos, record, seq⟩ := d
  obtain ⟨rfl, rfl⟩ : pos = 0 ∧ record = 0 := ⟨hpos, hrecord⟩
  simp [recordStart, incPos, incRec, advance]

lemma At.recordStart (h : d.At (SEP :: bs)) (hrecord : 0 < d.record) :
    d.recordStart debug = .ok (d.advance 1 1) := by
  have hget : d.buf[d.pos]? = some SEP := by
    rw [← List.head?_drop, h.drop, List.head?_cons]
  have hlt : ¬ d.buf.length ≤ d.pos := by
    have := h.length
    rw [length_cons] at this
    omega
  have hinc : d.incPos debug 1 = .ok (d.advance 1 0) := h.singleton_append.incPos debug
  simp [Deserializer.recordStart, hget, hlt, hrecord, hinc, Deserializer.incRec, Deserializer.advance]

lemma At.recordStart_missing (h : d.At []) (hrecord : d.record < d.seq) :
    d.recordStart debug = .ok (d.advance 0 1) := by
  have hle : d.buf.length ≤ d.pos := h.length.ge
  have hinc : d.incPos debug 0 = .ok (d.advance 0 0) := h.nil_append.incPos debug
  have hdone : ¬ d.seq ≤ d.record := by omega
  simp [Deserializer.recordStart, hle, hdone, hinc, Deserializer.incRec, Deserializer.advance]

/-- The cursor is in front of the record `bs`, which starts the input or follows a separator. -/
def Next (d : Deserializer) (bs : List UInt8) : Prop :=
  d.pos = 0 ∧ d.record = 0 ∧ d.At bs ∨ 0 < d.record ∧ d.At (SEP :: bs)

lemma Next.recordStart (h : d.Next bs) : ∃ d', d.recordStart debug = .ok d' ∧ d'.At bs ∧
    d'.record = d.record + 1 ∧ d'.seq = d.seq := by
  rcases h with ⟨hpos, hrecord, hat⟩ | ⟨hrecord, hat⟩
  · exact ⟨_, recordStart_first debug hpos hrecord, hat.nil_append.advance 1, rfl, rfl⟩
  · exact ⟨_, hat.recordStart debug hrecord, hat.singleton_append.advance 1, rfl, rfl⟩

/-- The value in front of those that are read next. -/
def prepend (vs : List Value) (r : Except Error (List Value × Deserializer)) :
    Except Error (List Value × Deserializer) :=
  (fun x => (vs ++ x.1, x.2)) <$> r

@[simp] lemma prepend_nil (r : Except Error (List Value × Deserializer)) : prepend [] r = r := by
  cases r <;> rfl

lemma prepend_prepend (vs ws : List Value) (r : Except Error (List Value × Deserializer)) :
    prepend vs (prepend ws r) = prepend (vs ++ ws) r := by
  cases r <;> simp [prepend, Functor.map, Except.map]

@[simp] lemma prepend_ok (vs ws : List Value) (d : Deserializer) :
    prepend vs (.ok (ws, d)) = .ok (vs ++ ws, d) := rfl

lemma prepend_eq_ok {vs us : List Value} {r : Except Error (List Value × Deserializer)} {d : Deserializer} :
    prepend vs r = .ok (us, d) ↔ ∃ ws, r = .ok (ws, d) ∧ us = vs ++ ws := by
  cases r with
  | error e => simp [prepend, Functor.map, Except.map]
  | ok x => simp [prepend, Functor.map, Except.map, Prod.ext_iff, eq_comm, and_comm]

lemma visitTuple_cons {t : Ty} {len i : ℕ} {v : Value} {d₁ d₂ : Deserializer} (ts : List Ty)
    (hrecord : d.record < d.seq)
    (hstart : d.recordStart debug = .ok d₁) (ht : d₁.deserialize debug t = .ok (v, d₂)) :
    visitTuple debug len i (t :: ts) d = prepend [v] (visitTuple debug len (i + 1) ts d₂) := by
  have hdone : ¬ d.seq ≤ d.record := by omega
  have hnext : d.nextElement debug (deserialize debug t) = .ok (some v, d₂) := by
    simp [nextElement, hdone, hstart, ht]
  rw [visitTuple, hnext, ok_bind]
  dsimp only
  cases visitTuple debug len (i + 1) ts d₂ <;> rfl

end Deserializer

/-! ## Elements -/

/-- An element of a tuple as it is read: its type, the value that is read, and its bytes. -/
structure Elem where
  ty : Ty
  value : Value
  bytes : List UInt8

/-- The element is read from its own bytes in a tuple, up to the end of the input or the next
separator. -/
def Elem.Reads (debug : Bool) (e : Elem) : Prop :=
  ∀ (d : Deserializer) (bs : List UInt8), 0 < d.seq → d.At (e.bytes ++ bs) → Deserializer.RecordEnd bs →
    d.deserialize debug e.ty = .ok (e.value, d.advance e.bytes.length 0)

def Field.elem (f : Field) : Elem := ⟨f.ty, f.value, f.bytes⟩

lemma Field.reads (debug : Bool) (f : Field) :
    f.elem.Reads debug := fun _ _ _ h hbs => h.deserialize debug hbs

namespace Deserializer

lemma recordEnd_following (bss : List (List UInt8)) : RecordEnd (following bss) := by
  cases bss with
  | nil => exact .inl rfl
  | cons bs bss => exact .inr ⟨_, rfl⟩

/-- **An element is read**, and the cursor is after it. -/
lemma Next.visitElem {e : Elem} (len : ℕ) (h : d.Next (e.bytes ++ bs)) (he : e.Reads debug)
    (hbs : RecordEnd bs)
    (hseq : d.record < d.seq) : ∃ d', d'.At bs ∧ d'.record = d.record + 1 ∧ d'.seq = d.seq ∧
      ∀ i ts, visitTuple debug len i (e.ty :: ts) d = prepend [e.value]
        (visitTuple debug len (i + 1) ts d') := by
  obtain ⟨d₁, hstart, hat, hrecord, hd₁⟩ := h.recordStart debug
  exact ⟨_, hat.advance 0, hrecord, hd₁, fun i ts => visitTuple_cons debug ts hseq hstart (he d₁ bs (by omega) hat hbs)⟩

/-- **The elements after the first one are read in turn.** -/
lemma At.visitElems {es : List Elem} {bss : List (List UInt8)} (len : ℕ)
    (h : d.At (following (es.map Elem.bytes ++ bss))) (hes : ∀ e ∈ es, e.Reads debug) (hrecord : 0 < d.record)
    (hseq : d.record + es.length ≤ d.seq) : ∃ d', d'.At (following bss) ∧ d'.record = d.record + es.length ∧
      d'.seq = d.seq ∧ ∀ i ts, visitTuple debug len i (es.map Elem.ty ++ ts) d =
        prepend (es.map Elem.value) (visitTuple debug len (i + es.length) ts d') := by
  induction es generalizing d with
  | nil => exact ⟨d, h, rfl, rfl, fun i ts => by simp⟩
  | cons e es ih =>
    obtain ⟨he, hes⟩ := forall_mem_cons.1 hes
    rw [length_cons] at hseq ⊢
    have hnext : d.Next (e.bytes ++ following (es.map Elem.bytes ++ bss)) := .inr ⟨hrecord, h⟩
    obtain ⟨d₁, h₁, hrecord₁, hseq₁, hvisit₁⟩ := hnext.visitElem debug len he (recordEnd_following _) (by omega)
    obtain ⟨d', h', hrecord', hseq', hvisit'⟩ := ih h₁ hes (by omega) (by omega)
    refine ⟨d', h', by omega, hseq'.trans hseq₁, fun i ts => ?_⟩
    rw [map_cons, cons_append, hvisit₁, hvisit', prepend_prepend]
    simp [Nat.add_assoc, Nat.add_comm 1]

/-- The cursor is before the records `bss`, at the start of the input or after another record. -/
def Before (d : Deserializer) (bss : List (List UInt8)) : Prop :=
  d.pos = 0 ∧ d.record = 0 ∧ d.At (join bss) ∨ 0 < d.record ∧ d.At (following bss)

lemma Before.next {bss : List (List UInt8)} (h : d.Before (bs :: bss)) : d.Next (bs ++ following bss) := h

lemma Before.done (h : d.Before []) : d.At [] := h.elim (fun h => h.2.2) fun h => h.2

/-- **The elements of a tuple are read from its start**, up to the records `bss`. -/
lemma visitElems_join {es : List Elem} (bss : List (List UInt8)) (len : ℕ) (hes : ∀ e ∈ es, e.Reads debug)
    (hlen : es.length ≤ len) : ∃ d', d'.Before bss ∧ d'.record = es.length ∧ d'.seq = len ∧
      ∀ ts, visitTuple debug len 0 (es.map Elem.ty ++ ts) ⟨join (es.map Elem.bytes ++ bss), 0, 0, len⟩ =
        prepend (es.map Elem.value) (visitTuple debug len es.length ts d') := by
  cases es with
  | nil => exact ⟨⟨join bss, 0, 0, len⟩, .inl ⟨rfl, rfl, Nat.zero_le _, rfl⟩, rfl, rfl, fun ts => by simp⟩
  | cons e es =>
    obtain ⟨he, hes⟩ := forall_mem_cons.1 hes
    rw [length_cons] at hlen ⊢
    set d : Deserializer := ⟨join (List.map Elem.bytes (e :: es) ++ bss), 0, 0, len⟩ with hd
    have hnext : d.Next (e.bytes ++ following (es.map Elem.bytes ++ bss)) :=
      .inl ⟨rfl, rfl, Nat.zero_le _, rfl⟩
    obtain ⟨d₁, h₁, hrecord₁, hseq₁, hvisit₁⟩ :=
      hnext.visitElem debug len he (recordEnd_following _) (show 0 < len by omega)
    have hrecord : d₁.record = 1 := hrecord₁
    have hseq : d₁.seq = len := hseq₁
    obtain ⟨d', h', hrecord', hseq', hvisit'⟩ := h₁.visitElems debug len hes (by omega) (by omega)
    refine ⟨d', .inr ⟨by omega, h'⟩, by omega, hseq'.trans hseq, fun ts => ?_⟩
    rw [map_cons, cons_append, hvisit₁, hvisit', prepend_prepend]
    simp [Nat.add_comm]

end Deserializer

/-! ## Appended fields -/

/-- The types of fields that a tuple can gain. -/
inductive Appended
  | option (t : Ty)
  | str
deriving Repr

namespace Appended

def ty : Appended → Ty
  | .option t => .option t
  | .str => .str

/-- What an appended field decodes to when the record does not have it. -/
def absent : Appended → Value
  | .option _ => .none
  | .str => .str ""

lemma deserialize_absent (h : d.At []) (a : Appended) : d.deserialize debug a.ty = .ok (a.absent, d) := by
  cases a with
  | option t =>
    have hget : d.buf[d.pos]? = none := List.getElem?_eq_none h.length.ge
    simp only [Appended.ty, Appended.absent, deserialize, hget]
    rfl
  | str =>
    have hnext := h.nil_append.recordNext debug (by simp) (.inl rfl)
    have hempty : fromUtf8 [] = some "" := fromUtf8_utf8 ""
    simp only [Appended.ty, Appended.absent, deserialize, deserializeStr, hnext, ok_bind,
      strFromBytes, hempty]
    rfl

theorem visitTuple_absent (h : d.At []) (exts : List Appended) (len i : ℕ)
    (hseq : d.record + exts.length ≤ d.seq) :
    d.visitTuple debug len i (exts.map Appended.ty) =
      .ok (exts.map Appended.absent, d.advance 0 exts.length) := by
  induction exts generalizing d i with
  | nil => simp [visitTuple, advance]
  | cons a exts ih =>
    rw [length_cons] at hseq
    have h₁ : (d.advance 0 1).At [] := h.nil_append.advance 1
    have hseq₁ : (d.advance 0 1).record + exts.length ≤ (d.advance 0 1).seq := by
      simp only [advance_record, advance_seq]
      omega
    rw [map_cons, visitTuple_cons debug _ (by omega) (h.recordStart_missing debug (by omega))
      (deserialize_absent debug h₁ a), ih h₁ (i + 1) hseq₁, prepend_ok, advance_advance]
    simp [Nat.add_comm]

end Appended

/-! ## Round trip -/

lemma visitTuple_layout (fs : List Field) (exts : List Appended) {len : ℕ}
    (hlen : len = fs.length + exts.length) :
    ∃ d, visitTuple debug len 0 (fs.map ty ++ exts.map Appended.ty)
      ⟨layout fs, 0, 0, len⟩ = .ok (fs.map value ++ exts.map Appended.absent, d) ∧ d.At [] := by
  have hreads : ∀ e ∈ fs.map elem, e.Reads debug := forall_mem_map.2 fun f _ => f.reads debug
  have hle : (fs.map elem).length ≤ len := by
    rw [length_map]
    omega
  obtain ⟨d, hd, hrecord, hseq, hvisit⟩ := visitElems_join debug [] len hreads hle
  rw [length_map] at hrecord
  have habsent := Appended.visitTuple_absent debug hd.done exts len fs.length (by omega)
  refine ⟨d.advance 0 exts.length, ?_, hd.done.nil_append.advance _⟩
  have hread := hvisit (exts.map Appended.ty)
  rw [length_map, habsent, prepend_ok, append_nil, map_map, map_map, map_map] at hread
  rw [layout]
  exact hread

lemma fromSlice_layout (fs : List Field) (exts : List Appended) :
    fromSlice debug (.tuple (fs.map ty ++ exts.map Appended.ty)) (layout fs) =
      .ok (.tuple (fs.map value ++ exts.map Appended.absent)) := by
  set ts := fs.map ty ++ exts.map Appended.ty with hts
  have hlen : ts.length = fs.length + exts.length := by simp [hts]
  obtain ⟨d, hvisit, hend⟩ := visitTuple_layout debug fs exts hlen
  have hfinished := hend.finished
  rw [← hts] at hvisit
  simp only [fromSlice, deserialize, sequenceStart, beq_self_eq_true, debugAssert_true,
    ok_bind, pure, Except.pure, hvisit, hfinished]

/-- **Tuples round-trip, and tolerate appended fields.** -/
theorem fromSlice_serializeToVec (debug : Bool) (fs : List Field) (exts : List Appended) :
    ∃ bytes, serializeToVec debug (.tuple (fs.map value)) = .ok bytes ∧
      fromSlice debug (.tuple (fs.map ty)) bytes = .ok (.tuple (fs.map value)) ∧
      fromSlice debug (.tuple (fs.map ty ++ exts.map Appended.ty)) bytes =
        .ok (.tuple (fs.map value ++ exts.map Appended.absent)) := by
  refine ⟨layout fs, serializeToVec_tuple debug fs, ?_, fromSlice_layout debug fs exts⟩
  simpa using fromSlice_layout debug fs []

end HaranaMatrix.StoreCodec
