import HaranaMatrix.StoreCodec.RoundTrip

/-!
# Separators inside of integers

The bytes of an integer may be separators. An integer is read without looking for them, but an
optional one is taken to be absent when the next byte is a separator, and an ignored one is skipped
up to the next separator. Both go wrong for some integers, and what is read afterwards is
shifted. -/

namespace HaranaMatrix.StoreCodec

open Bytes Deserializer List StoreCodec.Field

lemma fromSlice_tuple_iff {debug : Bool} {ts : List Ty} {buf : List UInt8} {vs : List Value} :
    fromSlice debug (.tuple ts) buf = .ok (.tuple vs) ↔
      ∃ d, visitTuple debug ts.length 0 ts ⟨buf, 0, 0, ts.length⟩ = .ok (vs, d) ∧
        (debug = true → d.finished = true) := by
  simp only [fromSlice, deserialize, sequenceStart, beq_self_eq_true, debugAssert_true, ok_bind,
    pure, Except.pure]
  cases hvisit : visitTuple debug ts.length 0 ts ⟨buf, 0, 0, ts.length⟩ with
  | error e => simp [Bind.bind, Except.bind]
  | ok r =>
    obtain ⟨ws, d⟩ := r
    cases debug <;> cases hfinished : d.finished <;> simp [debugAssert, hfinished, Bind.bind, Except.bind]

/-! ## Optional integers -/

/-- A field of a record, some of which are optional integers. -/
inductive Slot
  | field (f : Field)
  | optionU64 (v : Option UInt64)
  | optionI64 (v : Option Int64)
deriving DecidableEq, Repr

namespace Slot

def value : Slot → Value
  | .field f => f.value
  | .optionU64 none | .optionI64 none => .none
  | .optionU64 (some v) => .some (.u64 v)
  | .optionI64 (some v) => .some (.i64 v)

def ty : Slot → Ty
  | .field f => f.ty
  | .optionU64 _ => .option .u64
  | .optionI64 _ => .option .i64

def bytes : Slot → List UInt8
  | .field f => f.bytes
  | .optionU64 none | .optionI64 none => []
  | .optionU64 (some v) => (u64 v).bytes
  | .optionI64 (some v) => (i64 v).bytes

/-- The integer is present, and the first of its eight bytes is a separator. -/
def LooksAbsent : Slot → Prop
  | .optionU64 (some v) => 0xFF00000000000000 ≤ v.toNat
  | .optionI64 (some v) => -2 ^ 56 ≤ v.toInt ∧ v.toInt < 0
  | _ => False

instance : DecidablePred LooksAbsent
  | .field _ | .optionU64 none | .optionI64 none => inferInstanceAs (Decidable False)
  | .optionU64 (some v) => inferInstanceAs (Decidable (0xFF00000000000000 ≤ v.toNat))
  | .optionI64 (some v) => inferInstanceAs (Decidable (-2 ^ 56 ≤ v.toInt ∧ v.toInt < 0))

def elem (s : Slot) : Elem := ⟨s.ty, s.value, s.bytes⟩

lemma writes (debug : Bool) (s : Slot) : Writes debug s.value s.bytes := by
  have hnone : Writes debug .none [] := fun s _ => ⟨s.sep, by simp [Serializer.serialize]⟩
  have hsome : ∀ {v bs}, Writes debug v bs → Writes debug (.some v) bs := fun h s hs => by
    exact h s hs
  cases s with
  | field f => exact f.writes debug
  | optionU64 v =>
    cases v with
    | none => exact hnone
    | some v => exact hsome (Field.writes debug (.u64 v))
  | optionI64 v =>
    cases v with
    | none => exact hnone
    | some v => exact hsome (Field.writes debug (.i64 v))

lemma head_toBe {n : ℕ} (hn : n < 2 ^ 64) (bs : List UInt8) :
    (toBe 8 n ++ bs).head?.all (· == SEP) ↔ 0xFF00000000000000 ≤ n := by
  have hhead : (toBe 8 n ++ bs).head? = some (UInt8.ofNat (n / 256 ^ 7)) := rfl
  have hsep : SEP.toNat = 255 := rfl
  rw [hhead, Option.all_some, beq_iff_eq, ← UInt8.toNat_inj, UInt8.toNat_ofNat', hsep]
  omega

lemma toNat_toUInt64 (v : Int64) : (0xFF00000000000000 : ℕ) ≤ v.toUInt64.toNat ↔
    -2 ^ 56 ≤ v.toInt ∧ v.toInt < 0 := by
  have hint : v.toInt = if 2 * v.toUInt64.toNat < 2 ^ 64 then (v.toUInt64.toNat : ℤ) else v.toUInt64.toNat - 2 ^ 64 :=
    BitVec.toInt_eq_toNat_cond v.toBitVec
  have hlt := v.toUInt64.toNat_lt
  rw [hint]
  split <;> omega

end Slot

section Optional

variable {debug : Bool} {d : Deserializer} {bs : List UInt8}

lemma Deserializer.At.getElem? (h : d.At bs) : d.buf[d.pos]? = bs.head? := by
  rw [← h.drop, List.head?_drop]

lemma deserialize_option_none {t : Ty} (h : d.At bs) (hbs : bs.head?.all (· == SEP)) :
    d.deserialize debug (.option t) = .ok (.none, d) := by
  rw [deserialize, h.getElem?, if_pos hbs]
  rfl

lemma deserialize_option_some {t : Ty} {f : Field} (h : d.At (f.bytes ++ bs)) (hbs : RecordEnd bs)
    (ht : f.ty = t) (hf : ¬ (f.bytes ++ bs).head?.all (· == SEP)) :
    d.deserialize debug (.option t) = .ok (.some f.value, d.advance f.bytes.length 0) := by
  subst ht
  rw [deserialize, h.getElem?, if_neg hf, h.deserialize debug hbs]
  rfl

/-- **A slot that does not look absent is read.** -/
lemma Slot.reads {s : Slot} (h : ¬ s.LooksAbsent) : s.elem.Reads debug := by
  intro d bs hseq hat hbs
  have hend : bs.head?.all (· == SEP) := by
    rcases hbs with rfl | ⟨cs, rfl⟩ <;> simp
  cases s with
  | field f => exact f.reads debug d bs hseq hat hbs
  | optionU64 v =>
    cases v with
    | none => exact deserialize_option_none hat hend
    | some v =>
      exact deserialize_option_some (f := .u64 v) hat hbs rfl fun hsep => h ((head_toBe v.toNat_lt bs).1 hsep)
  | optionI64 v =>
    cases v with
    | none => exact deserialize_option_none hat hend
    | some v =>
      refine deserialize_option_some (f := .i64 v) hat hbs rfl fun hsep => h ((toNat_toUInt64 v).1 ?_)
      exact (head_toBe v.toUInt64.toNat_lt bs).1 hsep

/-- **A slot that looks absent is read as absent.** -/
lemma Slot.LooksAbsent.deserialize {s : Slot} (h : s.LooksAbsent) (hat : d.At (s.bytes ++ bs)) :
    d.deserialize debug s.ty = .ok (.none, d) ∧ s.value ≠ .none := by
  cases s with
  | field f => exact h.elim
  | optionU64 v =>
    cases v with
    | none => exact h.elim
    | some v => exact ⟨deserialize_option_none hat ((head_toBe v.toNat_lt bs).2 h), by simp [Slot.value]⟩
  | optionI64 v =>
    cases v with
    | none => exact h.elim
    | some v =>
      have hfirst := (head_toBe v.toUInt64.toNat_lt bs).2 ((toNat_toUInt64 v).2 h)
      exact ⟨deserialize_option_none hat hfirst, by simp [Slot.value]⟩

/-- **Optional integers are read back** exactly when no present one looks absent. -/
theorem fromSlice_optional_iff (debug : Bool) (ss : List Slot) :
    ∃ bytes, serializeToVec debug (.tuple (ss.map Slot.value)) = .ok bytes ∧
      (fromSlice debug (.tuple (ss.map Slot.ty)) bytes = .ok (.tuple (ss.map Slot.value)) ↔
        ∀ s ∈ ss, ¬ s.LooksAbsent) := by
  refine ⟨_, serializeToVec_join fun s _ => s.writes debug, ?_⟩
  rw [fromSlice_tuple_iff]
  constructor
  · rintro ⟨d, hvisit, -⟩
    by_contra hall
    push Not at hall
    obtain ⟨s, hs, habsent⟩ := hall
    obtain ⟨first, hfirst⟩ : ∃ first, ss.find? (fun s => decide s.LooksAbsent) = some first := by
      rw [← Option.isSome_iff_exists, List.find?_isSome]
      exact ⟨s, hs, by simpa using habsent⟩
    obtain ⟨hbad, pre, post, rfl, hpre⟩ := List.find?_eq_some_iff_append.1 hfirst
    have hreads : ∀ e ∈ pre.map Slot.elem, e.Reads debug :=
      forall_mem_map.2 fun s hs => Slot.reads (by simpa using hpre s hs)
    -- The first slot that looks absent is reached, and is read as absent.
    have hbytes : (pre ++ first :: post).map Slot.bytes =
        (pre.map Slot.elem).map Elem.bytes ++ first.bytes :: post.map Slot.bytes := by simp [Slot.elem]
    have htypes : (pre ++ first :: post).map Slot.ty =
        (pre.map Slot.elem).map Elem.ty ++ first.ty :: post.map Slot.ty := by simp [Slot.elem]
    have hlen : (pre.map Slot.elem).length < ((pre ++ first :: post).map Slot.ty).length := by simp
    generalize ((pre ++ first :: post).map Slot.ty).length = len at hvisit hlen
    obtain ⟨d', hd', hrecord, hseq, hread⟩ :=
      visitElems_join debug (first.bytes :: post.map Slot.bytes) len hreads hlen.le
    obtain ⟨d₁, hstart, hat, -, -⟩ := hd'.next.recordStart debug
    obtain ⟨hnone, hvalue⟩ : d₁.deserialize debug first.ty = .ok (.none, d₁) ∧ first.value ≠ .none :=
      Slot.LooksAbsent.deserialize (by simpa using hbad) hat
    rw [hbytes, htypes, hread, visitTuple_cons debug _ (by omega) hstart hnone, prepend_prepend, prepend_eq_ok] at hvisit
    obtain ⟨ws, -, hvalues⟩ := hvisit
    simp only [map_append, map_cons, append_assoc, singleton_append, map_map] at hvalues
    exact hvalue (List.cons.inj (append_cancel_left hvalues)).1
  · intro hall
    have hreads : ∀ e ∈ ss.map Slot.elem, e.Reads debug := forall_mem_map.2 fun s hs => Slot.reads (hall s hs)
    obtain ⟨d, hd, -, -, hvisit⟩ := visitElems_join debug [] (ss.map Slot.ty).length hreads (by simp)
    refine ⟨d, ?_, fun _ => ?_⟩
    · have hread := hvisit []
      rw [visitTuple, prepend_ok] at hread
      simp only [map_map, append_nil] at hread
      exact hread
    · simp [finished, hd.done.le, hd.done.drop]

/-- **The largest integer is read as absent**, and the next field from its bytes. -/
theorem fromSlice_optional_max :
    serializeToVec false (.tuple [.some (.u64 0xFFFFFFFFFFFFFFFF), .u64 1]) =
      .ok (List.replicate 9 0xFF ++ [0, 0, 0, 0, 0, 0, 0, 1]) ∧
    fromSlice false (.tuple [.option .u64, .u64]) (List.replicate 9 0xFF ++ [0, 0, 0, 0, 0, 0, 0, 1]) =
      .ok (.tuple [.none, .u64 0xFFFFFFFFFFFFFFFF]) :=
  ⟨rfl, rfl⟩

end Optional

/-! ## Ignored fields -/

section Ignored

variable {debug : Bool} {d : Deserializer} {bs : List UInt8}

/-- The fields `fs` are read back although the cursor is `q` and a separator early: what stands in
front of them is the same as they are. A string has to end at a separator; a debug build looks for
one after every field, and at the end. -/
def ReadEarly (debug : Bool) : List UInt8 → List Field → Prop
  | q, [] => debug = true → q = []
  | q, f :: fs => ∃ b rest, q ++ SEP :: f.bytes = f.bytes ++ b :: rest ∧ (f.ty = .string → b = SEP) ∧
      (debug = true → b = SEP) ∧ ReadEarly debug rest fs

/-- `Ignore` gets over the field: there is no separator in it, or the fields after it are read
early. -/
def Skips (debug : Bool) (f : Field) (fs : List Field) : Prop :=
  ∀ p q, f.bytes = p ++ SEP :: q → SEP ∉ p → ReadEarly debug q fs

lemma skips_iff {f : Field} {fs : List Field} {p q : List UInt8} (hbytes : f.bytes = p ++ SEP :: q)
    (hp : SEP ∉ p) :
    Skips debug f fs ↔ ReadEarly debug q fs := by
  refine ⟨fun h => h p q hbytes hp, fun h p' q' hbytes' hp' => ?_⟩
  have heq : p ++ SEP :: q = p' ++ SEP :: q' := hbytes.symm.trans hbytes'
  have htake := congrArg (List.takeWhile (· != SEP)) heq
  rw [takeWhile_ne_sep hp (.inr ⟨q, rfl⟩), takeWhile_ne_sep hp' (.inr ⟨q', rfl⟩)] at htake
  subst htake
  rwa [← (List.cons.inj (append_cancel_left heq)).2]

lemma ignore_reads {f : Field} (h : SEP ∉ f.bytes) : Elem.Reads debug ⟨.ignore, .unit, f.bytes⟩ := by
  intro d bs hseq hat hbs
  rw [deserialize, recordIgnore, if_pos hseq, hat.recordNext debug h hbs]
  rfl

lemma deserialize_ignore {p : List UInt8} (hat : d.At (p ++ SEP :: bs)) (hp : SEP ∉ p) (hseq : 0 < d.seq) :
    d.deserialize debug .ignore = .ok (.unit, d.advance p.length 0) := by
  rw [deserialize, recordIgnore, if_pos hseq, hat.recordNext debug hp (.inr ⟨bs, rfl⟩)]
  rfl

lemma deserializeInt_iff {n : UInt64} (underflow : String) {visit : UInt64 → Value} {d' : Deserializer}
    (hvisit : ∀ {m}, visit m = visit n → m = n) (hat : d.At bs) :
    d.deserializeInt debug underflow visit = .ok (visit n, d') ↔
      ∃ rest, bs = toBe 8 n.toNat ++ rest ∧ d' = d.advance (toBe 8 n.toNat).length 0 := by
  constructor
  · intro h
    by_cases hshort : (bs.take 8).length < 8
    · simp only [deserializeInt, hat.rest, ok_bind, hshort, if_true] at h
      cases h
    · have hlength : (bs.take 8).length = 8 := by
        have := length_take_le 8 bs
        omega
      have hbytes := toBe_fromBe (bs.take 8)
      have hlt := fromBe_lt (bs.take 8)
      rw [hlength] at hbytes hlt
      set m := UInt64.ofNat (fromBe (bs.take 8)) with hm
      have hmn : m.toNat = fromBe (bs.take 8) := by
        exact Nat.mod_eq_of_lt hlt
      -- The eight bytes are those of `m`, which is what is read.
      have hat' : d.At (toBe 8 m.toNat ++ bs.drop 8) := by rwa [hmn, hbytes, take_append_drop]
      rw [hat'.deserializeInt debug underflow visit] at h
      obtain ⟨hvalue, rfl⟩ := Prod.mk.inj (Except.ok.inj h)
      obtain rfl := hvisit hvalue
      exact ⟨bs.drop 8, by rw [hmn, hbytes, take_append_drop], rfl⟩
  · rintro ⟨rest, rfl, rfl⟩
    exact hat.deserializeInt debug underflow visit

lemma recordEnd_dropWhile (bs : List UInt8) : RecordEnd (bs.dropWhile (· != SEP)) := by
  induction bs with
  | nil => exact .inl rfl
  | cons b bs ih =>
    by_cases hb : b = SEP
    · exact .inr ⟨bs, by simp [hb]⟩
    · rwa [dropWhile_cons_of_pos (by simpa using hb)]

/-- **When a field is read from given bytes.** -/
lemma deserialize_field_iff {f : Field} {d' : Deserializer} (hat : d.At bs) :
    d.deserialize debug f.ty = .ok (f.value, d') ↔
      ∃ rest, bs = f.bytes ++ rest ∧ (f.ty = .string → RecordEnd rest) ∧ d' = d.advance f.bytes.length 0 := by
  cases f with
  | string v =>
    constructor
    · intro h
      have hat' : d.At (bs.takeWhile (· != SEP) ++ bs.dropWhile (· != SEP)) := by
        rwa [takeWhile_append_dropWhile]
      have hend := recordEnd_dropWhile bs
      have htext : SEP ∉ bs.takeWhile (· != SEP) := fun hmem => by simpa using mem_takeWhile_imp hmem
      have hnext := hat'.recordNext debug htext hend
      simp only [ty, deserialize, deserializeStr, hnext, ok_bind, strFromBytes] at h
      cases htake : fromUtf8 (bs.takeWhile (· != SEP)) with
      | none =>
        rw [htake] at h
        cases h
      | some w =>
        rw [htake] at h
        cases h
        refine ⟨bs.dropWhile (· != SEP), ?_, fun _ => hend, ?_⟩ <;> rw [bytes, utf8_of_fromUtf8 htake]
        exact takeWhile_append_dropWhile.symm
    · rintro ⟨rest, rfl, hrest, rfl⟩
      exact hat.deserialize debug (hrest rfl)
  | u64 v =>
    have hint : d.deserializeInt debug "u64 buffer underflow" Value.u64 = .ok (.u64 v, d') ↔ _ :=
      deserializeInt_iff _ Value.u64.inj hat
    refine hint.trans ?_
    simp [ty, bytes]
  | i64 v =>
    have hvisit : ∀ {m : UInt64}, Value.i64 m.toInt64 = .i64 v.toUInt64.toInt64 → m = v.toUInt64 := fun h =>
      congrArg Int64.toUInt64 (Value.i64.inj h)
    have hint := @deserializeInt_iff debug d bs v.toUInt64 "i64 buffer underflow" (fun n => .i64 n.toInt64) d' hvisit hat
    refine hint.trans ?_
    simp [ty, bytes]

lemma recordStart_byte {b : UInt8} (hat : d.At (b :: bs)) (hrecord : 0 < d.record) :
    d.recordStart debug = if debug = true ∧ b ≠ SEP then
        .error (.panic "Missing expected record separator at current position")
      else .ok (d.advance 1 1) := by
  have hget : d.buf[d.pos]? = some b := hat.getElem?
  have hlt : ¬ d.buf.length ≤ d.pos := by
    have := hat.length
    rw [length_cons] at this
    omega
  have hinc : d.incPos debug 1 = .ok (d.advance 1 0) := hat.singleton_append.incPos debug
  by_cases hb : debug = true ∧ b ≠ SEP
  · simp [recordStart, debugAssert, hget, hlt, hrecord, hb, Bind.bind, Except.bind]
  · simp [recordStart, debugAssert, hget, hlt, hrecord, hb, hinc, incRec, advance]

lemma visitTuple_cons_iff {t : Ty} {ts : List Ty} {v : Value} {vs : List Value}
    {d₁ d' : Deserializer} {len i : ℕ}
    (hrecord : d.record < d.seq) (hstart : d.recordStart debug = .ok d₁) :
    visitTuple debug len i (t :: ts) d = .ok (v :: vs, d') ↔
      ∃ d₂, d₁.deserialize debug t = .ok (v, d₂) ∧
        visitTuple debug len (i + 1) ts d₂ = .ok (vs, d') := by
  cases ht : d₁.deserialize debug t with
  | error e =>
    have hdone : ¬ d.seq ≤ d.record := by omega
    simp [visitTuple, nextElement, hdone, hstart, ht, Bind.bind, Except.bind]
  | ok r =>
    obtain ⟨w, d₂⟩ := r
    rw [visitTuple_cons debug ts hrecord hstart ht, prepend_eq_ok]
    simp only [singleton_append, List.cons.injEq, Except.ok.injEq, Prod.mk.injEq]
    constructor
    · rintro ⟨ws, hws, rfl, rfl⟩
      exact ⟨d₂, ⟨rfl, rfl⟩, hws⟩
    · rintro ⟨d₃, ⟨rfl, rfl⟩, hvs⟩
      exact ⟨vs, hvs, rfl, rfl⟩

lemma cons_of_append_eq {q fb R rest : List UInt8} (h : (q ++ SEP :: fb) ++ R = fb ++ rest) :
    ∃ b rest', q ++ SEP :: fb = fb ++ b :: rest' ∧ rest = b :: (rest' ++ R) := by
  rcases append_eq_append_iff.1 h with ⟨c, hc, -⟩ | ⟨c, hc, rfl⟩
  · have := congrArg List.length hc
    simp at this
    omega
  · cases c with
    | nil =>
      have := congrArg List.length hc
      simp at this
      omega
    | cons b c => exact ⟨b, c, hc, rfl⟩

/-- **When the fields are read early.** -/
lemma visitTuple_early_iff {fs : List Field} {b : UInt8} {q : List UInt8} {len i : ℕ}
    (hat : d.At (b :: (q ++ records fs)))
    (hrecord : 0 < d.record) (hseq : d.record + fs.length ≤ d.seq) :
    (∃ d', visitTuple debug len i (fs.map ty) d = .ok (fs.map value, d') ∧
      (debug = true → d'.finished = true)) ↔ (debug = true → b = SEP) ∧ ReadEarly debug q fs := by
  induction fs generalizing d b q i with
  | nil =>
    have hfinished : d.finished = true ↔ b = SEP ∧ q = [] := by
      simp [finished, hat.le, hat.drop]
    simp only [map_nil, visitTuple, Except.ok.injEq, Prod.mk.injEq, true_and, ReadEarly,
      exists_eq_left', hfinished]
    exact imp_and
  | cons f fs ih =>
    rw [length_cons] at hseq
    have hstart := @recordStart_byte debug d _ b hat hrecord
    by_cases hb : debug = true ∧ b ≠ SEP
    · rw [if_pos hb] at hstart
      refine iff_of_false ?_ fun h => hb.2 (h.1 hb.1)
      have hdone : ¬ d.seq ≤ d.record := by omega
      rintro ⟨d', hvisit, -⟩
      simp [visitTuple, nextElement, hdone, hstart, Bind.bind, Except.bind] at hvisit
    rw [if_neg hb] at hstart
    have hbyte : debug = true → b = SEP := fun h => by_contra fun hne => hb ⟨h, hne⟩
    have hat₁ : (d.advance 1 1).At ((q ++ SEP :: f.bytes) ++ records fs) := by
      have := hat.singleton_append.advance 1
      simpa using this
    simp only [map_cons, visitTuple_cons_iff (by omega) hstart, deserialize_field_iff hat₁, ReadEarly]
    -- The cursor after the field, when the field and a byte after it stand where they are looked for.
    have hrest : ∀ {b' rest}, q ++ SEP :: f.bytes = f.bytes ++ b' :: rest →
        ((d.advance 1 1).advance f.bytes.length 0).At (b' :: (rest ++ records fs)) := by
      intro b' rest heq
      rw [heq, append_assoc, cons_append] at hat₁
      exact hat₁.advance 0
    have hseq₂ : ((d.advance 1 1).advance f.bytes.length 0).record + fs.length ≤
        ((d.advance 1 1).advance f.bytes.length 0).seq := by
      simp only [advance_record, advance_seq]
      omega
    constructor
    · rintro ⟨d', ⟨_, ⟨rest, heq, hend, rfl⟩, hvisit⟩, hfinished⟩
      obtain ⟨b', rest, hfound, rfl⟩ := cons_of_append_eq heq
      obtain ⟨hb', hearly⟩ := (ih (hrest hfound) (Nat.succ_pos _) hseq₂).1 ⟨d', hvisit, hfinished⟩
      refine ⟨hbyte, b', rest, hfound, fun hstring => ?_, hb', hearly⟩
      rcases hend hstring with hnil | ⟨cs, hcs⟩
      · cases hnil
      · exact (List.cons.inj hcs).1
    · rintro ⟨-, b', rest, hfound, hstring, hb', hearly⟩
      obtain ⟨d', hvisit, hfinished⟩ := (ih (hrest hfound) (Nat.succ_pos _) hseq₂).2 ⟨hb', hearly⟩
      refine ⟨d', ⟨_, ⟨b' :: (rest ++ records fs), ?_, fun h => .inr ⟨_, by rw [hstring h]⟩, rfl⟩, hvisit⟩, hfinished⟩
      rw [hfound, append_assoc, cons_append]

/-- **`Ignore` skips exactly one field** when there is no separator in it, or when what follows is
read early. -/
theorem fromSlice_ignore_iff (debug : Bool) (pre : List Field) (f : Field) (fs : List Field) :
    ∃ bytes, serializeToVec debug (.tuple ((pre ++ f :: fs).map value)) = .ok bytes ∧
      (fromSlice debug (.tuple (pre.map ty ++ .ignore :: fs.map ty)) bytes =
        .ok (.tuple (pre.map value ++ .unit :: fs.map value)) ↔ Skips debug f fs) := by
  refine ⟨layout (pre ++ f :: fs), serializeToVec_tuple debug _, ?_⟩
  have hreads : ∀ fs : List Field, ∀ e ∈ fs.map elem, e.Reads debug := fun fs =>
    forall_mem_map.2 fun f _ => f.reads debug
  have hlayout : layout (pre ++ f :: fs) =
      join ((pre.map elem).map Elem.bytes ++ f.bytes :: fs.map bytes) := by
    rw [layout, map_append, map_cons, map_map]
    rfl
  have htypes : pre.map ty ++ .ignore :: fs.map ty =
      (pre.map Field.elem).map Elem.ty ++ .ignore :: fs.map Field.ty := by simp [Field.elem]
  have hvalues : pre.map Field.value = (pre.map Field.elem).map Elem.value := by simp [Field.elem]
  obtain ⟨len, hlen⟩ : ∃ len, (pre.map ty ++ .ignore :: fs.map ty).length = len := ⟨_, rfl⟩
  have hlen' : pre.length + (fs.length + 1) = len := by simpa using hlen
  obtain ⟨d, hd, hrecord, hseq, hread⟩ := visitElems_join debug (f.bytes :: fs.map bytes) len
    (hreads pre) (by rw [length_map]; omega)
  rw [length_map] at hrecord
  -- The fields before the ignored one are read, whatever is in the ignored one.
  have hrest : (∃ d', visitTuple debug len 0 (pre.map ty ++ .ignore :: fs.map ty)
        ⟨layout (pre ++ f :: fs), 0, 0, len⟩ = .ok (pre.map value ++ .unit :: fs.map value, d') ∧
        (debug = true → d'.finished = true)) ↔
      ∃ d', visitTuple debug len pre.length (.ignore :: fs.map ty) d =
        .ok (.unit :: fs.map Field.value, d') ∧ (debug = true → d'.finished = true) := by
    rw [hlayout, htypes, hread, hvalues, length_map]
    simp only [prepend_eq_ok, append_cancel_left_eq, exists_eq_right']
  rw [fromSlice_tuple_iff, hlen, hrest]
  by_cases hsep : SEP ∈ f.bytes
  · obtain ⟨p, q, hbytes, hp⟩ := eq_append_cons_of_mem hsep
    obtain ⟨d₁, hstart, hat, hrecord₁, hseq₁⟩ := hd.next.recordStart debug
    rw [hbytes, append_assoc, cons_append, ← records] at hat
    have hignore : d₁.deserialize debug .ignore = .ok (.unit, d₁.advance p.length 0) :=
      deserialize_ignore hat hp (by omega)
    rw [skips_iff hbytes hp]
    simp only [visitTuple_cons_iff (show d.record < d.seq by omega) hstart, hignore,
      Except.ok.injEq, Prod.mk.injEq, true_and, exists_eq_left']
    rw [visitTuple_early_iff (hat.advance 0) (by simp; omega) (by simp; omega)]
    exact and_iff_right fun _ => rfl
  · refine iff_of_true ?_ fun p q hbytes _ => (hsep (by simp [hbytes])).elim
    obtain ⟨d₁, hat₁, hrecord₁, hseq₁, hread₁⟩ :=
      hd.next.visitElem debug len (ignore_reads hsep) (recordEnd_following _) (by omega)
    have hfollowing : following (fs.map Field.bytes) =
      following ((fs.map Field.elem).map Elem.bytes ++ []) := by
      rw [append_nil, map_map]
      rfl
    rw [hfollowing] at hat₁
    obtain ⟨d₂, hat₂, -, -, hread₂⟩ := hat₁.visitElems debug len (hreads fs) (by omega) (by rw [length_map]; omega)
    refine ⟨d₂, ?_, fun _ => ?_⟩
    · have hread₂ := hread₂ (pre.length + 1) []
      rw [visitTuple, prepend_ok, append_nil, append_nil, map_map, map_map] at hread₂
      have hfields : visitTuple debug len (pre.length + 1) (fs.map ty) d₁ =
          .ok (fs.map value, d₂) := hread₂
      rw [hread₁, hfields, prepend_ok]
      rfl
    · simp [finished, hat₂.le, hat₂.drop]

/-- **A skipped integer with a separator in it shifts the next field.** -/
theorem fromSlice_ignore_u64 :
    serializeToVec false (.tuple [.u64 255, .u64 1]) =
      .ok [0, 0, 0, 0, 0, 0, 0, 0xFF, 0xFF, 0, 0, 0, 0, 0, 0, 0, 1] ∧
    fromSlice false (.tuple [.ignore, .u64]) [0, 0, 0, 0, 0, 0, 0, 0xFF, 0xFF, 0, 0, 0, 0, 0, 0, 0, 1] =
      .ok (.tuple [.unit, .u64 0xFF00000000000000]) :=
  ⟨rfl, rfl⟩

end Ignored

end HaranaMatrix.StoreCodec
