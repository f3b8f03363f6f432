import HaranaMatrix.StoreCodec.De

/-!
# The layout of a record

The bytes of a tuple of strings and integers, said once: the bytes of the fields with a separator
between any two. The serializer writes this layout, and the deserializer reads it back field by
field, also when the tuple has gained fields that accept empty input. -/

namespace HaranaMatrix.StoreCodec

open Bytes Serializer

/-! ## Fields -/

inductive Field
  | string (v : String)
  | u64 (v : UInt64)
  | i64 (v : Int64)
deriving DecidableEq, Repr

namespace Field

def value : Field → Value
  | .string v => .str v
  | .u64 v => .u64 v
  | .i64 v => .i64 v

def ty : Field → Ty
  | .string _ => .string
  | .u64 _ => .u64
  | .i64 _ => .i64

def bytes : Field → List UInt8
  | .string v => utf8 v
  | .u64 v => toBe 8 v.toNat
  | .i64 v => toBe 8 v.toUInt64.toNat

end Field

/-- Records that follow others, each after its separator. -/
def following (bss : List (List UInt8)) : List UInt8 := bss.flatMap fun bs => SEP :: bs

/-- Records with a separator between any two. -/
def join : List (List UInt8) → List UInt8
  | [] => []
  | bs :: bss => bs ++ following bss

@[simp] lemma following_nil : following [] = [] := rfl

@[simp] lemma following_cons (bs : List UInt8) (bss : List (List UInt8)) :
    following (bs :: bss) = SEP :: (bs ++ following bss) := rfl

/-- The fields that follow the first one, each after its separator. -/
def records (fs : List Field) : List UInt8 := following (fs.map Field.bytes)

/-- The bytes of a tuple. -/
def layout (fs : List Field) : List UInt8 := join (fs.map Field.bytes)

@[simp] lemma records_nil : records [] = [] := rfl

@[simp] lemma records_cons (f : Field) (fs : List Field) :
    records (f :: fs) = SEP :: (f.bytes ++ records fs) := rfl

lemma layout_eq (f : Field) (fs : List Field) : layout (f :: fs) = f.bytes ++ records fs := rfl

lemma sep_notMem_utf8 (v : String) : SEP ∉ utf8 v := fun h => absurd (utf8_lt v SEP h) (by decide)

/-! ## Writing -/

section Write

variable {debug : Bool} {s : Serializer}

@[simp] lemma debugAssert_true (message : String) : debugAssert debug true message = .ok () := by
  simp [debugAssert]

/-- A serializer inside a tuple, before its end. -/
structure Serializer.Open (debug : Bool) (s : Serializer) : Prop where
  depth : debug = true → 0 < s.depth
  fin : s.fin = false

lemma Serializer.Open.assert_depth (h : s.Open debug) (message : String) :
    debugAssert debug (0 < s.depth) message = .ok () := by
  cases debug with
  | false => simp [debugAssert]
  | true => simp [debugAssert, h.depth rfl]

lemma Serializer.Open.recordStart (h : s.Open debug) : s.recordStart debug =
    .ok { s with out := s.out ++ if s.sep then [SEP] else [], sep := true } := by
  obtain ⟨out, depth, sep, fin⟩ := s
  obtain rfl := h.fin
  cases sep <;> simp [recordStart, separator, isFinalized, write]

/-- The serializer writes these bytes for the value. -/
def Writes (debug : Bool) (v : Value) (bs : List UInt8) : Prop :=
  ∀ s : Serializer, s.Open debug → ∃ sep, serialize debug v s = .ok { s with out := s.out ++ bs, sep := sep }

lemma Field.writes (debug : Bool) (f : Field) : Writes debug f.value f.bytes := by
  intro s h
  cases f with
  | string v =>
    refine ⟨true, ?_⟩
    simp only [Field.value, serialize, serializeStr, serializeBytes, h.assert_depth]
    rfl
  | u64 v | i64 v =>
    refine ⟨false, ?_⟩
    rfl

/-- **The elements of a tuple are written one after the other**, whatever they are. -/
lemma Serializer.Open.serializeTupleElements (h : s.Open debug) {α : Type} {value : α → Value}
    {bytes : α → List UInt8}
    {xs : List α} (hxs : ∀ x ∈ xs, Writes debug (value x) (bytes x)) (vs : List Value) :
    serializeTupleElements debug (xs.map value ++ vs) s =
      serializeTupleElements debug vs
        { s with
          out := s.out ++ if s.sep then following (xs.map bytes) else join (xs.map bytes)
          sep := s.sep || !xs.isEmpty } := by
  induction xs generalizing s with
  | nil => cases s; simp [join]
  | cons x xs ih =>
    obtain ⟨hx, hxs⟩ := List.forall_mem_cons.1 hxs
    set s₁ : Serializer := { s with out := s.out ++ if s.sep then [SEP] else [], sep := true } with hs₁
    have h₁ : s₁.Open debug := ⟨h.depth, h.fin⟩
    obtain ⟨sep, hf⟩ := hx s₁ h₁
    have h₂ : ({ s₁ with out := s₁.out ++ bytes x, sep := true } : Serializer).Open debug := ⟨h.depth, h.fin⟩
    rw [List.map_cons, List.cons_append, serializeTupleElements, h.recordStart]
    rw [ok_bind, hf, ok_bind, ih h₂ hxs]
    cases hsep : s.sep <;> simp [hs₁, hsep, join]

lemma serializeToVec_of_elements {vs : List Value} (hs : serializeTupleElements debug vs
    ⟨[], if debug then 1 else 0, false, false⟩ = .ok s) (hdepth : s.depth = if debug then 1 else 0) :
    serializeToVec debug (.tuple vs) = .ok s.out := by
  have hstart : tupleStart debug ⟨[], 0, false, false⟩ =
      .ok ⟨[], if debug then 1 else 0, false, false⟩ := by cases debug <;> rfl
  rw [serializeToVec, serialize, hstart, ok_bind, hs, ok_bind, tupleEnd, sequenceEnd]
  cases debug <;> simp_all [debugAssert, pure, Except.pure]

lemma open_start (debug : Bool) : Serializer.Open debug ⟨[], if debug then 1 else 0, false, false⟩ :=
  ⟨fun h => by simp [h], rfl⟩

/-- **The serializer joins the records of the elements.** -/
lemma serializeToVec_join {α : Type} {value : α → Value} {bytes : α → List UInt8} {xs : List α}
    (hxs : ∀ x ∈ xs, Writes debug (value x) (bytes x)) :
    serializeToVec debug (.tuple (xs.map value)) = .ok (join (xs.map bytes)) := by
  have h := (open_start debug).serializeTupleElements hxs []
  rw [List.append_nil, serializeTupleElements] at h
  exact serializeToVec_of_elements h rfl

/-- **The serializer writes the layout.** -/
theorem serializeToVec_tuple (debug : Bool) (fs : List Field) :
    serializeToVec debug (.tuple (fs.map Field.value)) = .ok (layout fs) :=
  serializeToVec_join fun f _ => f.writes debug

/-- The bytes of a tuple that ends with `Interfix`: a separator follows every field. -/
def scan (fs : List Field) : List UInt8 :=
  fs.flatMap fun f => f.bytes ++ [SEP]

lemma scan_cons (f : Field) (fs : List Field) : scan (f :: fs) = f.bytes ++ SEP :: scan fs := by
  simp [scan]

lemma layout_append_sep {fs : List Field} (h : fs ≠ []) : layout fs ++ [SEP] = scan fs := by
  obtain ⟨f, fs, rfl⟩ := List.exists_cons_of_ne_nil h
  have hrecords : ∀ fs : List Field, records fs ++ [SEP] = SEP :: scan fs := fun fs => by
    induction fs with
    | nil => rfl
    | cons f fs ih => rw [records_cons, List.cons_append, List.append_assoc, ih, scan_cons]
  rw [layout_eq, List.append_assoc, hrecords, scan_cons]

/-- **`Interfix` finalizes a tuple with its trailing separator.** -/
theorem serializeToVec_interfix (debug : Bool) (fs : List Field) :
    serializeToVec debug (.tuple (fs.map Field.value ++ [.interfix])) = .ok (scan fs) := by
  set s : Serializer := ⟨layout fs, if debug then 1 else 0, !fs.isEmpty, false⟩ with hs
  have hopen : s.Open debug := ⟨(open_start debug).depth, rfl⟩
  have hfs : ∀ f ∈ fs, Writes debug f.value f.bytes := fun f _ => f.writes debug
  have h := (open_start debug).serializeTupleElements hfs [.interfix]
  rw [← layout] at h
  have hend : serializeTupleElements debug [.interfix] s =
      .ok ⟨scan fs, if debug then 1 else 0, true, debug⟩ := by
    rw [serializeTupleElements, hopen.recordStart, ok_bind, serialize]
    have hout : (s.out ++ if s.sep then [SEP] else []) = scan fs := by
      cases fs with
      | nil => rfl
      | cons f fs => simpa [hs] using layout_append_sep (List.cons_ne_nil f fs)
    rw [hout]
    cases debug <;> rfl
  exact serializeToVec_of_elements (h.trans hend) rfl

end Write

end HaranaMatrix.StoreCodec
