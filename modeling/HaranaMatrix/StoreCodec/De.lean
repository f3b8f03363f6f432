import HaranaMatrix.StoreCodec.Ser

/-!
# Deserialization of records

The cursor of the store codec and the types that ask it for values. A cursor past its buffer is a
panic, as the source slices the buffer at the cursor. -/

namespace HaranaMatrix.StoreCodec

open Bytes

/-- The types that can be decoded. `&str` and `String` are `str` and `string`. -/
inductive Ty
  | string
  | str
  | bytes
  | i64
  | u64
  | option (t : Ty)
  | seq (t : Ty)
  | tuple (ts : List Ty)
  | ignore
  | ignoreAll
deriving Repr

structure Deserializer where
  buf : List UInt8
  pos : ℕ
  record : ℕ
  seq : ℕ
deriving DecidableEq, Repr

namespace Deserializer

/-- The input was consumed, apart from one trailing separator. -/
def finished (d : Deserializer) : Bool :=
  d.pos ≤ d.buf.length && (d.buf.drop d.pos == [] || d.buf.drop d.pos == [SEP])

variable (debug : Bool)

def sequenceStart (len : ℕ) (d : Deserializer) : Except Error Deserializer := do
  debugAssert debug (d.seq == 0) "Nested sequences are not handled at this time"
  return { d with seq := len }

def incPos (n : ℕ) (d : Deserializer) : Except Error Deserializer := do
  let d := { d with pos := d.pos + n }
  debugAssert debug (d.pos ≤ d.buf.length) "pos out of range"
  return d

def incRec (n : ℕ) (d : Deserializer) : Deserializer := { d with record := d.record + n }

/-- `&self.buf[self.pos..]` -/
def rest (d : Deserializer) : Except Error (List UInt8) :=
  if d.pos ≤ d.buf.length then .ok (d.buf.drop d.pos)
  else .error (.panic "range start index out of range for slice")

/-- Consume the current record, up to the next separator. -/
def recordNext (d : Deserializer) : Except Error (List UInt8 × Deserializer) := do
  let record := (← d.rest).takeWhile (· != SEP)
  let d ← d.incPos debug record.length
  return (record, d)

/-- Consume all remaining bytes, which may include record separators. -/
def recordTrail (d : Deserializer) : Except Error (List UInt8 × Deserializer) := do
  let record ← d.rest
  let d ← d.incPos debug record.length
  return (record, d)

def recordIgnoreAll (d : Deserializer) : Except Error Deserializer :=
  Prod.snd <$> d.recordTrail debug

def recordIgnore (d : Deserializer) : Except Error Deserializer :=
  if 0 < d.seq then Prod.snd <$> d.recordNext debug else d.recordIgnoreAll debug

/-- Consume the record separator. When the input is exhausted but the sequence is not, no byte is
consumed. -/
def recordStart (d : Deserializer) : Except Error Deserializer := do
  let started := d.pos != 0 || 0 < d.record
  let inputDone := d.buf.length ≤ d.pos
  let outputDone := d.seq ≤ d.record
  let incomplete := inputDone && !outputDone
  debugAssert debug (!started || incomplete || d.buf[d.pos]? == some SEP)
    "Missing expected record separator at current position"
  let d ← d.incPos debug (if started && !incomplete then 1 else 0)
  return d.incRec 1

def strFromBytes (bytes : List UInt8) : Except Error String :=
  match fromUtf8 bytes with
  | some s => .ok s
  | none => .error .utf8

/-- `deserialize_str` and `deserialize_string`: a record of text, borrowed or owned. -/
def deserializeStr (d : Deserializer) : Except Error (Value × Deserializer) := do
  let (input, d) ← d.recordNext debug
  let out ← strFromBytes input
  return (.str out, d)

/-- The integers of eight bytes, which no separator ends. -/
def deserializeInt (underflow : String) (visit : UInt64 → Value) (d : Deserializer) :
    Except Error (Value × Deserializer) := do
  -- `self.buf[self.pos..end]` with `end` at most eight bytes further
  let bytes := (← d.rest).take 8
  if bytes.length < 8 then throw (.serdeDe underflow)
  let d ← d.incPos debug 8
  return (visit (UInt64.ofNat (fromBe bytes)), d)

def deserializeI64 (d : Deserializer) : Except Error (Value × Deserializer) :=
  d.deserializeInt debug "i64 buffer underflow" fun n => .i64 n.toInt64

def deserializeU64 (d : Deserializer) : Except Error (Value × Deserializer) :=
  d.deserializeInt debug "u64 buffer underflow" .u64

/-- `SeqAccess::next_element_seed`: done only when both the input and the output are exhausted. -/
def nextElement (seed : Deserializer → Except Error (Value × Deserializer))
    (d : Deserializer) : Except Error (Option Value × Deserializer) := do
  let finished := d.buf.length ≤ d.pos
  let complete := d.seq ≤ d.record
  if finished && complete then return (none, d)
  let d ← d.recordStart debug
  let (value, d) ← seed d
  return (some value, d)

/-- The visitor of a vector asks for elements until there are none. -/
def visitSeq (debug : Bool) (seed : Deserializer → Except Error (Value × Deserializer)) :
    ℕ → Deserializer → Except Error (List Value × Deserializer)
  | 0, _ => .error (.panic "out of fuel")
  | fuel + 1, d => do
    match ← d.nextElement debug seed with
    | (none, d) => return ([], d)
    | (some value, d) =>
      let (values, d) ← visitSeq debug seed fuel d
      return (value :: values, d)

mutual

def deserialize (debug : Bool) : Ty → Deserializer → Except Error (Value × Deserializer)
  | .string, d => d.deserializeStr debug
  | .str, d => d.deserializeStr debug
  | .bytes, d => do
    let (input, d) ← d.recordTrail debug
    return (.bytes input, d)
  | .i64, d => d.deserializeI64 debug
  | .u64, d => d.deserializeU64 debug
  | .option t, d =>
    -- `None` is read off the next byte
    if d.buf[d.pos]?.all (· == SEP) then return (.none, d)
    else do
      let (value, d) ← deserialize debug t d
      return (.some value, d)
  | .seq t, d => do
    let d ← d.sequenceStart debug 1
    let (values, d) ← visitSeq debug (deserialize debug t) (d.buf.length + 2) d
    return (.seq values, d)
  | .tuple ts, d => do
    let d ← d.sequenceStart debug ts.length
    let (values, d) ← visitTuple debug ts.length 0 ts d
    return (.tuple values, d)
  | .ignore, d => do
    let d ← d.recordIgnore debug
    return (.unit, d)
  | .ignoreAll, d => do
    let d ← d.recordIgnoreAll debug
    return (.unit, d)

/-- The visitor of a tuple of `len` elements asks for each of them. -/
def visitTuple (debug : Bool) (len : ℕ) :
    ℕ → List Ty → Deserializer → Except Error (List Value × Deserializer)
  | _, [], d => .ok ([], d)
  | i, t :: ts, d => do
    match ← d.nextElement debug (deserialize debug t) with
    | (none, _) =>
      throw (.serdeDe ("invalid length " ++ toString i ++ ", expected a tuple of size " ++ toString len))
    | (some value, d) =>
      let (values, d) ← visitTuple debug len (i + 1) ts d
      return (value :: values, d)

end

end Deserializer

/-- Deserializes a value from database record bytes. -/
def fromSlice (debug : Bool) (t : Ty) (buf : List UInt8) : Except Error Value := do
  let (value, d) ← Deserializer.deserialize debug t ⟨buf, 0, 0, 0⟩
  debugAssert debug d.finished "deserialization failed to consume trailing bytes"
  return value

end HaranaMatrix.StoreCodec
