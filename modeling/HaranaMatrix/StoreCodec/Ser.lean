import HaranaMatrix.Lib.Bytes
import HaranaMatrix.Lib.Sim

/-!
# Serialization of records

The serializer of the store codec: a tuple places `SEP` between adjacent elements, a sequence
follows the separator state that each element leaves. `debug` is `cfg!(debug_assertions)`; an
assertion that fails in a debug build is a panic. `Json`, which delegates to `serde_json`, and the
shapes that the codec does not handle are left out, apart from the unit value. -/

namespace HaranaMatrix.StoreCodec

open Bytes

inductive Error
  /-- bytes that could not be decoded into the requested type -/
  | serdeDe (message : String)
  /-- a record that is not UTF-8 -/
  | utf8
  | panic (message : String)
deriving DecidableEq, Repr

/-- What a value asks of a serializer, and what a visitor is given. -/
inductive Value
  | str (v : String)
  | char (v : Char)
  | bytes (v : List UInt8)
  | i64 (v : Int64)
  | i32 (v : Int32)
  | u64 (v : UInt64)
  | u32 (v : UInt32)
  | u8 (v : UInt8)
  | none
  | some (v : Value)
  | seq (vs : List Value)
  | tuple (vs : List Value)
  | interfix
  | separator
  | unit
deriving Repr

/-- Byte separating records, invalid in UTF-8. -/
def SEP : UInt8 := 0xFF

def debugAssert (debug : Bool) (condition : Bool) (message : String) : Except Error Unit :=
  if debug && !condition then .error (.panic message) else .ok ()

structure Serializer where
  out : List UInt8
  depth : ℕ
  sep : Bool
  fin : Bool
deriving DecidableEq, Repr

namespace Serializer

def isFinalized (s : Serializer) : Bool := s.fin

section

variable (debug : Bool) (s : Serializer)

def sequenceStart : Except Error Serializer := do
  debugAssert debug (!s.isFinalized) "Sequence start with finalization set"
  let s := if debug then { s with depth := s.depth + 1 } else s
  return { s with sep := false }

def sequenceEnd : Except Error Serializer :=
  let s := if debug then { s with depth := s.depth - 1 } else s
  return { s with sep := false }

def tupleStart : Except Error Serializer := do
  debugAssert debug (!s.sep) "Tuple start with separator set"
  s.sequenceStart debug

def tupleEnd : Except Error Serializer :=
  s.sequenceEnd debug

def write (s : Serializer) (buf : List UInt8) : Serializer := { s with out := s.out ++ buf }

def separator : Except Error Serializer := do
  debugAssert debug (!s.isFinalized) "Writing a separator after serialization finalized"
  return s.write [SEP]

def recordStart : Except Error Serializer := do
  debugAssert debug (!s.isFinalized) "Starting a record after serialization finalized"
  let started := { s with sep := true }
  if s.sep then started.separator debug else return started

def setFinalized : Except Error Serializer := do
  debugAssert debug (!s.isFinalized) "Finalization already set"
  return if debug then { s with fin := true } else s

end

def serializeBytes (debug : Bool) (v : List UInt8) (s : Serializer) : Except Error Serializer := do
  debugAssert debug (0 < s.depth) "serializing byte array at the top-level; you can skip serialization instead"
  return { s.write v with sep := true }

def serializeStr (debug : Bool) (v : String) (s : Serializer) : Except Error Serializer := do
  debugAssert debug (0 < s.depth) "serializing string at the top-level; you can skip serialization instead"
  s.serializeBytes debug (utf8 v)

/-- The integers: big-endian bytes, with no separator after them. -/
def serializeInt (width n : ℕ) (s : Serializer) : Except Error Serializer :=
  return { s.write (toBe width n) with sep := false }

mutual

def serialize (debug : Bool) : Value → Serializer → Except Error Serializer
  | .str v, s => s.serializeStr debug v
  | .char v, s => s.serializeStr debug v.toString
  | .bytes v, s => s.serializeBytes debug v
  | .i64 v, s => s.serializeInt 8 v.toUInt64.toNat
  | .i32 v, s => s.serializeInt 4 v.toUInt32.toNat
  | .u64 v, s => s.serializeInt 8 v.toNat
  | .u32 v, s => s.serializeInt 4 v.toNat
  | .u8 v, s => s.serializeInt 1 v.toNat
  | .none, s => .ok s
  | .some v, s => serialize debug v s
  | .seq vs, s => do
    let s ← s.sequenceStart debug
    let s ← serializeSeqElements debug vs s
    s.sequenceEnd debug
  | .tuple vs, s => do
    let s ← s.tupleStart debug
    let s ← serializeTupleElements debug vs s
    s.tupleEnd debug
  | .interfix, s => s.setFinalized debug
  | .separator, s => s.separator debug
  | .unit, _ => .error (.panic "serialize unit not implemented")

def serializeSeqElements (debug : Bool) : List Value → Serializer → Except Error Serializer
  | [], s => .ok s
  | v :: vs, s => do
    let s ← s.recordStart debug
    let s ← serialize debug v s
    serializeSeqElements debug vs s

def serializeTupleElements (debug : Bool) : List Value → Serializer → Except Error Serializer
  | [], s => .ok s
  | v :: vs, s => do
    let s ← s.recordStart debug
    let s ← serialize debug v s
    serializeTupleElements debug vs { s with sep := true }

end

end Serializer

/-- Serializes a value into an owned byte vector. -/
def serializeToVec (debug : Bool) (value : Value) : Except Error (List UInt8) := do
  let s ← Serializer.serialize debug value ⟨[], 0, false, false⟩
  debugAssert debug (s.depth == 0) "Serialization completed at non-zero recursion level"
  return s.out

end HaranaMatrix.StoreCodec
