import AzureSdk.Lib.LittleEndian
import AzureSdk.Lib.SortedMap
import Mathlib.Data.String.Basic

/-!
# The JSON values the codec reads and writes

`serde_json::Value` as the workspace configures it: numbers are `Number`'s private
`N` (no `arbitrary_precision`), objects are the default `BTreeMap<String, Value>`
(no `preserve_order`), held here as their entries in key order. Floats are kept
as their IEEE-754 bit patterns: the codec only copies those bits and asks whether
the value is finite, so no floating-point arithmetic enters the model.

`Value` equality is structural, so `-0.0` and `0.0` differ here while Rust's `==`
equates them; every equality proved here is the finer one and implies Rust's.
-/

namespace CosmosDriver.BinaryJson

set_option autoImplicit false

structure F64 where
  bits : UInt64
  deriving DecidableEq, Repr

namespace F64

/-- `f64::is_finite`: the exponent field is not all ones. -/
def isFinite (f : F64) : Bool := (f.bits >>> 52) &&& 0x7FF != 0x7FF

def toLeBytes (f : F64) : List UInt8 := LittleEndian.bytes 8 f.bits.toNat

def fromLeBytes (input : List UInt8) : F64 := ⟨UInt64.ofNat (LittleEndian.value input)⟩

@[simp] theorem length_toLeBytes (f : F64) : f.toLeBytes.length = 8 := by
  simp [toLeBytes]

@[simp] theorem fromLeBytes_toLeBytes (f : F64) : fromLeBytes f.toLeBytes = f := by
  have fits : f.bits.toNat < 2 ^ (8 * 8) := f.bits.toNat_lt
  simp only [fromLeBytes, toLeBytes, LittleEndian.value_bytes_of_lt fits, UInt64.ofNat_toNat]

end F64

structure F32 where
  bits : UInt32
  deriving DecidableEq, Repr

namespace F32

def fromLeBytes (input : List UInt8) : F32 := ⟨UInt32.ofNat (LittleEndian.value input)⟩

/-- `f64::from(f32)`: the exact widening of every finite value. A subnormal
`f32` becomes a normal `f64` (its leading one moves into the implicit bit); a NaN
keeps its payload in the top mantissa bits and is quieted. -/
def toF64 (f : F32) : F64 :=
  let sign := (f.bits.toNat / 2 ^ 31) * 2 ^ 63
  let exponent := f.bits.toNat / 2 ^ 23 % 256
  let mantissa := f.bits.toNat % 2 ^ 23
  let magnitude :=
    if exponent = 255 then
      2047 * 2 ^ 52 + mantissa * 2 ^ 29 + (if mantissa = 0 then 0 else 2 ^ 51)
    else if exponent = 0 then
      if mantissa = 0 then 0
      else
        let lead := Nat.log2 mantissa
        (lead + 874) * 2 ^ 52 + (mantissa - 2 ^ lead) * 2 ^ (52 - lead)
    else (exponent + 896) * 2 ^ 52 + mantissa * 2 ^ 29
  ⟨UInt64.ofNat (sign + magnitude)⟩

end F32

/-- `serde_json::Number`: a non-negative integer, a negative integer, or a
finite float. -/
inductive Number where
  | posInt (value : UInt64)
  | negInt (value : Int64) (negative : value < 0)
  | float (value : F64) (finite : value.isFinite = true)
  deriving DecidableEq, Repr

namespace Number

def ofI64 (i : Int64) : Number := if negative : i < 0 then .negInt i negative else .posInt i.toUInt64

def ofU64 (u : UInt64) : Number := .posInt u

/-- `Number::from_f64`: `None` for a NaN or an infinity. -/
def fromF64 (f : F64) : Option Number := if finite : f.isFinite = true then some (.float f finite) else none

def asI64 : Number → Option Int64
  | .posInt u => if u ≤ 0x7FFFFFFFFFFFFFFF then some u.toInt64 else none
  | .negInt i _ => some i
  | .float _ _ => none

def asU64 : Number → Option UInt64
  | .posInt u => some u
  | .negInt _ _ => none
  | .float _ _ => none

end Number

/-- `serde_json::Value`. An object holds its map's entries in key order. -/
inductive Value where
  | null
  | bool (b : Bool)
  | number (n : Number)
  | string (s : String)
  | array (items : List Value)
  | object (entries : List (String × Value))
  deriving Repr

namespace Value

mutual
def decEq : (a b : Value) → Decidable (a = b)
  | .null, .null => isTrue rfl
  | .bool a, .bool b => if h : a = b then isTrue (h ▸ rfl) else isFalse (fun e => h (Value.bool.inj e))
  | .number a, .number b =>
      if h : a = b then isTrue (h ▸ rfl) else isFalse (fun e => h (Value.number.inj e))
  | .string a, .string b =>
      if h : a = b then isTrue (h ▸ rfl) else isFalse (fun e => h (Value.string.inj e))
  | .array a, .array b =>
      match decEqItems a b with
      | isTrue h => isTrue (h ▸ rfl)
      | isFalse h => isFalse (fun e => h (Value.array.inj e))
  | .object a, .object b =>
      match decEqEntries a b with
      | isTrue h => isTrue (h ▸ rfl)
      | isFalse h => isFalse (fun e => h (Value.object.inj e))
  | .null, .bool _ | .null, .number _ | .null, .string _ | .null, .array _ | .null, .object _
  | .bool _, .null | .bool _, .number _ | .bool _, .string _ | .bool _, .array _
  | .bool _, .object _ | .number _, .null | .number _, .bool _ | .number _, .string _
  | .number _, .array _ | .number _, .object _ | .string _, .null | .string _, .bool _
  | .string _, .number _ | .string _, .array _ | .string _, .object _ | .array _, .null
  | .array _, .bool _ | .array _, .number _ | .array _, .string _ | .array _, .object _
  | .object _, .null | .object _, .bool _ | .object _, .number _ | .object _, .string _
  | .object _, .array _ => isFalse (fun e => by cases e)

def decEqItems : (a b : List Value) → Decidable (a = b)
  | [], [] => isTrue rfl
  | [], _ :: _ => isFalse (fun e => by cases e)
  | _ :: _, [] => isFalse (fun e => by cases e)
  | a :: as, b :: bs =>
      match decEq a b, decEqItems as bs with
      | isTrue h, isTrue t => isTrue (h ▸ t ▸ rfl)
      | isFalse h, _ => isFalse (fun e => h (List.cons.inj e).1)
      | _, isFalse t => isFalse (fun e => t (List.cons.inj e).2)

def decEqEntries : (a b : List (String × Value)) → Decidable (a = b)
  | [], [] => isTrue rfl
  | [], _ :: _ => isFalse (fun e => by cases e)
  | _ :: _, [] => isFalse (fun e => by cases e)
  | (ka, a) :: as, (kb, b) :: bs =>
      if hk : ka = kb then
        match decEq a b, decEqEntries as bs with
        | isTrue h, isTrue t => isTrue (hk ▸ h ▸ t ▸ rfl)
        | isFalse h, _ => isFalse (fun e => h (Prod.mk.inj (List.cons.inj e).1).2)
        | _, isFalse t => isFalse (fun e => t (List.cons.inj e).2)
      else isFalse (fun e => hk (Prod.mk.inj (List.cons.inj e).1).1)
end

instance : DecidableEq Value := decEq

end Value

/-- `BinaryError` (`error.rs`). -/
inductive BinaryError where
  | unexpectedEof (needed : Nat)
  | invalidMarker (marker : UInt8) (offset : Nat)
  | invalidLength (detail : String)
  | invalidUtf8 (offset : Nat)
  | invalidNumber (detail : String)
  | unresolvedReference (target : Nat)
  | unsupportedUserString (id : Nat)
  | depthLimitExceeded (limit : Nat)
  | missingPreamble (found : UInt8)
  | trailingBytes (remaining : Nat)
  | custom (message : String)
  deriving DecidableEq, Repr

/-- The UTF-8 bytes of a string, `str::as_bytes`. -/
def utf8Bytes (s : String) : List UInt8 := s.toByteArray.data.toList

/-- `std::str::from_utf8`: the string the bytes encode, if they are valid UTF-8. -/
def fromUtf8 (input : List UInt8) : Option String := String.fromUTF8? input.toByteArray

theorem fromUtf8_utf8Bytes (s : String) : fromUtf8 (utf8Bytes s) = some s := by
  have bytesBack : (utf8Bytes s).toByteArray = s.toByteArray := by
    apply ByteArray.ext
    apply Array.toList_inj.mp
    simp [utf8Bytes]
  simp only [fromUtf8, bytesBack]
  simp [String.fromUTF8?, s.isValidUTF8, String.fromUTF8]

end CosmosDriver.BinaryJson
