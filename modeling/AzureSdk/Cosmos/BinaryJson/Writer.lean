import AzureSdk.Cosmos.BinaryJson.Markers
import AzureSdk.Cosmos.BinaryJson.Value

/-!
# The encoder

`writer.rs`. Every helper appends to an output buffer and never reads it, so each
is modelled as the bytes it appends. Numbers use the literal-int, `Int64`,
`UInt64` and `Double` forms; strings the encoded-length form up to 63 bytes and
then `StrL1/L2/L4`; containers always the length+count `LC` forms at the
narrowest width whose length and count fields both fit.

The `debug_assert!` of `encode_container` is not part of release builds and is
not modelled: past `u32::MAX` the `LC4` fields truncate, as `as u32` does.
-/

namespace CosmosDriver.BinaryJson

set_option autoImplicit false

structure LcMarkers where
  lc1 : UInt8
  lc2 : UInt8
  lc4 : UInt8

def arrayLcMarkers : LcMarkers := ⟨Markers.arrLc1, Markers.arrLc2, Markers.arrLc4⟩

def objectLcMarkers : LcMarkers := ⟨Markers.objLc1, Markers.objLc2, Markers.objLc4⟩

/-- `encode_i64`: a literal int for `0..32`, else `NumberInt64`. -/
def encodeI64 (i : Int64) : List UInt8 :=
  if 0 ≤ i ∧ i < 32 then [i.toUInt64.toUInt8]
  else Markers.numberInt64 :: LittleEndian.bytes 8 i.toUInt64.toNat

/-- `encode_u64`: through the signed path while the value fits `i64`. -/
def encodeU64 (u : UInt64) : List UInt8 :=
  if u ≤ 0x7FFFFFFFFFFFFFFF then encodeI64 u.toInt64
  else Markers.numberUint64 :: LittleEndian.bytes 8 u.toNat

/-- `encode_f64`: a non-finite float is written as `null`. -/
def encodeF64 (f : F64) : List UInt8 :=
  if !f.isFinite then [Markers.null] else Markers.numberDouble :: f.toLeBytes

/-- `encode_number`: signed if `as_i64` succeeds, else unsigned, else the float.
The last arm is unreachable (`as_i64` or `as_u64` succeeds on every integer). -/
def encodeNumber (n : Number) : List UInt8 :=
  match n.asI64, n.asU64, n with
  | some i, _, _ => encodeI64 i
  | none, some u, _ => encodeU64 u
  | none, none, .float f _ => encodeF64 f
  | none, none, _ => []

theorem encodeF64_of_finite {f : F64} (finite : f.isFinite = true) :
    encodeF64 f = Markers.numberDouble :: f.toLeBytes := by
  simp [encodeF64, finite]

theorem encodeNumber_posInt (u : UInt64) : encodeNumber (.posInt u) = encodeU64 u := by
  by_cases fits : u ≤ 0x7FFFFFFFFFFFFFFF
  · simp only [encodeNumber, Number.asI64, if_pos fits, encodeU64]
  · simp only [encodeNumber, Number.asI64, Number.asU64, if_neg fits, encodeU64]

theorem encodeNumber_posInt_of_le {u : UInt64} (fits : u ≤ 0x7FFFFFFFFFFFFFFF) :
    encodeNumber (.posInt u) = encodeI64 u.toInt64 := by
  simp only [encodeNumber_posInt, encodeU64, if_pos fits]

theorem encodeNumber_posInt_of_lt {u : UInt64} (above : 0x7FFFFFFFFFFFFFFF < u) :
    encodeNumber (.posInt u) = Markers.numberUint64 :: LittleEndian.bytes 8 u.toNat := by
  have notFits : ¬ u ≤ 0x7FFFFFFFFFFFFFFF := UInt64.not_le.mpr above
  simp only [encodeNumber_posInt, encodeU64, if_neg notFits]

theorem encodeNumber_negInt (i : Int64) (negative : i < 0) :
    encodeNumber (.negInt i negative) = encodeI64 i := rfl

theorem encodeNumber_float (f : F64) (finite : f.isFinite = true) :
    encodeNumber (.float f finite) = encodeF64 f := rfl

def encodeString (s : String) : List UInt8 :=
  let bytes := utf8Bytes s
  let len := bytes.length
  let head :=
    if len < 64 then [Markers.encodedStringLengthMin ||| UInt8.ofNat len]
    else if len ≤ 255 then [Markers.strL1, UInt8.ofNat len]
    else if len ≤ 65535 then Markers.strL2 :: LittleEndian.bytes 2 len
    else Markers.strL4 :: LittleEndian.bytes 4 len
  head ++ bytes

/-- `encode_container`: the marker, payload length and count at the narrowest
width both fit, then the body. -/
def encodeContainer (markers : LcMarkers) (count : Nat) (body : List UInt8) : List UInt8 :=
  let len := body.length
  let head :=
    if len ≤ 255 ∧ count ≤ 255 then [markers.lc1, UInt8.ofNat len, UInt8.ofNat count]
    else if len ≤ 65535 ∧ count ≤ 65535 then
      markers.lc2 :: LittleEndian.bytes 2 len ++ LittleEndian.bytes 2 count
    else markers.lc4 :: LittleEndian.bytes 4 len ++ LittleEndian.bytes 4 count
  head ++ body

mutual

def encodeValue : Value → List UInt8
  | .null => [Markers.null]
  | .bool false => [Markers.false]
  | .bool true => [Markers.true]
  | .number n => encodeNumber n
  | .string s => encodeString s
  | .array items => encodeContainer arrayLcMarkers items.length (encodeItems items)
  | .object entries => encodeContainer objectLcMarkers entries.length (encodeEntries entries)

def encodeItems : List Value → List UInt8
  | [] => []
  | item :: rest => encodeValue item ++ encodeItems rest

def encodeEntries : List (String × Value) → List UInt8
  | [] => []
  | (key, value) :: rest => encodeString key ++ encodeValue value ++ encodeEntries rest

end

def encode (value : Value) : List UInt8 := Markers.preamble :: encodeValue value

end CosmosDriver.BinaryJson
