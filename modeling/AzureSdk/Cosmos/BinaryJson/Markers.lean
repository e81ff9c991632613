import Mathlib.Data.Vector.Basic

/-!
# Type markers

The wire constants of `markers.rs`, the system-string dictionary of
`system_strings.rs`, and `TypeMarker`, which reads the marker table as a sum type:
every byte selects one form together with the parameters that form is decoded
with (a field width, an alphabet, a bit width). The decoder, the native scalar
fast path and the container-header reader all dispatch on `TypeMarker.ofByte`, so
the ranges of `markers.rs` are written down once.
-/

namespace CosmosDriver.BinaryJson

set_option autoImplicit false

namespace Markers

def preamble : UInt8 := 0x80
def literalIntMax : UInt8 := 0x20
def systemString1ByteMin : UInt8 := 0x20
def userString1ByteMin : UInt8 := 0x40
def userString1ByteMax : UInt8 := 0x60
def userString2ByteMin : UInt8 := 0x60
def encodedStringLengthMin : UInt8 := 0x80
def encodedStringLengthMax : UInt8 := 0xC0
def strL1 : UInt8 := 0xC0
def strL2 : UInt8 := 0xC1
def strL4 : UInt8 := 0xC2
def strR1 : UInt8 := 0xC3
def strR4 : UInt8 := 0xC6
def numberUint64 : UInt8 := 0xC7
def numberUint8 : UInt8 := 0xC8
def numberInt16 : UInt8 := 0xC9
def numberInt32 : UInt8 := 0xCA
def numberInt64 : UInt8 := 0xCB
def numberDouble : UInt8 := 0xCC
def float32 : UInt8 := 0xCD
def float64 : UInt8 := 0xCE
def null : UInt8 := 0xD0
def false : UInt8 := 0xD1
def true : UInt8 := 0xD2
def uint8 : UInt8 := 0xD7
def int8 : UInt8 := 0xD8
def int16 : UInt8 := 0xD9
def int32 : UInt8 := 0xDA
def int64 : UInt8 := 0xDB
def uint32 : UInt8 := 0xDC
def arrL1 : UInt8 := 0xE2
def arrL2 : UInt8 := 0xE3
def arrL4 : UInt8 := 0xE4
def arrLc1 : UInt8 := 0xE5
def arrLc2 : UInt8 := 0xE6
def arrLc4 : UInt8 := 0xE7
def objL1 : UInt8 := 0xEA
def objL2 : UInt8 := 0xEB
def objL4 : UInt8 := 0xEC
def objLc1 : UInt8 := 0xED
def objLc2 : UInt8 := 0xEE
def objLc4 : UInt8 := 0xEF
def arrNumC1 : UInt8 := 0xF0
def arrNumC2 : UInt8 := 0xF1

end Markers

/-- `SYSTEM_STRINGS`, in service order. -/
def systemStrings : List String :=
  ["$s", "$t", "$v", "_attachments", "_etag", "_rid", "_self", "_ts", "attachments/",
    "coordinates", "geometry", "GeometryCollection", "id", "url", "Value", "label",
    "LineString", "link", "MultiLineString", "MultiPoint", "MultiPolygon", "name", "Name",
    "Type", "Point", "Polygon", "properties", "type", "value", "Feature",
    "FeatureCollection", "_id"]

def systemStringForMarker (marker : UInt8) : Option String :=
  if 0x20 ≤ marker ∧ marker < 0x40 then systemStrings[(marker - 0x20).toNat]? else none

/-- `FieldWidth`: a 1-, 2- or 4-byte little-endian length or count field. -/
inductive FieldWidth where
  | u8
  | u16
  | u32
  deriving DecidableEq, Repr

def FieldWidth.bytes : FieldWidth → Nat
  | .u8 => 1
  | .u16 => 2
  | .u32 => 4

inductive CompressionTable where
  | lowercaseHex
  | uppercaseHex
  | dateTime
  deriving DecidableEq, Repr

/-- `compression::LOWERCASE_HEX`, `UPPERCASE_HEX` and `DATE_TIME`. -/
def CompressionTable.chars : CompressionTable → Vector UInt8 16
  | .lowercaseHex => #v[0x30, 0x31, 0x32, 0x33, 0x34, 0x35, 0x36, 0x37, 0x38, 0x39,
      0x61, 0x62, 0x63, 0x64, 0x65, 0x66]
  | .uppercaseHex => #v[0x30, 0x31, 0x32, 0x33, 0x34, 0x35, 0x36, 0x37, 0x38, 0x39,
      0x41, 0x42, 0x43, 0x44, 0x45, 0x46]
  | .dateTime => #v[0x20, 0x30, 0x31, 0x32, 0x33, 0x34, 0x35, 0x36, 0x37, 0x38, 0x39,
      0x3A, 0x2D, 0x2E, 0x54, 0x5A]

inductive TypeMarker where
  /-- `[0x00, 0x20)`: the marker is the integer. -/
  | literalInt (value : UInt8)
  /-- `[0x20, 0x40)`: an index into the system-string dictionary. -/
  | systemString (marker : UInt8)
  /-- `[0x40, 0x60)`: a 1-byte user-string id. -/
  | userString1 (marker : UInt8)
  /-- `[0x60, 0x68)`: a 2-byte user-string id. -/
  | userString2 (marker : UInt8)
  /-- `BASE64_STRING_LENGTH1/2`, `BASE64_URL_STRING_LENGTH1/2`. -/
  | base64String (width : FieldWidth) (urlSafe : Bool)
  /-- `LOWERCASE_GUID_STRING`, `UPPERCASE_GUID_STRING`, `DOUBLE_QUOTED_LOWERCASE_GUID_STRING`. -/
  | guidString (uppercase quoted : Bool)
  /-- `COMPRESSED_*_STRING`: 4-bit characters through a table. -/
  | tableString (table : CompressionTable)
  /-- `PACKED_4/5/6BIT_STRING`, `PACKED_7BIT_STRING_LENGTH1/2`. -/
  | packedString (bits : Nat) (hasBase : Bool) (width : FieldWidth)
  /-- `[0x80, 0xC0)`: the length is `marker & 0x7F`. -/
  | encodedLengthString (length : Nat)
  /-- `STR_L1/L2/L4`. -/
  | lengthPrefixedString (width : FieldWidth)
  /-- `STR_R1..STR_R4`, with a 1- to 4-byte offset. -/
  | referenceString (offsetBytes : Nat)
  /-- A fixed-width or extended number, decoded by `read_number_value`. -/
  | number (marker : UInt8)
  | null
  | false
  | true
  /-- `GUID`: 16 bytes of a .NET `Guid`. -/
  | guid
  /-- `BINARY_1/2/4BYTE_LENGTH`. -/
  | binary (width : FieldWidth)
  | arr0
  | arr1
  /-- `ARR_L*` (`hasCount = false`) and `ARR_LC*` (`hasCount = true`). -/
  | arrayFramed (width : FieldWidth) (hasCount : Bool)
  | obj0
  | obj1
  /-- `OBJ_L*` and `OBJ_LC*`. -/
  | objectFramed (width : FieldWidth) (hasCount : Bool)
  /-- `ARR_NUM_C1/C2`. -/
  | uniformNumberArray (width : FieldWidth)
  /-- `ARR_ARR_NUM_C1C1/C2C2`. -/
  | uniformArrayOfNumberArrays (width : FieldWidth)
  /-- Unassigned, `FLOAT16`, or `INVALID`. -/
  | invalid
  deriving DecidableEq, Repr

/-- The marker table of `markers.rs`. `0x68`-`0x70`, `0xD4`-`0xD6`, `FLOAT16`
(`0xCF`) and `0xF4`-`0xFF` select nothing. -/
def TypeMarker.ofByte (marker : UInt8) : TypeMarker :=
  if marker < 0x20 then .literalInt marker
  else if marker < 0x40 then .systemString marker
  else if marker < 0x60 then .userString1 marker
  else if marker < 0x68 then .userString2 marker
  else if marker < 0x80 then
    match marker with
    | 0x71 => .base64String .u8 Bool.false
    | 0x72 => .base64String .u16 Bool.false
    | 0x73 => .base64String .u8 Bool.true
    | 0x74 => .base64String .u16 Bool.true
    | 0x75 => .guidString Bool.false Bool.false
    | 0x76 => .guidString Bool.true Bool.false
    | 0x77 => .guidString Bool.false Bool.true
    | 0x78 => .tableString .lowercaseHex
    | 0x79 => .tableString .uppercaseHex
    | 0x7A => .tableString .dateTime
    | 0x7B => .packedString 4 Bool.true .u8
    | 0x7C => .packedString 5 Bool.true .u8
    | 0x7D => .packedString 6 Bool.true .u8
    | 0x7E => .packedString 7 Bool.false .u8
    | 0x7F => .packedString 7 Bool.false .u16
    | _ => .invalid
  else if marker < 0xC0 then .encodedLengthString (marker &&& 0x7F).toNat
  else
    match marker with
    | 0xC0 => .lengthPrefixedString .u8
    | 0xC1 => .lengthPrefixedString .u16
    | 0xC2 => .lengthPrefixedString .u32
    | 0xC3 => .referenceString 1
    | 0xC4 => .referenceString 2
    | 0xC5 => .referenceString 3
    | 0xC6 => .referenceString 4
    | 0xC7 | 0xC8 | 0xC9 | 0xCA | 0xCB | 0xCC | 0xCD | 0xCE => .number marker
    | 0xD0 => .null
    | 0xD1 => .false
    | 0xD2 => .true
    | 0xD3 => .guid
    | 0xD7 | 0xD8 | 0xD9 | 0xDA | 0xDB | 0xDC => .number marker
    | 0xDD => .binary .u8
    | 0xDE => .binary .u16
    | 0xDF => .binary .u32
    | 0xE0 => .arr0
    | 0xE1 => .arr1
    | 0xE2 => .arrayFramed .u8 Bool.false
    | 0xE3 => .arrayFramed .u16 Bool.false
    | 0xE4 => .arrayFramed .u32 Bool.false
    | 0xE5 => .arrayFramed .u8 Bool.true
    | 0xE6 => .arrayFramed .u16 Bool.true
    | 0xE7 => .arrayFramed .u32 Bool.true
    | 0xE8 => .obj0
    | 0xE9 => .obj1
    | 0xEA => .objectFramed .u8 Bool.false
    | 0xEB => .objectFramed .u16 Bool.false
    | 0xEC => .objectFramed .u32 Bool.false
    | 0xED => .objectFramed .u8 Bool.true
    | 0xEE => .objectFramed .u16 Bool.true
    | 0xEF => .objectFramed .u32 Bool.true
    | 0xF0 => .uniformNumberArray .u8
    | 0xF1 => .uniformNumberArray .u16
    | 0xF2 => .uniformArrayOfNumberArrays .u8
    | 0xF3 => .uniformArrayOfNumberArrays .u16
    | _ => .invalid

theorem TypeMarker.ofByte_literal {marker : UInt8} (small : marker < 0x20) :
    TypeMarker.ofByte marker = .literalInt marker := by
  simp only [TypeMarker.ofByte, if_pos small]

end CosmosDriver.BinaryJson
