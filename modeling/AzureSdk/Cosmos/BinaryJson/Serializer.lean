import AzureSdk.Cosmos.BinaryJson.Writer
import AzureSdk.Lib.Outcome

/-!
# The native serializer

`ser.rs`. A `Serialize` implementation talks to a serializer only through serde's
data-model calls, and the three serializers here only append to buffers, so what an
implementation does to them is the tree of calls it makes. `SerdeData` is that tree;
`BinarySerializer.serialize` is `impl Serializer for BinarySerializer` run over it,
with `ContainerBuilder` buffering compound values as the source does.

The `i8`-`i32` and `u8`-`u32` methods forward to the 64-bit ones and
`MapKeySerializer` prints the same decimal at every width, so those calls arrive
here already widened. Length hints and variant indices are never read and are left
out. The arbitrary-precision `Number` token parses its string with `serde_json`;
that parser is the parameter `numberFromStr`.
-/

namespace CosmosDriver.BinaryJson

open Outcome

set_option autoImplicit false

/-- The `Result<_, BinaryError>` of the serializer. -/
abbrev Write (α : Type) := Run BinaryError α

inductive SerdeData where
  | bool (v : Bool)
  | i64 (v : Int64)
  | i128 (v : Int)
  | u64 (v : UInt64)
  | u128 (v : Nat)
  | f32 (v : F32)
  | f64 (v : F64)
  | char (v : Char)
  | str (v : String)
  | bytes (v : List UInt8)
  | none
  | some (value : SerdeData)
  | unit
  | unitStruct (name : String)
  | unitVariant (name variant : String)
  | newtypeStruct (name : String) (value : SerdeData)
  | newtypeVariant (name variant : String) (value : SerdeData)
  | seq (elements : List SerdeData)
  | tuple (elements : List SerdeData)
  | tupleStruct (name : String) (fields : List SerdeData)
  | tupleVariant (name variant : String) (fields : List SerdeData)
  | map (entries : List (SerdeData × SerdeData))
  | struct (name : String) (fields : List (String × SerdeData))
  | structVariant (name variant : String) (fields : List (String × SerdeData))
  deriving Repr

def rawValueToken : String := "$serde_json::private::RawValue"

def numberToken : String := "$serde_json::private::Number"

def keyMustBeAString : BinaryError := .custom "map key must serialize to a string"

def notANumberToken : BinaryError :=
  .custom "arbitrary-precision number token field must be a string"

/-- `encode_number_str`: the number a decimal string denotes, signed, else unsigned,
else double. Rust's `{s:?}` quoting is `String.quote`. -/
def encodeNumberStr (numberFromStr : String → Option Number) (s : String) (out : List UInt8) :
    Write (List UInt8) :=
  match numberFromStr s with
  | Option.none => fail (.custom ("invalid arbitrary-precision number token: " ++ s.quote))
  | Option.some number =>
      match number.asI64, number.asU64, number with
      | Option.some i, _, _ => .ok (out ++ encodeI64 i)
      | Option.none, Option.some u, _ => .ok (out ++ encodeU64 u)
      | Option.none, Option.none, .float f _ => .ok (out ++ encodeF64 f)
      | Option.none, Option.none, _ =>
          fail (.custom ("number " ++ s.quote ++ " is out of range for Cosmos binary JSON"))

/-- `impl Serializer for StrCaptureSerializer`: only a string, possibly inside
newtype structs. -/
def StrCaptureSerializer.serialize : SerdeData → Write String
  | .str v => .ok v
  | .newtypeStruct _ value => StrCaptureSerializer.serialize value
  | _ => fail notANumberToken

/-- `impl Serializer for MapKeySerializer`: strings, characters and integers, the
integers printed in decimal; everything else is refused. -/
def MapKeySerializer.serialize : SerdeData → List UInt8 → Write (List UInt8)
  | .str v, out => .ok (out ++ encodeString v)
  | .char v, out => .ok (out ++ encodeString (String.singleton v))
  | .i64 v, out => .ok (out ++ encodeString (toString v.toInt))
  | .i128 v, out => .ok (out ++ encodeString (toString v))
  | .u64 v, out => .ok (out ++ encodeString (toString v.toNat))
  | .u128 v, out => .ok (out ++ encodeString (toString v))
  | .unitVariant _ variant, out => .ok (out ++ encodeString variant)
  | .newtypeStruct _ value, out => MapKeySerializer.serialize value out
  | _, _ => fail keyMustBeAString

inductive ContainerKind where
  | array
  | object
  deriving DecidableEq, Repr

/-- `ContainerBuilder`: the parent's buffer, the children buffered so far, and how
many elements (pairs, for an object) they hold. -/
structure ContainerBuilder where
  out : List UInt8
  buffer : List UInt8
  count : Nat
  kind : ContainerKind
  variant : Option String
  numberToken : Bool

namespace ContainerBuilder

def new (out : List UInt8) (kind : ContainerKind) : ContainerBuilder :=
  ⟨out, [], 0, kind, Option.none, false⟩

def newVariant (out : List UInt8) (kind : ContainerKind) (variant : String) : ContainerBuilder :=
  ⟨out, [], 0, kind, Option.some variant, false⟩

def newNumberToken (out : List UInt8) : ContainerBuilder := ⟨out, [], 0, .object, Option.none, true⟩

/-- `push_element`: the value is serialized onto the buffer, and counts. -/
def pushElement (b : ContainerBuilder) (element : List UInt8 → Write (List UInt8)) :
    Write ContainerBuilder := do
  let buffer ← element b.buffer
  pure { b with buffer := buffer, count := b.count + 1 }

/-- `push_key`: the key is serialized onto the buffer, and does not count. -/
def pushKey (b : ContainerBuilder) (key : List UInt8 → Write (List UInt8)) :
    Write ContainerBuilder := do
  let buffer ← key b.buffer
  pure { b with buffer := buffer }

def pushFieldName (b : ContainerBuilder) (key : String) : ContainerBuilder :=
  { b with buffer := b.buffer ++ encodeString key }

/-- `finish`: frame the buffer onto the parent, inside `{ variant: ... }` for a
variant; a number token has already written its number. -/
def finish (b : ContainerBuilder) : Write (List UInt8) :=
  if b.numberToken then .ok b.out
  else
    let markers := match b.kind with
      | .array => arrayLcMarkers
      | .object => objectLcMarkers
    match b.variant with
    | Option.none => .ok (b.out ++ encodeContainer markers b.count b.buffer)
    | Option.some variant =>
        let inner := encodeContainer markers b.count b.buffer
        .ok (b.out ++ encodeContainer objectLcMarkers 1 (encodeString variant ++ inner))

end ContainerBuilder

namespace BinarySerializer

section

variable (numberFromStr : String → Option Number)

/-- `serialize_u64`, also the target of `serialize_u8`-`serialize_u32`. -/
def serializeU64 (v : UInt64) (out : List UInt8) : Write (List UInt8) := .ok (out ++ encodeU64 v)

mutual

/-- `impl Serializer for BinarySerializer`, writing one value after `out`. -/
def serialize : SerdeData → List UInt8 → Write (List UInt8)
  | .bool v, out => .ok (out ++ [if v then Markers.true else Markers.false])
  | .i64 v, out => .ok (out ++ encodeI64 v)
  | .i128 v, out =>
      -- `i64::try_from`: in range exactly when the value fits 64 signed bits
      if -2 ^ 63 ≤ v ∧ v < 2 ^ 63 then .ok (out ++ encodeI64 (Int64.ofInt v))
      else fail (.custom ("i128 value " ++ toString v ++
        " out of range for Cosmos binary JSON (max i64)"))
  | .u64 v, out => serializeU64 v out
  | .u128 v, out =>
      if v < 2 ^ 64 then serializeU64 (UInt64.ofNat v) out
      else fail (.custom ("u128 value " ++ toString v ++
        " out of range for Cosmos binary JSON (max u64)"))
  | .f32 v, out => .ok (out ++ encodeF64 v.toF64)
  | .f64 v, out => .ok (out ++ encodeF64 v)
  | .char v, out => .ok (out ++ encodeString (String.singleton v))
  | .str v, out => .ok (out ++ encodeString v)
  | .bytes v, out => do
      -- an array of the byte values, as serde_json writes a byte slice
      let b ← v.foldlM (fun b byte => b.pushElement (serializeU64 byte.toUInt64))
        (ContainerBuilder.new out .array)
      b.finish
  | .none, out => .ok (out ++ [Markers.null])
  | .some value, out => serialize value out
  | .unit, out => .ok (out ++ [Markers.null])
  | .unitStruct _, out => .ok (out ++ [Markers.null])
  | .unitVariant _ variant, out => .ok (out ++ encodeString variant)
  | .newtypeStruct _ value, out => serialize value out
  | .newtypeVariant _ variant value, out => do
      let body ← serialize value (encodeString variant)
      pure (out ++ encodeContainer objectLcMarkers 1 body)
  | .seq elements, out => do
      let b ← serializeElements elements (ContainerBuilder.new out .array)
      b.finish
  | .tuple elements, out => do
      let b ← serializeElements elements (ContainerBuilder.new out .array)
      b.finish
  | .tupleStruct _ fields, out => do
      let b ← serializeElements fields (ContainerBuilder.new out .array)
      b.finish
  | .tupleVariant _ variant fields, out => do
      let b ← serializeElements fields (ContainerBuilder.newVariant out .array variant)
      b.finish
  | .map entries, out => do
      let b ← serializeEntries entries (ContainerBuilder.new out .object)
      b.finish
  | .struct name fields, out =>
      if name = rawValueToken then
        fail (.custom "serde_json RawValue is not supported by the Cosmos binary JSON serializer")
      else do
        let b := if name = numberToken then ContainerBuilder.newNumberToken out
          else ContainerBuilder.new out .object
        let b ← serializeStructFields fields b
        b.finish
  | .structVariant _ variant fields, out => do
      let b ← serializeVariantFields fields (ContainerBuilder.newVariant out .object variant)
      b.finish

/-- `serialize_element` (and `serialize_field` of tuples) on each element in turn. -/
def serializeElements : List SerdeData → ContainerBuilder → Write ContainerBuilder
  | [], b => .ok b
  | element :: rest, b => do
      let b ← b.pushElement (serialize element)
      serializeElements rest b

/-- `serialize_entry` (`serialize_key`, then `serialize_value`) on each entry in turn. -/
def serializeEntries : List (SerdeData × SerdeData) → ContainerBuilder → Write ContainerBuilder
  | [], b => .ok b
  | (key, value) :: rest, b => do
      let b ← b.pushKey (MapKeySerializer.serialize key)
      let b ← b.pushElement (serialize value)
      serializeEntries rest b

/-- `SerializeStruct::serialize_field` on each field in turn; a number token's field
is its number, written straight to the parent. -/
def serializeStructFields : List (String × SerdeData) → ContainerBuilder →
    Write ContainerBuilder
  | [], b => .ok b
  | (key, value) :: rest, b => do
      let b ← if b.numberToken then do
          let s ← StrCaptureSerializer.serialize value
          let out ← encodeNumberStr numberFromStr s b.out
          pure { b with out := out }
        else (b.pushFieldName key).pushElement (serialize value)
      serializeStructFields rest b

/-- `SerializeStructVariant::serialize_field` on each field in turn. -/
def serializeVariantFields : List (String × SerdeData) → ContainerBuilder →
    Write ContainerBuilder
  | [], b => .ok b
  | (key, value) :: rest, b => do
      let b ← (b.pushFieldName key).pushElement (serialize value)
      serializeVariantFields rest b

end

end

end BinarySerializer

/-- `to_vec`: the preamble, then the value. -/
def toVec (numberFromStr : String → Option Number) (value : SerdeData) : Write (List UInt8) :=
  BinarySerializer.serialize numberFromStr value [Markers.preamble]

end CosmosDriver.BinaryJson
