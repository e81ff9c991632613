import AzureSdk.Cosmos.BinaryJson.Serializer

/-!
# The native serializer writes what the encoder writes

serde_json's `impl Serialize for Value` (and `for Number`): `null` is
`serialize_unit`, a non-negative integer `serialize_u64`, a negative one
`serialize_i64`, a float `serialize_f64`, an array `serialize_seq` with one
`serialize_element` per item, and an object `serialize_map` with one
`serialize_entry` per entry in map order, its key through `String`'s
`serialize_str`. On that tree of calls `to_vec` produces `encode`'s bytes, whatever
the arbitrary-precision parser is.
-/

namespace CosmosDriver.BinaryJson

open Outcome

set_option autoImplicit false

def Number.toSerde : Number → SerdeData
  | .posInt u => .u64 u
  | .negInt i _ => .i64 i
  | .float f _ => .f64 f

mutual

def Value.toSerde : Value → SerdeData
  | .null => .unit
  | .bool b => .bool b
  | .number n => n.toSerde
  | .string s => .str s
  | .array items => .seq (Value.itemsToSerde items)
  | .object entries => .map (Value.entriesToSerde entries)

def Value.itemsToSerde : List Value → List SerdeData
  | [] => []
  | item :: rest => item.toSerde :: Value.itemsToSerde rest

def Value.entriesToSerde : List (String × Value) → List (SerdeData × SerdeData)
  | [] => []
  | (key, value) :: rest => (.str key, value.toSerde) :: Value.entriesToSerde rest

end

namespace BinarySerializer

section

variable (numberFromStr : String → Option Number)

theorem serialize_number (n : Number) (out : List UInt8) :
    serialize numberFromStr n.toSerde out = .ok (out ++ encodeNumber n) := by
  cases n with
  | posInt u => simp [Number.toSerde, serialize, serializeU64, encodeNumber_posInt]
  | negInt i negative => simp [Number.toSerde, serialize, encodeNumber_negInt]
  | float f finite => simp [Number.toSerde, serialize, encodeNumber_float]

mutual

theorem serialize_toSerde (v : Value) (out : List UInt8) :
    serialize numberFromStr v.toSerde out = .ok (out ++ encodeValue v) := by
  match v with
  | .null => simp [Value.toSerde, serialize, encodeValue]
  | .bool false => simp [Value.toSerde, serialize, encodeValue]
  | .bool true => simp [Value.toSerde, serialize, encodeValue]
  | .number n => simpa [Value.toSerde, encodeValue] using serialize_number numberFromStr n out
  | .string s => simp [Value.toSerde, serialize, encodeValue]
  | .array items =>
      -- the builder buffers the items' bytes and counts them, then frames them once
      have elements := serializeElements_itemsToSerde items (ContainerBuilder.new out .array)
      simp only [Value.toSerde, serialize, elements, ok_bind, encodeValue]
      simp [ContainerBuilder.finish, ContainerBuilder.new]
  | .object entries =>
      have entriesRead := serializeEntries_entriesToSerde entries (ContainerBuilder.new out .object)
      simp only [Value.toSerde, serialize, entriesRead, ok_bind, encodeValue]
      simp [ContainerBuilder.finish, ContainerBuilder.new]
termination_by structural v

theorem serializeElements_itemsToSerde (items : List Value) (b : ContainerBuilder) :
    serializeElements numberFromStr (Value.itemsToSerde items) b =
      .ok { b with buffer := b.buffer ++ encodeItems items, count := b.count + items.length } := by
  match items with
  | [] => simp [Value.itemsToSerde, serializeElements, encodeItems]
  | item :: rest =>
      have first := serialize_toSerde item b.buffer
      have others := serializeElements_itemsToSerde rest
        { b with buffer := b.buffer ++ encodeValue item, count := b.count + 1 }
      simp only [Value.itemsToSerde, serializeElements, ContainerBuilder.pushElement, first,
        ok_bind, pure_eq_ok, others, encodeItems, List.append_assoc, List.length_cons]
      simp only [Nat.add_assoc, Nat.add_comm 1 rest.length]
termination_by structural items

theorem serializeEntries_entriesToSerde (entries : List (String × Value)) (b : ContainerBuilder) :
    serializeEntries numberFromStr (Value.entriesToSerde entries) b =
      .ok { b with
        buffer := b.buffer ++ encodeEntries entries, count := b.count + entries.length } := by
  match entries with
  | [] => simp [Value.entriesToSerde, serializeEntries, encodeEntries]
  | (key, value) :: rest =>
      have keyWritten : MapKeySerializer.serialize (.str key) b.buffer =
          .ok (b.buffer ++ encodeString key) := rfl
      have valueWritten := serialize_toSerde value (b.buffer ++ encodeString key)
      have others := serializeEntries_entriesToSerde rest
        { b with buffer := b.buffer ++ (encodeString key ++ encodeValue value), count := b.count + 1 }
      simp only [Value.entriesToSerde, serializeEntries, ContainerBuilder.pushKey, keyWritten,
        ContainerBuilder.pushElement, valueWritten, ok_bind, pure_eq_ok, others, encodeEntries,
        List.append_assoc, List.length_cons]
      simp only [Nat.add_assoc, Nat.add_comm 1 rest.length]
termination_by structural entries

end

end

end BinarySerializer

theorem toVec_toSerde (numberFromStr : String → Option Number) (v : Value) :
    toVec numberFromStr v.toSerde = .ok (encode v) := by
  simp [toVec, BinarySerializer.serialize_toSerde, encode]

end CosmosDriver.BinaryJson
