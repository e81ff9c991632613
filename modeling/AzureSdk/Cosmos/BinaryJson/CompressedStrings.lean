import Mathlib
import AzureSdk.Cosmos.BinaryJson.RoundTrip

/-!
# Compressed strings, bit by bit

A packed string of `n` characters of `bits` bits is the little-endian bit stream of its
payload cut into `n` fields, each offset by a base character; a table string is its
payload's nibbles, low before high, looked up in a sixteen-entry table, the last high
nibble of an odd-length string being zero padding. The decoder reads the packed fields
through a 16-bit window at the field's first byte and the table string a byte at a time;
both read exactly the payload that the definitions below take.
-/

namespace CosmosDriver.BinaryJson

open Outcome

set_option autoImplicit false

def bitField (payload : List UInt8) (offset width : Nat) : Nat :=
  LittleEndian.value payload / 2 ^ offset % 2 ^ width

/-- The `n` characters a packed payload stands for: the field at bit `i * width`, plus `base`
modulo 256. -/
def packedSpec (payload : List UInt8) (width : Nat) (base : UInt8) (n : Nat) : List Char :=
  (List.range n).map fun i => Char.ofUInt8 (UInt8.ofNat (bitField payload (i * width) width) + base)

theorem lowNibble_lt (byte : UInt8) : byte.toNat % 16 < 16 := Nat.mod_lt _ (by decide)

theorem highNibble_lt (byte : UInt8) : byte.toNat / 16 < 16 := Nat.div_lt_of_lt_mul (by simpa using byte.toNat_lt)

def nibbles (bytes : List UInt8) : List (Fin 16) :=
  bytes.flatMap fun byte => [⟨byte.toNat % 16, lowNibble_lt byte⟩, ⟨byte.toNat / 16, highNibble_lt byte⟩]

def tableSpec (table : CompressionTable) (payload : List UInt8) (n : Nat) : List Char :=
  ((nibbles payload).take n).map fun nibble => Char.ofUInt8 (table.chars.get nibble)

def paddingSet (payload : List UInt8) : Bool :=
  match payload.getLast? with
  | some last => last.toNat / 16 != 0
  | none => false

theorem paddingSet_cons_cons (first second : UInt8) (rest : List UInt8) :
    paddingSet (first :: second :: rest) = paddingSet (second :: rest) := by
  simp [paddingSet, List.getLast?_cons_cons]

namespace Reader

theorem packedChars_eq {payload : List UInt8} {width : Nat} (narrow : 0 < width ∧ width ≤ 8) (base : UInt8) :
    ∀ remaining bitPos out, bitPos + remaining * width ≤ 8 * payload.length →
      packedChars payload width base remaining bitPos out =
        .ok (out ++ (List.range remaining).map fun i =>
          Char.ofUInt8 (UInt8.ofNat (bitField payload (bitPos + i * width) width) + base)) := by
  intro remaining
  induction remaining with
  | zero =>
      intro bitPos out _
      simp [packedChars]
  | succ remaining ih =>
      intro bitPos out inside
      have first : bitPos / 8 < payload.length := by
        have : bitPos < 8 * payload.length := by nlinarith
        omega
      have found : payload[bitPos / 8]? = some payload[bitPos / 8] := List.getElem?_eq_getElem first
      -- the 16-bit window holds the whole field
      have window := LittleEndian.field_window payload narrow.2 found
      rw [packedChars, found]
      dsimp only
      rw [← window, ih (bitPos + width) _ (by nlinarith), List.range_succ_eq_map, List.map_cons, List.map_map]
      simp only [bitField, Nat.zero_mul, Nat.add_zero, List.append_assoc, List.singleton_append]
      congr 3
      refine List.map_congr_left fun i _ => ?_
      simp only [Function.comp, show bitPos + (i + 1) * width = bitPos + width + i * width by ring]

theorem readPackedString_spec {r : Reader} {bits n : Nat} (narrow : 0 < bits ∧ bits ≤ 8) (hasBase : Bool)
    {lengthWidth : FieldWidth} {base : UInt8} {payload : List UInt8} (noBase : hasBase = false → base = 0)
    (fits : n < 2 ^ (8 * lengthWidth.bytes))
    (holds : r.HoldsAt (fieldBytes lengthWidth n ++ (if hasBase then [base] else []) ++ payload))
    (exact : payload.length = (n * bits + 7) / 8) (small : r.buf.length ≤ usizeMax) :
    readPackedString r bits hasBase lengthWidth =
      .ok (String.ofList (packedSpec payload bits base n),
        r.seek (r.pos + lengthWidth.bytes + (if hasBase then 1 else 0) + payload.length)) := by
  obtain ⟨prefixed, atPayload⟩ := holdsAt_append holds
  obtain ⟨atLength, atBase⟩ := holdsAt_append prefixed
  rw [length_fieldBytes] at atBase
  have widthBound : lengthWidth.bytes ≤ 4 := by cases lengthWidth <;> decide
  have noOverflow : n * bits ≤ usizeMax := by
    have : 2 ^ (8 * lengthWidth.bytes) ≤ 2 ^ 32 := Nat.pow_le_pow_right (by decide) (by omega)
    have : n * bits ≤ 2 ^ 32 * 8 := Nat.mul_le_mul (by omega) narrow.2
    simp only [usizeMax]
    omega
  have unpacked := @packedChars_eq payload bits narrow base n 0 [] (by omega)
  simp only [Nat.zero_add, List.nil_append] at unpacked
  have payloadRead := readBytes_of_holdsAt atPayload small
  simp only [List.length_append, length_fieldBytes, seek_pos] at payloadRead
  rw [exact] at payloadRead
  cases hasBase with
  | true =>
      have baseRead := readU8_of_holdsAt (atBase : (r.seek (r.pos + lengthWidth.bytes)).HoldsAt ([base] ++ []))
      simp only [if_true, List.length_singleton] at payloadRead
      simp only [readPackedString, readLen_of_holdsAt atLength small fits, ok_bind, if_true, baseRead, seek_pos,
        checkedMul_of_le noOverflow, Nat.add_assoc, payloadRead, unpacked, pure_eq_ok, seek_seek, packedSpec, exact]
  | false =>
      cases noBase rfl
      simp only [Bool.false_eq_true, if_false, List.length_nil, Nat.add_zero] at payloadRead
      simp only [readPackedString, readLen_of_holdsAt atLength small fits, ok_bind, Bool.false_eq_true, if_false,
        pure_eq_ok, checkedMul_of_le noOverflow, payloadRead, unpacked, seek_seek, packedSpec, exact, Nat.add_zero]

theorem tableChars_eq (table : CompressionTable) (len byteCount : Nat) :
    ∀ (bytes : List UInt8) (index : Nat) (out : List Char), byteCount = index + bytes.length →
      tableChars table len byteCount index bytes out =
        if len % 2 = 1 ∧ paddingSet bytes = true then
          fail (.invalidLength "compressed string has non-zero padding nibble")
        else .ok (out ++ ((nibbles bytes).take (2 * bytes.length - len % 2)).map fun nibble =>
          Char.ofUInt8 (table.chars.get nibble)) := by
  intro bytes
  induction bytes with
  | nil =>
      intro index out _
      simp [tableChars, paddingSet]
  | cons byte rest ih =>
      intro index out counted
      simp only [List.length_cons] at counted
      have last : (checkedSub byteCount 1 : Read Nat) = .ok (byteCount - 1) := checkedSub_of_le (by omega)
      cases rest with
      | nil =>
          -- the last byte: an odd length ends on its low nibble
          have atLast : index = byteCount - 1 := by
            simp only [List.length_nil] at counted
            omega
          by_cases odd : len % 2 = 1
          · simp [tableChars, last, atLast, odd, paddingSet, nibbles]
          · have even : len % 2 = 0 := by omega
            simp [tableChars, last, atLast, even, nibbles]
      | cons next rest =>
          simp only [List.length_cons] at counted
          have notLast : ¬ (index = byteCount - 1) := by omega
          have shorter : 2 * (rest.length + 2) - len % 2 = 2 * (rest.length + 1) - len % 2 + 2 := by omega
          rw [tableChars, last]
          simp only [ok_bind, notLast, false_and, if_false]
          rw [ih (index + 1) _ (by simp only [List.length_cons]; omega), paddingSet_cons_cons]
          split_ifs
          · rfl
          · simp only [List.length_cons, shorter, nibbles, List.flatMap_cons, List.cons_append, List.nil_append,
              List.take_succ_cons, List.map_cons, List.append_assoc]

theorem readTableString_spec {r : Reader} (table : CompressionTable) {len : UInt8} {payload : List UInt8}
    (holds : r.HoldsAt (len :: payload)) (exact : payload.length = (len.toNat + 1) / 2)
    (small : r.buf.length ≤ usizeMax) :
    readTableString r table =
      if len.toNat % 2 = 1 ∧ paddingSet payload = true then
        fail (.invalidLength "compressed string has non-zero padding nibble")
      else .ok (String.ofList (tableSpec table payload len.toNat), r.seek (r.pos + 1 + payload.length)) := by
  have payloadRead := readBytes_of_holdsAt (holdsAt_tail holds) small
  rw [exact] at payloadRead
  have loop := tableChars_eq table len.toNat ((len.toNat + 1) / 2) payload 0 [] (by omega)
  have whole : 2 * payload.length - len.toNat % 2 = len.toNat := by omega
  rw [whole, List.nil_append] at loop
  simp only [readTableString, readU8_of_holdsAt holds, ok_bind, payloadRead, loop, seek_pos]
  split_ifs
  · rfl
  · simp [tableSpec, exact]

end Reader

example : packedSpec [0x10] 4 0x61 2 = ['a', 'b'] := by decide

example : tableSpec .lowercaseHex [0xBA, 0x0C] 3 = ['a', 'b', 'c'] := by decide

theorem compressed_strings_decode_bitwise :
    (∀ (r : Reader) (bits n : Nat) (hasBase : Bool) (lengthWidth : FieldWidth) (base : UInt8)
        (payload : List UInt8), 0 < bits ∧ bits ≤ 8 → (hasBase = false → base = 0) →
        n < 2 ^ (8 * lengthWidth.bytes) →
        r.HoldsAt (fieldBytes lengthWidth n ++ (if hasBase then [base] else []) ++ payload) →
        payload.length = (n * bits + 7) / 8 → r.buf.length ≤ usizeMax →
        readPackedString r bits hasBase lengthWidth =
          .ok (String.ofList (packedSpec payload bits base n),
            r.seek (r.pos + lengthWidth.bytes + (if hasBase then 1 else 0) + payload.length))) ∧
      ∀ (r : Reader) (table : CompressionTable) (len : UInt8) (payload : List UInt8),
        r.HoldsAt (len :: payload) → payload.length = (len.toNat + 1) / 2 → r.buf.length ≤ usizeMax →
        readTableString r table =
          if len.toNat % 2 = 1 ∧ paddingSet payload = true then
            fail (.invalidLength "compressed string has non-zero padding nibble")
          else .ok (String.ofList (tableSpec table payload len.toNat), r.seek (r.pos + 1 + payload.length)) :=
  ⟨fun _ _ _ hasBase _ _ _ narrow noBase fits holds exact small =>
      Reader.readPackedString_spec narrow hasBase noBase fits holds exact small,
    fun _ table _ _ holds exact small => Reader.readTableString_spec table holds exact small⟩

theorem compressed_strings_decode_ab_abc :
    readPackedString (Reader.new [2, 0x61, 0x10] 0) 4 true .u8 =
        .ok (String.ofList (packedSpec [0x10] 4 0x61 2), (Reader.new [2, 0x61, 0x10] 0).seek 3) ∧
      readTableString (Reader.new [3, 0xBA, 0x0C] 0) .lowercaseHex =
        .ok (String.ofList (tableSpec .lowercaseHex [0xBA, 0x0C] 3), (Reader.new [3, 0xBA, 0x0C] 0).seek 3) := by
  have packed := compressed_strings_decode_bitwise.1 (Reader.new [2, 0x61, 0x10] 0) 4 2 true .u8 0x61 [0x10]
    (by decide) (by simp) (by decide) (by simp [Reader.HoldsAt, Reader.new, fieldBytes_u8]) rfl (by decide)
  have table := compressed_strings_decode_bitwise.2 (Reader.new [3, 0xBA, 0x0C] 0) .lowercaseHex 3 [0xBA, 0x0C]
    (by simp [Reader.HoldsAt, Reader.new]) rfl (by decide)
  refine ⟨packed, ?_⟩
  rw [table, if_neg (by decide)]
  rfl

end CosmosDriver.BinaryJson
