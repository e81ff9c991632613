import AzureSdk.Cosmos.BinaryJson.Reader
import AzureSdk.Cosmos.BinaryJson.Writer

/-!
# Encode, then decode

`decode (encode v) = ok v` for every value whose nodes sit at most 256 containers
deep, whose strings and container payloads are shorter than `2 ^ 32` bytes, and
whose maps have strictly increasing keys (a `BTreeMap` cannot hold anything else).

The proof follows the bytes. `Reader.HoldsAt r bytes` says the buffer holds
`bytes` at the cursor; one lemma per reader primitive says what it returns on held
bytes, and one lemma per encoder form says the decoder reads it back. The
recursion over values, items and entries is a mutual structural induction whose
fuel hypothesis is the one `decodeFuel` meets: three units for every remaining
byte.
-/

namespace CosmosDriver.BinaryJson

open Outcome

set_option autoImplicit false

mutual

def Fits : Nat → Value → Prop
  | depth, .string s => depth ≤ maxDepth ∧ (utf8Bytes s).length < 2 ^ 32
  | depth, .array items =>
      depth ≤ maxDepth ∧ (encodeItems items).length < 2 ^ 32 ∧ ItemsFit (depth + 1) items
  | depth, .object entries =>
      depth ≤ maxDepth ∧ SortedMap.Sorted entries ∧ (encodeEntries entries).length < 2 ^ 32 ∧
        EntriesFit (depth + 1) entries
  | depth, _ => depth ≤ maxDepth

def ItemsFit : Nat → List Value → Prop
  | _, [] => True
  | depth, item :: rest => Fits depth item ∧ ItemsFit depth rest

def EntriesFit : Nat → List (String × Value) → Prop
  | _, [] => True
  | depth, (key, value) :: rest =>
      Fits depth (.string key) ∧ Fits depth value ∧ EntriesFit depth rest

end

/-! ## The reader on held bytes -/

def fieldBytes (width : FieldWidth) (n : Nat) : List UInt8 := LittleEndian.bytes width.bytes n

@[simp] theorem length_fieldBytes (width : FieldWidth) (n : Nat) :
    (fieldBytes width n).length = width.bytes := by
  simp [fieldBytes]

theorem FieldWidth.bytes_pos (width : FieldWidth) : 0 < width.bytes := by
  cases width <;> decide

theorem fieldBytes_u8 (n : Nat) : fieldBytes .u8 n = [UInt8.ofNat n] := by
  simp [fieldBytes, FieldWidth.bytes, LittleEndian.bytes, UInt8.ofNat_mod_size']

namespace Reader

def HoldsAt (r : Reader) (bytes : List UInt8) : Prop :=
  r.pos ≤ r.buf.length ∧ bytes <+: r.buf.drop r.pos

@[simp] theorem seek_self (r : Reader) : r.seek r.pos = r := rfl

@[simp] theorem seek_seek (r : Reader) (first second : Nat) :
    (r.seek first).seek second = r.seek second := rfl

@[simp] theorem seek_inj (r : Reader) {first second : Nat} :
    r.seek first = r.seek second ↔ first = second :=
  ⟨fun same => congrArg Reader.pos same, fun same => same ▸ rfl⟩

theorem holdsAt_end {r : Reader} {bytes : List UInt8} (holds : r.HoldsAt bytes) :
    r.pos + bytes.length ≤ r.buf.length := by
  obtain ⟨start, rest, split⟩ := holds
  have lengths := congrArg List.length split
  simp only [List.length_append, List.length_drop] at lengths
  omega

theorem holdsAt_append {r : Reader} {front back : List UInt8} (holds : r.HoldsAt (front ++ back)) :
    r.HoldsAt front ∧ (r.seek (r.pos + front.length)).HoldsAt back := by
  have inside := holdsAt_end holds
  obtain ⟨start, rest, split⟩ := holds
  simp only [List.length_append] at inside
  constructor
  · exact ⟨start, back ++ rest, by rw [← split, List.append_assoc]⟩
  · refine ⟨by simp only [seek_buf, seek_pos]; omega, rest, ?_⟩
    simp only [seek_buf, seek_pos, ← List.drop_drop, ← split, List.append_assoc,
      List.drop_left]

theorem holdsAt_tail {r : Reader} {byte : UInt8} {rest : List UInt8}
    (holds : r.HoldsAt (byte :: rest)) : (r.seek (r.pos + 1)).HoldsAt rest :=
  (holdsAt_append (show r.HoldsAt ([byte] ++ rest) from holds)).2

theorem getElem_of_holdsAt {r : Reader} {byte : UInt8} {rest : List UInt8}
    (holds : r.HoldsAt (byte :: rest)) : r.buf[r.pos]? = some byte := by
  obtain ⟨_, tail, split⟩ := holds
  have first := congrArg List.head? split
  rw [List.head?_drop] at first
  simpa using first.symm

theorem readU8_of_holdsAt {r : Reader} {byte : UInt8} {rest : List UInt8}
    (holds : r.HoldsAt (byte :: rest)) : r.readU8 = .ok (byte, r.seek (r.pos + 1)) := by
  simp only [readU8, getElem_of_holdsAt holds]

theorem peekU8_of_holdsAt {r : Reader} {byte : UInt8} {rest : List UInt8}
    (holds : r.HoldsAt (byte :: rest)) : r.peekU8 = .ok byte := by
  simp only [peekU8, getElem_of_holdsAt holds]

theorem readBytes_of_holdsAt {r : Reader} {bytes : List UInt8} (holds : r.HoldsAt bytes)
    (small : r.buf.length ≤ usizeMax) :
    r.readBytes bytes.length = .ok (bytes, r.seek (r.pos + bytes.length)) := by
  have inside := holdsAt_end holds
  obtain ⟨_, tail, split⟩ := holds
  have taken : (r.buf.drop r.pos).take bytes.length = bytes := by
    rw [← split, List.take_left]
  have noOverflow : ¬ usizeMax < r.pos + bytes.length := by omega
  simp only [readBytes, if_neg noOverflow, if_pos inside, taken]

theorem readLe_of_holdsAt {r : Reader} {width n : Nat} (holds : r.HoldsAt (LittleEndian.bytes width n))
    (small : r.buf.length ≤ usizeMax) (fits : n < 2 ^ (8 * width)) :
    r.readLe width = .ok (n, r.seek (r.pos + width)) := by
  have read := readBytes_of_holdsAt holds small
  rw [LittleEndian.length_bytes] at read
  simp only [readLe, read, ok_bind, LittleEndian.value_bytes_of_lt fits, pure_eq_ok]

theorem readString_of_holdsAt {r : Reader} {s : String} (offset : Nat) (holds : r.HoldsAt (utf8Bytes s))
    (small : r.buf.length ≤ usizeMax) :
    r.readString (utf8Bytes s).length offset = .ok (s, r.seek (r.pos + (utf8Bytes s).length)) := by
  simp only [readString, readBytes_of_holdsAt holds small, ok_bind, fromUtf8_utf8Bytes, pure_eq_ok]

theorem readLen_of_holdsAt {r : Reader} {width : FieldWidth} {n : Nat}
    (holds : r.HoldsAt (fieldBytes width n)) (small : r.buf.length ≤ usizeMax)
    (fits : n < 2 ^ (8 * width.bytes)) : r.readLen width = .ok (n, r.seek (r.pos + width.bytes)) := by
  cases width with
  | u8 =>
      have back : (UInt8.ofNat n).toNat = n := UInt8.toNat_ofNat_of_lt' fits
      rw [fieldBytes_u8] at holds
      simp only [readLen, readU8_of_holdsAt holds, ok_bind, back, pure_eq_ok, FieldWidth.bytes]
  | u16 =>
      have word : r.HoldsAt (LittleEndian.bytes 2 n) := holds
      have back : (UInt16.ofNat n).toNat = n := UInt16.toNat_ofNat_of_lt' fits
      simp only [readLen, readU16Le, readLe_of_holdsAt word small fits, ok_bind, back, pure_eq_ok,
        FieldWidth.bytes]
  | u32 =>
      have word : r.HoldsAt (LittleEndian.bytes 4 n) := holds
      have back : (UInt32.ofNat n).toNat = n := UInt32.toNat_ofNat_of_lt' fits
      simp only [readLen, readU32Le, readLe_of_holdsAt word small fits, ok_bind, back, pure_eq_ok,
        FieldWidth.bytes]

theorem boundedEnd_of_holdsAt {r : Reader} {payload : List UInt8} (holds : r.HoldsAt payload)
    (small : r.buf.length ≤ usizeMax) : r.boundedEnd payload.length = .ok (r.pos + payload.length) := by
  have inside := holdsAt_end holds
  have noOverflow : ¬ usizeMax < r.pos + payload.length := by omega
  have noShort : ¬ r.buf.length < r.pos + payload.length := by omega
  simp only [boundedEnd, if_neg noOverflow, if_neg noShort]

theorem framedHeader_of_holdsAt {r : Reader} {width : FieldWidth} {count : Nat}
    {payload : List UInt8}
    (holds : r.HoldsAt (fieldBytes width payload.length ++ fieldBytes width count ++ payload))
    (small : r.buf.length ≤ usizeMax) (lenFits : payload.length < 2 ^ (8 * width.bytes))
    (countFits : count < 2 ^ (8 * width.bytes)) :
    r.readLen width = .ok (payload.length, r.seek (r.pos + width.bytes)) ∧
      (r.seek (r.pos + width.bytes)).readLen width =
        .ok (count, r.seek (r.pos + width.bytes + width.bytes)) ∧
      (r.seek (r.pos + width.bytes + width.bytes)).boundedEnd payload.length =
        .ok (r.pos + width.bytes + width.bytes + payload.length) := by
  obtain ⟨fields, afterFields⟩ := holdsAt_append holds
  obtain ⟨lenField, countField⟩ := holdsAt_append fields
  simp only [length_fieldBytes, List.length_append, ← Nat.add_assoc]
    at countField afterFields
  exact ⟨readLen_of_holdsAt lenField small lenFits, readLen_of_holdsAt countField small countFits,
    boundedEnd_of_holdsAt afterFields small⟩

end Reader

/-! ## What the encoder writes -/

def containerWidth (len count : Nat) : FieldWidth :=
  if len ≤ 255 ∧ count ≤ 255 then .u8 else if len ≤ 65535 ∧ count ≤ 65535 then .u16 else .u32

/-- The `LC` marker of a container kind at a width. -/
def LcMarkers.atWidth (markers : LcMarkers) : FieldWidth → UInt8
  | .u8 => markers.lc1
  | .u16 => markers.lc2
  | .u32 => markers.lc4

theorem encodeContainer_eq (markers : LcMarkers) (count : Nat) (body : List UInt8) :
    encodeContainer markers count body =
      markers.atWidth (containerWidth body.length count) ::
        (fieldBytes (containerWidth body.length count) body.length ++
          fieldBytes (containerWidth body.length count) count ++ body) := by
  simp only [encodeContainer, containerWidth]
  split_ifs
  · simp [LcMarkers.atWidth, fieldBytes_u8]
  · simp [LcMarkers.atWidth, fieldBytes, FieldWidth.bytes]
  · simp [LcMarkers.atWidth, fieldBytes, FieldWidth.bytes]

theorem containerWidth_fits {len count : Nat} (short : len < 2 ^ 32) (fewer : count ≤ len) :
    len < 2 ^ (8 * (containerWidth len count).bytes) ∧
      count < 2 ^ (8 * (containerWidth len count).bytes) := by
  unfold containerWidth
  split_ifs <;> simp only [FieldWidth.bytes] <;> omega

theorem ofByte_arrayLc (width : FieldWidth) :
    TypeMarker.ofByte (arrayLcMarkers.atWidth width) = .arrayFramed width true := by
  cases width <;> decide

theorem ofByte_objectLc (width : FieldWidth) :
    TypeMarker.ofByte (objectLcMarkers.atWidth width) = .objectFramed width true := by
  cases width <;> decide

theorem ofByte_encodedStringLength {len : Nat} (short : len < 64) :
    TypeMarker.ofByte (Markers.encodedStringLengthMin ||| UInt8.ofNat len) =
      .encodedLengthString len := by
  have table : ∀ k : Fin 64, TypeMarker.ofByte (Markers.encodedStringLengthMin ||| UInt8.ofNat k) =
      .encodedLengthString k := by decide
  exact table ⟨len, short⟩

theorem length_encodeI64_pos (i : Int64) : 0 < (encodeI64 i).length := by
  unfold encodeI64
  split_ifs <;> simp

theorem length_encodeNumber_pos (n : Number) : 0 < (encodeNumber n).length := by
  cases n with
  | posInt u =>
      by_cases fits : u ≤ 0x7FFFFFFFFFFFFFFF
      · rw [encodeNumber_posInt_of_le fits]
        exact length_encodeI64_pos _
      · simp [encodeNumber_posInt_of_lt (UInt64.not_le.mp fits)]
  | negInt i negative =>
      rw [encodeNumber_negInt]
      exact length_encodeI64_pos i
  | float f finite => simp [encodeNumber_float, encodeF64_of_finite finite]

theorem length_encodeString_pos (s : String) : 0 < (encodeString s).length := by
  simp only [encodeString]
  split_ifs <;> simp

theorem length_encodeValue_pos (v : Value) : 0 < (encodeValue v).length := by
  cases v with
  | null => simp [encodeValue]
  | bool b => cases b <;> simp [encodeValue]
  | number n => exact length_encodeNumber_pos n
  | string s => exact length_encodeString_pos s
  | array items => simp [encodeValue, encodeContainer_eq]
  | object entries => simp [encodeValue, encodeContainer_eq]

theorem length_le_encodeItems (items : List Value) : items.length ≤ (encodeItems items).length := by
  induction items with
  | nil => simp [encodeItems]
  | cons item rest induction =>
      have itemPos := length_encodeValue_pos item
      simp only [encodeItems, List.length_cons, List.length_append]
      omega

theorem length_le_encodeEntries (entries : List (String × Value)) :
    entries.length ≤ (encodeEntries entries).length := by
  induction entries with
  | nil => simp [encodeEntries]
  | cons entry rest induction =>
      obtain ⟨key, value⟩ := entry
      have keyPos := length_encodeString_pos key
      simp only [encodeEntries, List.length_cons, List.length_append]
      omega

theorem length_encodeI64_le (i : Int64) : (encodeI64 i).length ≤ 9 := by
  unfold encodeI64
  split_ifs <;> simp

theorem length_encodeNumber_le (n : Number) : (encodeNumber n).length ≤ 9 := by
  cases n with
  | posInt u =>
      by_cases fits : u ≤ 0x7FFFFFFFFFFFFFFF
      · rw [encodeNumber_posInt_of_le fits]
        exact length_encodeI64_le _
      · simp [encodeNumber_posInt_of_lt (UInt64.not_le.mp fits)]
  | negInt i negative =>
      rw [encodeNumber_negInt]
      exact length_encodeI64_le i
  | float f finite => simp [encodeNumber_float, encodeF64_of_finite finite]

theorem length_encodeValue_le {depth : Nat} {v : Value} (fits : Fits depth v) :
    (encodeValue v).length ≤ 2 ^ 32 + 8 := by
  cases v with
  | null => simp [encodeValue]
  | bool b => cases b <;> simp [encodeValue]
  | number n =>
      have bound := length_encodeNumber_le n
      simp only [encodeValue]
      omega
  | string s =>
      simp only [Fits] at fits
      simp only [encodeValue, encodeString]
      split_ifs <;> simp <;> omega
  | array items =>
      simp only [Fits] at fits
      have wide : (containerWidth (encodeItems items).length items.length).bytes ≤ 4 := by
        unfold containerWidth
        split_ifs <;> decide
      simp only [encodeValue, encodeContainer_eq, List.length_cons, List.length_append,
        length_fieldBytes]
      omega
  | object entries =>
      simp only [Fits] at fits
      have wide : (containerWidth (encodeEntries entries).length entries.length).bytes ≤ 4 := by
        unfold containerWidth
        split_ifs <;> decide
      simp only [encodeValue, encodeContainer_eq, List.length_cons, List.length_append,
        length_fieldBytes]
      omega

/-! ## Leaves -/

/-- The forms `read_value` hands on to `read_leaf_value`. -/
def TypeMarker.IsLeaf : TypeMarker → Prop
  | .arr0 | .arr1 | .arrayFramed _ _ | .obj0 | .obj1 | .objectFramed _ _ => False
  | _ => True

theorem readValue_of_leaf {fuel depth : Nat} {r : Reader} {marker : UInt8} {rest : List UInt8}
    (holds : r.HoldsAt (marker :: rest)) (shallow : depth ≤ maxDepth)
    (leaf : (TypeMarker.ofByte marker).IsLeaf) :
    readValue (fuel + 1) r depth = readLeafValue fuel (r.seek (r.pos + 1)) marker r.pos := by
  have notDeep : ¬ maxDepth < depth := not_lt.mpr shallow
  simp only [readValue, if_neg notDeep, Reader.readU8_of_holdsAt holds, ok_bind]
  -- the six container arms contradict `leaf`; the catch-all arm is the leaf call itself
  split
  all_goals first
    | rfl
    | (rename_i form; rw [form] at leaf; exact leaf.elim)

theorem readValue_of_number {fuel depth : Nat} {r : Reader} {marker : UInt8} {rest : List UInt8}
    (holds : r.HoldsAt (marker :: rest)) (shallow : depth ≤ maxDepth)
    (form : TypeMarker.ofByte marker = .number marker) :
    readValue (fuel + 2) r depth = readNumberValue (r.seek (r.pos + 1)) marker r.pos := by
  rw [readValue_of_leaf holds shallow (by rw [form]; trivial)]
  simp only [readLeafValue, form]

theorem readNumberValue_numberInt64 (r : Reader) (offset : Nat) :
    readNumberValue r Markers.numberInt64 offset = (do
      let (n, r) ← r.readI64Le
      pure (intValue n, r)) := rfl

theorem readNumberValue_numberUint64 (r : Reader) (offset : Nat) :
    readNumberValue r Markers.numberUint64 offset = (do
      let (n, r) ← r.readU64Le
      pure (uintValue n, r)) := rfl

theorem readNumberValue_numberDouble (r : Reader) (offset : Nat) :
    readNumberValue r Markers.numberDouble offset = (do
      let (f, r) ← r.readF64Le
      let v ← doubleValue f
      pure (v, r)) := rfl

theorem intValue_of_le {u : UInt64} (fits : u ≤ 0x7FFFFFFFFFFFFFFF) :
    intValue u.toInt64 = .number (.posInt u) := by
  have notNegative : ¬ u.toInt64 < 0 := by
    rw [Int64.lt_iff_toInt_lt]
    rw [UInt64.le_iff_toNat_le] at fits
    simp [Int64.toInt, BitVec.toInt_eq_toNat_cond] at fits ⊢
    omega
  simp only [intValue, Number.ofI64, dif_neg notNegative, UInt64.toUInt64_toInt64]

theorem intValue_of_neg {i : Int64} (negative : i < 0) :
    intValue i = .number (.negInt i negative) := by
  simp only [intValue, Number.ofI64, dif_pos negative]

theorem readValue_numberInt64 {fuel depth : Nat} {r : Reader} (word : UInt64)
    (holds : r.HoldsAt (Markers.numberInt64 :: LittleEndian.bytes 8 word.toNat))
    (small : r.buf.length ≤ usizeMax) (shallow : depth ≤ maxDepth) :
    readValue (fuel + 2) r depth = .ok (intValue word.toInt64, r.seek (r.pos + 1 + 8)) := by
  have form : TypeMarker.ofByte Markers.numberInt64 = .number Markers.numberInt64 := by decide
  have read := Reader.readLe_of_holdsAt (Reader.holdsAt_tail holds) small word.toNat_lt
  simp only [readValue_of_number holds shallow form, readNumberValue_numberInt64, Reader.readI64Le,
    read, ok_bind, UInt64.ofNat_toNat, pure_eq_ok, Reader.seek_seek, Reader.seek_pos]

theorem readValue_numberUint64 {fuel depth : Nat} {r : Reader} (word : UInt64)
    (holds : r.HoldsAt (Markers.numberUint64 :: LittleEndian.bytes 8 word.toNat))
    (small : r.buf.length ≤ usizeMax) (shallow : depth ≤ maxDepth) :
    readValue (fuel + 2) r depth = .ok (.number (.posInt word), r.seek (r.pos + 1 + 8)) := by
  have form : TypeMarker.ofByte Markers.numberUint64 = .number Markers.numberUint64 := by decide
  have read := Reader.readLe_of_holdsAt (Reader.holdsAt_tail holds) small word.toNat_lt
  simp only [readValue_of_number holds shallow form, readNumberValue_numberUint64, Reader.readU64Le,
    read, ok_bind, UInt64.ofNat_toNat, pure_eq_ok, Reader.seek_seek, Reader.seek_pos, uintValue,
    Number.ofU64]

theorem readValue_numberDouble {fuel depth : Nat} {r : Reader} (f : F64) (finite : f.isFinite = true)
    (holds : r.HoldsAt (Markers.numberDouble :: f.toLeBytes))
    (small : r.buf.length ≤ usizeMax) (shallow : depth ≤ maxDepth) :
    readValue (fuel + 2) r depth = .ok (.number (.float f finite), r.seek (r.pos + 1 + 8)) := by
  have form : TypeMarker.ofByte Markers.numberDouble = .number Markers.numberDouble := by decide
  have read := Reader.readBytes_of_holdsAt (Reader.holdsAt_tail holds) small
  rw [F64.length_toLeBytes] at read
  have finiteDouble : doubleValue f = .ok (.number (.float f finite)) := by
    simp only [doubleValue, Number.fromF64, dif_pos finite]
  simp only [readValue_of_number holds shallow form, readNumberValue_numberDouble, Reader.readF64Le,
    read, ok_bind, F64.fromLeBytes_toLeBytes, finiteDouble, pure_eq_ok, Reader.seek_seek,
    Reader.seek_pos]

theorem readValue_encodeI64 {fuel depth : Nat} {r : Reader} (i : Int64)
    (holds : r.HoldsAt (encodeI64 i)) (small : r.buf.length ≤ usizeMax) (shallow : depth ≤ maxDepth) :
    readValue (fuel + 2) r depth = .ok (intValue i, r.seek (r.pos + (encodeI64 i).length)) := by
  unfold encodeI64 at holds ⊢
  split_ifs at holds ⊢ with literal
  · -- a literal int: the marker byte is the value
    obtain ⟨nonneg, below⟩ := literal
    rw [Int64.lt_iff_toInt_lt, Int64.le_iff_toInt_le] at *
    have literalByte : i.toUInt64.toUInt8 < 0x20 := by
      rw [UInt8.lt_iff_toNat_lt]
      simp [Int64.toInt, BitVec.toInt_eq_toNat_cond, Int64.toNat_toBitVec] at *
      omega
    have back : Int64.ofNat i.toUInt64.toUInt8.toNat = i := by
      apply Int64.toInt_inj.mp
      simp [Int64.toInt, BitVec.toInt_eq_toNat_cond, Int64.toNat_toBitVec] at *
      omega
    have form := TypeMarker.ofByte_literal literalByte
    rw [readValue_of_leaf holds shallow (by rw [form]; trivial)]
    simp only [readLeafValue, form, back, pure_eq_ok, List.length_singleton]
  · rw [readValue_numberInt64 i.toUInt64 holds small shallow, Int64.toInt64_toUInt64]
    simp

theorem readValue_encodeNumber {fuel depth : Nat} {r : Reader} (n : Number)
    (holds : r.HoldsAt (encodeNumber n)) (small : r.buf.length ≤ usizeMax) (shallow : depth ≤ maxDepth) :
    readValue (fuel + 2) r depth = .ok (.number n, r.seek (r.pos + (encodeNumber n).length)) := by
  cases n with
  | posInt u =>
      by_cases fits : u ≤ 0x7FFFFFFFFFFFFFFF
      · -- through the signed path
        rw [encodeNumber_posInt_of_le fits] at holds ⊢
        rw [readValue_encodeI64 u.toInt64 holds small shallow, intValue_of_le fits]
      · rw [encodeNumber_posInt_of_lt (UInt64.not_le.mp fits)] at holds ⊢
        rw [readValue_numberUint64 u holds small shallow]
        simp
  | negInt i negative =>
      rw [encodeNumber_negInt] at holds ⊢
      rw [readValue_encodeI64 i holds small shallow, intValue_of_neg negative]
  | float f finite =>
      rw [encodeNumber_float, encodeF64_of_finite finite] at holds ⊢
      rw [readValue_numberDouble f finite holds small shallow]
      simp

theorem readLeafValue_lengthPrefixed {fuel : Nat} {r : Reader} {marker : UInt8} {width : FieldWidth}
    {s : String} (form : TypeMarker.ofByte marker = .lengthPrefixedString width)
    (holds : r.HoldsAt (fieldBytes width (utf8Bytes s).length ++ utf8Bytes s))
    (small : r.buf.length ≤ usizeMax) (fits : (utf8Bytes s).length < 2 ^ (8 * width.bytes))
    (offset : Nat) :
    readLeafValue (fuel + 1) r marker offset =
      .ok (.string s, r.seek (r.pos + width.bytes + (utf8Bytes s).length)) := by
  obtain ⟨lenField, text⟩ := Reader.holdsAt_append holds
  rw [length_fieldBytes] at text
  simp only [readLeafValue, form, Reader.readLen_of_holdsAt lenField small fits, ok_bind,
    Reader.readString_of_holdsAt offset text small, pure_eq_ok, Reader.seek_seek, Reader.seek_pos]

theorem readValue_encodeString {fuel depth : Nat} {r : Reader} (s : String)
    (fits : Fits depth (.string s)) (holds : r.HoldsAt (encodeString s))
    (small : r.buf.length ≤ usizeMax) :
    readValue (fuel + 2) r depth = .ok (.string s, r.seek (r.pos + (encodeString s).length)) := by
  simp only [Fits] at fits
  obtain ⟨shallow, short⟩ := fits
  simp only [encodeString] at holds ⊢
  split_ifs at holds ⊢ with tiny oneByte twoBytes
  · -- the length is in the marker
    have form := ofByte_encodedStringLength tiny
    rw [List.singleton_append] at holds
    rw [readValue_of_leaf holds shallow (by rw [form]; trivial)]
    simp only [readLeafValue, form, Reader.readString_of_holdsAt _ (Reader.holdsAt_tail holds) small,
      ok_bind, pure_eq_ok, Reader.seek_seek, Reader.seek_pos]
    simp
    omega
  · have form : TypeMarker.ofByte Markers.strL1 = .lengthPrefixedString .u8 := by decide
    rw [List.cons_append, ← fieldBytes_u8] at holds
    rw [readValue_of_leaf holds shallow (by rw [form]; trivial),
      readLeafValue_lengthPrefixed form (Reader.holdsAt_tail holds) small (by simp only [FieldWidth.bytes]; omega)]
    simp [FieldWidth.bytes]
    omega
  · have form : TypeMarker.ofByte Markers.strL2 = .lengthPrefixedString .u16 := by decide
    rw [List.cons_append] at holds
    rw [readValue_of_leaf holds shallow (by rw [form]; trivial),
      readLeafValue_lengthPrefixed form (Reader.holdsAt_tail holds) small (by simp only [FieldWidth.bytes]; omega)]
    simp [FieldWidth.bytes]
    omega
  · have form : TypeMarker.ofByte Markers.strL4 = .lengthPrefixedString .u32 := by decide
    rw [List.cons_append] at holds
    rw [readValue_of_leaf holds shallow (by rw [form]; trivial),
      readLeafValue_lengthPrefixed form (Reader.holdsAt_tail holds) small short]
    simp [FieldWidth.bytes]
    omega

/-! ## Containers -/

theorem readValue_of_arrayFramed {fuel depth : Nat} {r : Reader} {marker : UInt8}
    {rest : List UInt8} {width : FieldWidth} (holds : r.HoldsAt (marker :: rest))
    (shallow : depth ≤ maxDepth) (form : TypeMarker.ofByte marker = .arrayFramed width true) :
    readValue (fuel + 1) r depth = readArrayValue fuel (r.seek (r.pos + 1)) width true depth := by
  have notDeep : ¬ maxDepth < depth := not_lt.mpr shallow
  simp only [readValue, if_neg notDeep, Reader.readU8_of_holdsAt holds, ok_bind, form]

theorem readValue_of_objectFramed {fuel depth : Nat} {r : Reader} {marker : UInt8}
    {rest : List UInt8} {width : FieldWidth} (holds : r.HoldsAt (marker :: rest))
    (shallow : depth ≤ maxDepth) (form : TypeMarker.ofByte marker = .objectFramed width true) :
    readValue (fuel + 1) r depth = readObjectValue fuel (r.seek (r.pos + 1)) width true depth := by
  have notDeep : ¬ maxDepth < depth := not_lt.mpr shallow
  simp only [readValue, if_neg notDeep, Reader.readU8_of_holdsAt holds, ok_bind, form]

theorem readArrayValue_of_items {fuel depth : Nat} {r r' : Reader} {width : FieldWidth}
    {items : List Value} {payload : List UInt8}
    (holds : r.HoldsAt (fieldBytes width payload.length ++ fieldBytes width items.length ++ payload))
    (small : r.buf.length ≤ usizeMax) (lenFits : payload.length < 2 ^ (8 * width.bytes))
    (countFits : items.length < 2 ^ (8 * width.bytes))
    (readItems : readArrayItems fuel (r.seek (r.pos + width.bytes + width.bytes)) depth
      (r.pos + width.bytes + width.bytes + payload.length) [] = .ok (items, r')) :
    readArrayValue (fuel + 1) r width true depth = .ok (.array items, r') := by
  obtain ⟨lenRead, countRead, payloadEnd⟩ :=
    Reader.framedHeader_of_holdsAt holds small lenFits countFits
  simp only [readArrayValue, lenRead, ok_bind, countRead, pure_eq_ok, payloadEnd, readItems,
    ne_eq, not_true_eq_false, if_false, if_true]

theorem readObjectValue_of_members {fuel depth count : Nat} {r r' : Reader} {width : FieldWidth}
    {map : List (String × Value)} {payload : List UInt8}
    (holds : r.HoldsAt (fieldBytes width payload.length ++ fieldBytes width count ++ payload))
    (small : r.buf.length ≤ usizeMax) (lenFits : payload.length < 2 ^ (8 * width.bytes))
    (countFits : count < 2 ^ (8 * width.bytes))
    (readMembers : readObjectMembers fuel (r.seek (r.pos + width.bytes + width.bytes)) depth
      (r.pos + width.bytes + width.bytes + payload.length) [] 0 = .ok ((map, count), r')) :
    readObjectValue (fuel + 1) r width true depth = .ok (.object map, r') := by
  obtain ⟨lenRead, countRead, payloadEnd⟩ :=
    Reader.framedHeader_of_holdsAt holds small lenFits countFits
  simp only [readObjectValue, lenRead, ok_bind, countRead, pure_eq_ok, payloadEnd, readMembers,
    ne_eq, not_true_eq_false, if_false, if_true]

theorem readMember_of_value {fuel depth : Nat} {r r' : Reader} {key : String} {value : Value}
    (keyFits : Fits depth (.string key)) (holds : r.HoldsAt (encodeString key))
    (small : r.buf.length ≤ usizeMax)
    (readVal : readValue (fuel + 2) (r.seek (r.pos + (encodeString key).length)) depth =
      .ok (value, r')) :
    readMember (fuel + 3) r depth = .ok ((key, value), r') := by
  obtain ⟨byte, tail, split⟩ := List.exists_cons_of_length_pos (length_encodeString_pos key)
  have peek : r.peekU8 = .ok byte := Reader.peekU8_of_holdsAt (split ▸ holds)
  simp only [readMember, peek, ok_bind, readValue_encodeString key keyFits holds small, readVal,
    pure_eq_ok]

theorem readValue_encodeArray {fuel depth : Nat} {r : Reader} {items : List Value}
    (shallow : depth ≤ maxDepth) (short : (encodeItems items).length < 2 ^ 32)
    (holds : r.HoldsAt (encodeValue (.array items))) (small : r.buf.length ≤ usizeMax)
    (enough : 3 * (r.buf.length - r.pos) + 1 ≤ fuel + 2)
    (loop : ∀ pos, (r.seek pos).HoldsAt (encodeItems items) → 3 * (r.buf.length - pos) + 2 ≤ fuel →
      readArrayItems fuel (r.seek pos) depth (pos + (encodeItems items).length) [] =
        .ok (items, r.seek (pos + (encodeItems items).length))) :
    readValue (fuel + 2) r depth =
      .ok (.array items, r.seek (r.pos + (encodeValue (.array items)).length)) := by
  simp only [encodeValue, encodeContainer_eq] at holds ⊢
  have widths := containerWidth_fits short (length_le_encodeItems items)
  have wide := FieldWidth.bytes_pos (containerWidth (encodeItems items).length items.length)
  have header := Reader.holdsAt_tail holds
  obtain ⟨-, payload⟩ := Reader.holdsAt_append header
  have inside := Reader.holdsAt_end payload
  simp only [length_fieldBytes, List.length_append, Reader.seek_seek, Reader.seek_pos,
    Reader.seek_buf] at payload inside
  have readItems := loop _ payload (by omega)
  rw [readValue_of_arrayFramed holds shallow (ofByte_arrayLc _),
    readArrayValue_of_items header small widths.1 widths.2 (by simpa [Nat.add_assoc] using readItems)]
  simp
  omega

theorem readValue_encodeObject {fuel depth : Nat} {r : Reader} {entries : List (String × Value)}
    (shallow : depth ≤ maxDepth) (short : (encodeEntries entries).length < 2 ^ 32)
    (holds : r.HoldsAt (encodeValue (.object entries))) (small : r.buf.length ≤ usizeMax)
    (enough : 3 * (r.buf.length - r.pos) + 1 ≤ fuel + 2)
    (loop : ∀ pos, (r.seek pos).HoldsAt (encodeEntries entries) →
      3 * (r.buf.length - pos) + 3 ≤ fuel →
      readObjectMembers fuel (r.seek pos) depth (pos + (encodeEntries entries).length) [] 0 =
        .ok ((entries, entries.length), r.seek (pos + (encodeEntries entries).length))) :
    readValue (fuel + 2) r depth =
      .ok (.object entries, r.seek (r.pos + (encodeValue (.object entries)).length)) := by
  simp only [encodeValue, encodeContainer_eq] at holds ⊢
  have widths := containerWidth_fits short (length_le_encodeEntries entries)
  have wide := FieldWidth.bytes_pos (containerWidth (encodeEntries entries).length entries.length)
  have header := Reader.holdsAt_tail holds
  obtain ⟨-, payload⟩ := Reader.holdsAt_append header
  have inside := Reader.holdsAt_end payload
  simp only [length_fieldBytes, List.length_append, Reader.seek_seek, Reader.seek_pos,
    Reader.seek_buf] at payload inside
  have readMembers := loop _ payload (by omega)
  rw [readValue_of_objectFramed holds shallow (ofByte_objectLc _),
    readObjectValue_of_members header small widths.1 widths.2
      (by simpa [Nat.add_assoc] using readMembers)]
  simp
  omega

/-! ## The round trip -/

mutual

theorem readValue_encodeValue (v : Value) {depth : Nat} (fits : Fits depth v) {r : Reader}
    (holds : r.HoldsAt (encodeValue v)) (small : r.buf.length ≤ usizeMax) (fuel : Nat)
    (enough : 3 * (r.buf.length - r.pos) + 1 ≤ fuel) :
    readValue fuel r depth = .ok (v, r.seek (r.pos + (encodeValue v).length)) := by
  have inside := Reader.holdsAt_end holds
  have nonempty := length_encodeValue_pos v
  obtain ⟨fuel, rfl⟩ : ∃ spare, fuel = spare + 2 := ⟨fuel - 2, by omega⟩
  match v with
  | .null =>
      simp only [Fits] at fits
      have form : TypeMarker.ofByte Markers.null = .null := by decide
      rw [readValue_of_leaf holds fits (by rw [form]; trivial)]
      simp [readLeafValue, form, encodeValue]
  | .bool false =>
      simp only [Fits] at fits
      have form : TypeMarker.ofByte Markers.false = .false := by decide
      rw [readValue_of_leaf holds fits (by rw [form]; trivial)]
      simp [readLeafValue, form, encodeValue]
  | .bool true =>
      simp only [Fits] at fits
      have form : TypeMarker.ofByte Markers.true = .true := by decide
      rw [readValue_of_leaf holds fits (by rw [form]; trivial)]
      simp [readLeafValue, form, encodeValue]
  | .number n =>
      simp only [Fits] at fits
      exact readValue_encodeNumber n holds small fits
  | .string s => exact readValue_encodeString s fits holds small
  | .array items =>
      simp only [Fits] at fits
      obtain ⟨shallow, short, itemsFit⟩ := fits
      refine readValue_encodeArray shallow short holds small enough fun pos payload roomy => ?_
      simpa using readArrayItems_encodeItems items itemsFit payload small fuel roomy _ rfl []
  | .object entries =>
      simp only [Fits] at fits
      obtain ⟨shallow, sorted, short, entriesFit⟩ := fits
      refine readValue_encodeObject shallow short holds small enough fun pos payload roomy => ?_
      have rebuilt := SortedMap.foldl_insert_of_sorted entries sorted [] (by simp)
      simpa [rebuilt] using
        readObjectMembers_encodeEntries entries entriesFit payload small fuel roomy _ rfl [] 0
termination_by structural v

theorem readArrayItems_encodeItems (items : List Value) {depth : Nat}
    (fits : ItemsFit (depth + 1) items) {r : Reader} (holds : r.HoldsAt (encodeItems items))
    (small : r.buf.length ≤ usizeMax) (fuel : Nat) (enough : 3 * (r.buf.length - r.pos) + 2 ≤ fuel)
    (stop : Nat) (ends : stop = r.pos + (encodeItems items).length) (done : List Value) :
    readArrayItems fuel r depth stop done = .ok (done ++ items, r.seek stop) := by
  obtain ⟨fuel, rfl⟩ : ∃ spare, fuel = spare + 1 := ⟨fuel - 1, by omega⟩
  match items with
  | [] =>
      simp only [encodeItems, List.length_nil, Nat.add_zero] at ends
      subst ends
      simp [readArrayItems]
  | item :: rest =>
      simp only [ItemsFit] at fits
      obtain ⟨itemFits, restFit⟩ := fits
      simp only [encodeItems] at holds ends
      obtain ⟨itemHolds, restHolds⟩ := Reader.holdsAt_append holds
      have inside := Reader.holdsAt_end holds
      have itemPos := length_encodeValue_pos item
      simp only [List.length_append] at inside ends
      have readItem := readValue_encodeValue item itemFits itemHolds small fuel (by omega)
      have readRest := readArrayItems_encodeItems rest restFit restHolds small fuel
        (by simp only [Reader.seek_buf, Reader.seek_pos]; omega) stop
        (by simp only [Reader.seek_pos]; omega) (done ++ [item])
      have before : r.pos < stop := by omega
      have within : ¬ stop < r.pos + (encodeValue item).length := by omega
      simp only [readArrayItems, if_pos before, readItem, ok_bind, Reader.seek_pos, if_neg within,
        readRest, List.append_assoc, List.singleton_append, Reader.seek_seek]
termination_by structural items

theorem readObjectMembers_encodeEntries (entries : List (String × Value)) {depth : Nat}
    (fits : EntriesFit (depth + 1) entries) {r : Reader} (holds : r.HoldsAt (encodeEntries entries))
    (small : r.buf.length ≤ usizeMax) (fuel : Nat) (enough : 3 * (r.buf.length - r.pos) + 3 ≤ fuel)
    (stop : Nat) (ends : stop = r.pos + (encodeEntries entries).length)
    (map : List (String × Value)) (members : Nat) :
    readObjectMembers fuel r depth stop map members =
      .ok ((entries.foldl (fun map entry => SortedMap.insert map entry.1 entry.2) map,
        members + entries.length), r.seek stop) := by
  obtain ⟨fuel, rfl⟩ : ∃ spare, fuel = spare + 1 := ⟨fuel - 1, by omega⟩
  match entries with
  | [] =>
      simp only [encodeEntries, List.length_nil, Nat.add_zero] at ends
      subst ends
      simp [readObjectMembers]
  | (key, value) :: rest =>
      simp only [EntriesFit] at fits
      obtain ⟨keyFits, valueFits, restFit⟩ := fits
      simp only [encodeEntries, List.append_assoc] at holds ends
      obtain ⟨keyHolds, afterKey⟩ := Reader.holdsAt_append holds
      obtain ⟨valueHolds, restHolds⟩ := Reader.holdsAt_append afterKey
      have inside := Reader.holdsAt_end holds
      have keyPos := length_encodeString_pos key
      have valuePos := length_encodeValue_pos value
      simp only [List.length_append] at inside ends
      simp only [Reader.seek_seek, Reader.seek_pos] at valueHolds restHolds
      -- the member read takes two units of fuel on top of its value's
      obtain ⟨inner, spare⟩ : ∃ inner, fuel = inner + 3 := ⟨fuel - 3, by omega⟩
      have readVal := readValue_encodeValue value valueFits valueHolds small (inner + 2)
        (by simp only [Reader.seek_buf, Reader.seek_pos]; omega)
      simp only [Reader.seek_seek, Reader.seek_pos] at readVal
      have readMem := readMember_of_value keyFits keyHolds small readVal
      rw [← spare] at readMem
      have readRest := readObjectMembers_encodeEntries rest restFit restHolds small fuel
        (by simp only [Reader.seek_buf, Reader.seek_pos]; omega) stop
        (by simp only [Reader.seek_pos]; omega) (SortedMap.insert map key value) (members + 1)
      have before : r.pos < stop := by omega
      have within : ¬ stop < r.pos + (encodeString key).length + (encodeValue value).length := by
        omega
      simp only [readObjectMembers, if_pos before, readMem, ok_bind, Reader.seek_pos, if_neg within,
        readRest, List.foldl_cons, List.length_cons, Reader.seek_seek]
      rw [Nat.add_assoc, Nat.add_comm 1 rest.length]
termination_by structural entries

end

theorem decode_encode (v : Value) (fits : Fits 0 v) : decode (encode v) = .ok v := by
  have bounded := length_encodeValue_le fits
  have small : (encode v).length ≤ usizeMax := by
    simp only [encode, List.length_cons, usizeMax]
    omega
  have holds : (Reader.new (encode v) 1).HoldsAt (encodeValue v) :=
    ⟨by simp [Reader.new, encode], [], by simp [Reader.new, encode]⟩
  have read := readValue_encodeValue v fits holds small (decodeFuel (encode v))
    (by simp only [decodeFuel, Reader.new]; omega)
  -- the value's encoding runs to the end of the buffer
  have consumed : (checkedSub (encode v).length (1 + (encodeValue v).length) : Read Nat) = .ok 0 := by
    rw [checkedSub_of_le (by simp [encode]; omega)]
    simp only [encode, List.length_cons]
    congr 1
    omega
  have preamble : isBinary (encode v) = true := by simp [isBinary, encode]
  have start : (Reader.new (encode v) 1).pos = 1 := rfl
  simp only [decode, preamble, Bool.not_true, Bool.false_eq_true, if_false]
  simp only [read, ok_bind, Reader.seek_pos, start, consumed, ne_eq, not_true_eq_false, if_false,
    pure_eq_ok]

theorem decode_encode_document :
    Fits 0 (.object [("id", .array [.number (.posInt 7), .string "x", .null])]) ∧
      decode (encode (.object [("id", .array [.number (.posInt 7), .string "x", .null])])) =
        .ok (.object [("id", .array [.number (.posInt 7), .string "x", .null])]) :=
  have fits : Fits 0 (.object [("id", .array [.number (.posInt 7), .string "x", .null])]) := by
    simp [Fits, ItemsFit, EntriesFit, maxDepth, SortedMap.Sorted]
    decide
  ⟨fits, decode_encode _ fits⟩

end CosmosDriver.BinaryJson
