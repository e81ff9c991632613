import AzureSdk.Lib.Outcome
import AzureSdk.Lib.Base64
import AzureSdk.Cosmos.BinaryJson.Markers
import AzureSdk.Cosmos.BinaryJson.Value

/-!
# The reference decoder

`reader.rs`: a bounds-checked cursor over the buffer and the recursive descent
`decode` runs over it. Positions are absolute offsets into the buffer, as in the
source, because reference strings point at absolute offsets and errors report
them. The reference-expansion budget is a `Cell` shared by the whole decode; here
it is a field of the reader that every step passes on.

The container loops run until the cursor reaches the payload's end, which
terminates only because every value read moves the cursor. The model therefore
recurses on an explicit fuel that every call of the recursive knot consumes;
`decodeFuel` gives `decode` more than it can use, and the totality results show
that no run of `decode` ever runs out.

Rust panics the decoder is careful to avoid are kept as explicit checks that
panic: the subtraction `buffer.len() - pos`, the slice index of the packed
strings, the `byte_count - 1` of the table strings, the product `len * bits`, and
the charge against the reference budget.
-/

namespace CosmosDriver.BinaryJson

open Outcome

set_option autoImplicit false

/-- `Result<T, BinaryError>` of the decoder. -/
abbrev Read (α : Type) := Run BinaryError α

def maxDepth : Nat := 256

/-- `reference_budget`: sixteen bytes of expanded reference text per buffer byte,
and never less than 64 MiB. -/
def referenceBudget (bufLen : Nat) : Nat := max (min (bufLen * 16) usizeMax) (64 * 1024 * 1024)

def emptyElementBudget (bufLen : Nat) : Nat := max (min (bufLen * 16) usizeMax) (64 * 1024)

/-- `Reader`: the buffer, the absolute cursor, and the remaining reference budget. -/
structure Reader where
  buf : List UInt8
  pos : Nat
  refBudget : Nat

/-- `is_binary`: the first byte is the preamble. -/
def isBinary (buffer : List UInt8) : Bool := buffer.head? == some Markers.preamble

namespace Reader

def new (buf : List UInt8) (pos : Nat) : Reader := ⟨buf, pos, referenceBudget buf.length⟩

def seek (r : Reader) (pos : Nat) : Reader := { r with pos := pos }

@[simp] theorem seek_buf (r : Reader) (pos : Nat) : (r.seek pos).buf = r.buf := rfl
@[simp] theorem seek_pos (r : Reader) (pos : Nat) : (r.seek pos).pos = pos := rfl
@[simp] theorem seek_refBudget (r : Reader) (pos : Nat) : (r.seek pos).refBudget = r.refBudget := rfl

def peekU8 (r : Reader) : Read UInt8 :=
  match r.buf[r.pos]? with
  | some byte => .ok byte
  | none => fail (.unexpectedEof 1)

def readU8 (r : Reader) : Read (UInt8 × Reader) :=
  match r.buf[r.pos]? with
  | some byte => .ok (byte, r.seek (r.pos + 1))
  | none => fail (.unexpectedEof 1)

/-- `read_bytes`: the next `len` bytes, never more than the buffer holds. -/
def readBytes (r : Reader) (len : Nat) : Read (List UInt8 × Reader) :=
  let stop := r.pos + len
  if usizeMax < stop then fail (.invalidLength "length prefix overflows the address space")
  else if stop ≤ r.buf.length then .ok ((r.buf.drop r.pos).take len, r.seek stop)
  else fail (.unexpectedEof (stop - r.buf.length))

/-- A little-endian unsigned word of `width` bytes; `read_u16_le`, `read_u24_le`,
`read_u32_le` and `read_u64_le` are this at widths 2, 3, 4 and 8. -/
def readLe (r : Reader) (width : Nat) : Read (Nat × Reader) := do
  let (bytes, r) ← r.readBytes width
  pure (LittleEndian.value bytes, r)

def readU16Le (r : Reader) : Read (UInt16 × Reader) := do
  let (n, r) ← r.readLe 2
  pure (UInt16.ofNat n, r)

def readU24Le (r : Reader) : Read (UInt32 × Reader) := do
  let (n, r) ← r.readLe 3
  pure (UInt32.ofNat n, r)

def readU32Le (r : Reader) : Read (UInt32 × Reader) := do
  let (n, r) ← r.readLe 4
  pure (UInt32.ofNat n, r)

def readU64Le (r : Reader) : Read (UInt64 × Reader) := do
  let (n, r) ← r.readLe 8
  pure (UInt64.ofNat n, r)

/-- `read_i8`: the byte reinterpreted as two's complement. -/
def readI8 (r : Reader) : Read (Int8 × Reader) := do
  let (b, r) ← r.readU8
  pure (b.toInt8, r)

def readI16Le (r : Reader) : Read (Int16 × Reader) := do
  let (n, r) ← r.readLe 2
  pure ((UInt16.ofNat n).toInt16, r)

def readI32Le (r : Reader) : Read (Int32 × Reader) := do
  let (n, r) ← r.readLe 4
  pure ((UInt32.ofNat n).toInt32, r)

def readI64Le (r : Reader) : Read (Int64 × Reader) := do
  let (n, r) ← r.readLe 8
  pure ((UInt64.ofNat n).toInt64, r)

def readF32Le (r : Reader) : Read (F32 × Reader) := do
  let (bytes, r) ← r.readBytes 4
  pure (F32.fromLeBytes bytes, r)

def readF64Le (r : Reader) : Read (F64 × Reader) := do
  let (bytes, r) ← r.readBytes 8
  pure (F64.fromLeBytes bytes, r)

/-- `read_string`: `len` bytes of UTF-8; an invalid sequence is reported at the
value's marker. -/
def readString (r : Reader) (len markerOffset : Nat) : Read (String × Reader) := do
  let (bytes, r) ← r.readBytes len
  match fromUtf8 bytes with
  | some s => pure (s, r)
  | none => fail (.invalidUtf8 markerOffset)

def readLen (r : Reader) : FieldWidth → Read (Nat × Reader)
  | .u8 => do
      let (b, r) ← r.readU8
      pure (b.toNat, r)
  | .u16 => do
      let (n, r) ← r.readU16Le
      pure (n.toNat, r)
  | .u32 => do
      let (n, r) ← r.readU32Le
      pure (n.toNat, r)

/-- `bounded_end`: where a `payloadLen`-byte payload starting at the cursor ends,
provided the buffer holds it. -/
def boundedEnd (r : Reader) (payloadLen : Nat) : Read Nat :=
  let stop := r.pos + payloadLen
  if usizeMax < stop then fail (.invalidLength "container length overflows the address space")
  else if r.buf.length < stop then fail (.unexpectedEof (stop - r.buf.length))
  else .ok stop

end Reader

def intValue (n : Int64) : Value := .number (Number.ofI64 n)

def uintValue (n : UInt64) : Value := .number (Number.ofU64 n)

/-- `double_value`: a finite double, else `InvalidNumber`. -/
def doubleValue (f : F64) : Read Value :=
  match Number.fromF64 f with
  | some n => .ok (.number n)
  | none => fail (.invalidNumber "non-finite double (NaN or infinity)")

/-- `Reader::read_number_value`: the payload of a fixed-width number whose marker
was consumed. -/
def readNumberValue (r : Reader) (marker : UInt8) (markerOffset : Nat) : Read (Value × Reader) :=
  match marker with
  | 0xC8 | 0xD7 => do
      -- NUMBER_UINT8 | UINT8
      let (b, r) ← r.readU8
      pure (intValue (Int64.ofNat b.toNat), r)
  | 0xC9 | 0xD9 => do
      -- NUMBER_INT16 | INT16
      let (n, r) ← r.readI16Le
      pure (intValue n.toInt64, r)
  | 0xCA | 0xDA => do
      -- NUMBER_INT32 | INT32
      let (n, r) ← r.readI32Le
      pure (intValue n.toInt64, r)
  | 0xCB | 0xDB => do
      -- NUMBER_INT64 | INT64
      let (n, r) ← r.readI64Le
      pure (intValue n, r)
  | 0xC7 => do
      -- NUMBER_UINT64
      let (n, r) ← r.readU64Le
      pure (uintValue n, r)
  | 0xDC => do
      -- UINT32
      let (n, r) ← r.readU32Le
      pure (intValue (Int64.ofNat n.toNat), r)
  | 0xD8 => do
      -- INT8
      let (n, r) ← r.readI8
      pure (intValue n.toInt64, r)
  | 0xCC | 0xCE => do
      -- NUMBER_DOUBLE | FLOAT64
      let (f, r) ← r.readF64Le
      let v ← doubleValue f
      pure (v, r)
  | 0xCD => do
      -- FLOAT32
      let (f, r) ← r.readF32Le
      let v ← doubleValue f.toF64
      pure (v, r)
  | other => fail (.invalidMarker other markerOffset)

/-- `read_bare_number`: uniform-array items use only the extended markers. -/
def readBareNumber (r : Reader) (itemMarker : UInt8) (markerOffset : Nat) : Read (Value × Reader) :=
  if itemMarker ∈ [Markers.int8, Markers.uint8, Markers.int16, Markers.int32, Markers.int64,
      Markers.uint32, Markers.float32, Markers.float64] then
    readNumberValue r itemMarker markerOffset
  else fail (.invalidMarker itemMarker markerOffset)

def readBareNumbers (itemMarker : UInt8) (markerOffset : Nat) :
    Nat → Reader → List Value → Read (List Value × Reader)
  | 0, r, items => .ok (items, r)
  | count + 1, r, items => do
      let (item, r) ← readBareNumber r itemMarker markerOffset
      readBareNumbers itemMarker markerOffset count r (items ++ [item])

def readUniformNumberArray (r : Reader) (countWidth : FieldWidth) : Read (Value × Reader) := do
  let itemMarkerOffset := r.pos
  let (itemMarker, r) ← r.readU8
  let (count, r) ← r.readLen countWidth
  let (items, r) ← readBareNumbers itemMarker itemMarkerOffset count r []
  pure (.array items, r)

def readInnerArrays (itemMarker : UInt8) (markerOffset innerCount : Nat) :
    Nat → Reader → List Value → Read (List Value × Reader)
  | 0, r, outer => .ok (outer, r)
  | outerCount + 1, r, outer => do
      let (inner, r) ← readBareNumbers itemMarker markerOffset innerCount r []
      readInnerArrays itemMarker markerOffset innerCount outerCount r (outer ++ [.array inner])

def readUniformArrayOfNumberArrays (r : Reader) (countWidth : FieldWidth) :
    Read (Value × Reader) := do
  let innerArrayMarkerOffset := r.pos
  let (innerArrayMarker, r) ← r.readU8
  let expectedInnerArrayMarker :=
    match countWidth with
    | .u8 => Markers.arrNumC1
    | .u16 => Markers.arrNumC2
    | .u32 => Markers.arrNumC2
  if innerArrayMarker ≠ expectedInnerArrayMarker then
    fail (.invalidMarker innerArrayMarker innerArrayMarkerOffset)
  else
    let itemMarkerOffset := r.pos
    let (itemMarker, r) ← r.readU8
    let (innerCount, r) ← r.readLen countWidth
    let (outerCount, r) ← r.readLen countWidth
    if innerCount = 0 ∧ emptyElementBudget r.buf.length < outerCount then
      fail (.invalidLength
        "uniform array of empty number arrays declares more elements than the input can justify")
    else
      let (outer, r) ← readInnerArrays itemMarker itemMarkerOffset innerCount outerCount r []
      pure (.array outer, r)

def hexDigits (digits : Vector UInt8 16) (byte : UInt8) : List Char :=
  [Char.ofUInt8 (digits.get ⟨byte.toNat / 16, Nat.div_lt_of_lt_mul (by simpa using byte.toNat_lt)⟩),
    Char.ofUInt8 (digits.get ⟨byte.toNat % 16, Nat.mod_lt _ (by decide)⟩)]

/-- `read_guid_string`: a straight hex dump of 16 bytes in 8-4-4-4-12 groups. -/
def readGuidString (r : Reader) (uppercase quoted : Bool) : Read (String × Reader) := do
  let (bytes, r) ← r.readBytes 16
  let digits := if uppercase then CompressionTable.uppercaseHex.chars
    else CompressionTable.lowercaseHex.chars
  let body := (List.range 16).zip bytes |>.flatMap fun (index, byte) =>
    (if index ∈ [4, 6, 8, 10] then ['-'] else []) ++ hexDigits digits byte
  let text := if quoted then ['"'] ++ body ++ ['"'] else body
  pure (String.ofList text, r)

/-- `read_base64_string`: the raw bytes re-encoded, cut to the declared length. -/
def readBase64String (r : Reader) (lengthWidth : FieldWidth) (urlSafe : Bool) :
    Read (String × Reader) := do
  let (groups, r) ← r.readLen lengthWidth
  let (padding, r) ← r.readU8
  if usizeMax < groups * 4 then fail (.invalidLength "base64 length overflows the address space")
  else
    let paddedLen := groups * 4
    let omitted := 2 < padding
    let effectivePadding := if omitted then (~~~padding).toNat else padding.toNat
    let trimmed := if omitted then effectivePadding else 0
    if paddedLen < trimmed then fail (.invalidLength "base64 padding exceeds the encoded length")
    else
      let finalLen := paddedLen - trimmed
      if paddedLen < effectivePadding then
        fail (.invalidLength "base64 padding exceeds the encoded length")
      else if usizeMax < (paddedLen - effectivePadding) * 3 then
        fail (.invalidLength "base64 length overflows the address space")
      else
        let rawLen := (paddedLen - effectivePadding) * 3 / 4
        let (raw, r) ← r.readBytes rawLen
        let encoded := Base64.encode urlSafe raw
        if encoded.length < finalLen then
          fail (.invalidLength "base64 encoded length is shorter than the declared length")
        else pure (String.ofList (encoded.take finalLen), r)

/-- The characters of a table string, one byte (two nibbles) at a time. The last
byte of an odd-length string contributes only its low nibble and its high nibble
must be zero. -/
def tableChars (table : CompressionTable) (len byteCount : Nat) :
    Nat → List UInt8 → List Char → Read (List Char)
  | _, [], out => .ok out
  | index, byte :: rest, out => do
      let out := out ++ [Char.ofUInt8 (table.chars.get ⟨byte.toNat % 16, Nat.mod_lt _ (by decide)⟩)]
      let last ← checkedSub byteCount 1
      if index = last ∧ len % 2 = 1 then
        if byte.toNat / 16 ≠ 0 then
          fail (.invalidLength "compressed string has non-zero padding nibble")
        else tableChars table len byteCount (index + 1) rest out
      else
        tableChars table len byteCount (index + 1) rest
          (out ++ [Char.ofUInt8 (table.chars.get
            ⟨byte.toNat / 16, Nat.div_lt_of_lt_mul (by simpa using byte.toNat_lt)⟩)])

def readTableString (r : Reader) (table : CompressionTable) : Read (String × Reader) := do
  let (len, r) ← r.readU8
  let byteCount := (len.toNat + 1) / 2
  let (bytes, r) ← r.readBytes byteCount
  let out ← tableChars table len.toNat byteCount 0 bytes []
  pure (String.ofList out, r)

/-- The `len` characters of a packed string, `bits` bits each from a
little-endian bit stream, offset by `base`. -/
def packedChars (bytes : List UInt8) (bits : Nat) (base : UInt8) :
    Nat → Nat → List Char → Read (List Char)
  | 0, _, out => .ok out
  | remaining + 1, bitPos, out =>
      match bytes[bitPos / 8]? with
      | none => panic
      | some lo =>
          let hi := (bytes[bitPos / 8 + 1]?).getD 0
          let window := lo.toNat + hi.toNat * 256
          let value := window / 2 ^ (bitPos % 8) % 2 ^ bits
          let ch := UInt8.ofNat value + base
          packedChars bytes bits base remaining (bitPos + bits) (out ++ [Char.ofUInt8 ch])

def readPackedString (r : Reader) (bits : Nat) (hasBase : Bool) (lengthWidth : FieldWidth) :
    Read (String × Reader) := do
  let (len, r) ← r.readLen lengthWidth
  let (base, r) ← if hasBase then r.readU8 else pure (0, r)
  let bitCount ← checkedMul len bits
  let (bytes, r) ← r.readBytes ((bitCount + 7) / 8)
  let out ← packedChars bytes bits base len 0 []
  pure (String.ofList out, r)

/-- `read_guid_value`: a .NET `Guid` (three little-endian groups, then eight
bytes in order) as lowercase text. -/
def readGuidValue (r : Reader) : Read (String × Reader) := do
  let (b, r) ← r.readBytes 16
  let hex := fun (index : Nat) => hexDigits CompressionTable.lowercaseHex.chars (b.getD index 0)
  let groups := [[3, 2, 1, 0], [5, 4], [7, 6], [8, 9], [10, 11, 12, 13, 14, 15]]
  let text := (groups.map fun group => group.flatMap hex).intersperse ['-'] |>.flatten
  pure (String.ofList text, r)

/-- `read_binary`: a length-prefixed blob as a standard base64 string. -/
def readBinary (r : Reader) (lengthWidth : FieldWidth) : Read (Value × Reader) := do
  let (len, r) ← r.readLen lengthWidth
  let (bytes, r) ← r.readBytes len
  pure (.string (String.ofList (Base64.encode false bytes)), r)

/-- Whether a marker may be the target of a reference string: a string, and not
itself a reference (`resolve_reference`'s two range checks). -/
def isReferenceTarget (marker : UInt8) : Bool :=
  (0x20 ≤ marker && marker < 0xC7) && !(0xC3 ≤ marker && marker ≤ 0xC6)

mutual

def readValue : Nat → Reader → Nat → Read (Value × Reader)
  | 0, _, _ => outOfFuel
  | fuel + 1, r, depth =>
      if maxDepth < depth then fail (.depthLimitExceeded maxDepth)
      else do
        let offset := r.pos
        let (marker, r) ← r.readU8
        -- Only container markers recurse; every other marker is a leaf.
        match TypeMarker.ofByte marker with
        | .arr0 => pure (.array [], r)
        | .arr1 => do
            let (item, r) ← readValue fuel r (depth + 1)
            pure (.array [item], r)
        | .arrayFramed width hasCount => readArrayValue fuel r width hasCount depth
        | .obj0 => pure (.object [], r)
        | .obj1 => do
            let ((name, value), r) ← readMember fuel r (depth + 1)
            pure (.object (SortedMap.insert [] name value), r)
        | .objectFramed width hasCount => readObjectValue fuel r width hasCount depth
        | _ => readLeafValue fuel r marker offset
termination_by structural fuel => fuel

/-- `Reader::read_leaf_value`: every non-container form. -/
def readLeafValue : Nat → Reader → UInt8 → Nat → Read (Value × Reader)
  | 0, _, _, _ => outOfFuel
  | fuel + 1, r, marker, offset =>
      match TypeMarker.ofByte marker with
      | .null => pure (.null, r)
      | .false => pure (.bool false, r)
      | .true => pure (.bool true, r)
      | .literalInt value => pure (intValue (Int64.ofNat value.toNat), r)
      | .number m => readNumberValue r m offset
      | .systemString m =>
          match systemStringForMarker m with
          | some s => pure (.string s, r)
          | none => fail (.invalidMarker m offset)
      | .encodedLengthString len => do
          let (s, r) ← r.readString len offset
          pure (.string s, r)
      | .lengthPrefixedString width => do
          let (len, r) ← r.readLen width
          let (s, r) ← r.readString len offset
          pure (.string s, r)
      | .guidString uppercase quoted => do
          let (s, r) ← readGuidString r uppercase quoted
          pure (.string s, r)
      | .base64String width urlSafe => do
          let (s, r) ← readBase64String r width urlSafe
          pure (.string s, r)
      | .tableString table => do
          let (s, r) ← readTableString r table
          pure (.string s, r)
      | .packedString bits hasBase width => do
          let (s, r) ← readPackedString r bits hasBase width
          pure (.string s, r)
      | .guid => do
          let (s, r) ← readGuidValue r
          pure (.string s, r)
      | .binary width => readBinary r width
      | .uniformNumberArray width => readUniformNumberArray r width
      | .uniformArrayOfNumberArrays width => readUniformArrayOfNumberArrays r width
      | .userString1 m => fail (.unsupportedUserString (m - Markers.userString1ByteMin).toNat)
      | .userString2 m => do
          -- id = one-byte count + low byte + 256 * (offset of the marker in its range)
          let (low, _) ← r.readU8
          fail (.unsupportedUserString (32 + low.toNat + (m - Markers.userString2ByteMin).toNat * 256))
      | .referenceString offsetBytes => do
          let (target, r) ← r.readLe offsetBytes
          resolveReference fuel r target
      -- any other byte is not a valid type marker; the forms are listed so that the match
      -- does not overlap
      | .arr0 | .arr1 | .arrayFramed _ _ | .obj0 | .obj1 | .objectFramed _ _ | .invalid =>
          fail (.invalidMarker marker offset)
termination_by structural fuel => fuel

/-- `Reader::resolve_reference`: decode the non-reference string at `target` from
a fresh cursor, and charge its length against the shared budget. -/
def resolveReference : Nat → Reader → Nat → Read (Value × Reader)
  | 0, _, _ => outOfFuel
  | fuel + 1, r, target =>
      match r.buf[target]? with
      | none => fail (.unresolvedReference target)
      | some marker =>
          if !isReferenceTarget marker then fail (.unresolvedReference target)
          else do
            let (value, _) ← readValue fuel (Reader.new r.buf target) 0
            match value with
            | .string s =>
                let cost := s.utf8ByteSize
                if r.refBudget < cost then
                  fail (.invalidLength "reference-string expansion exceeds the decode budget")
                else do
                  let remaining ← checkedSub r.refBudget cost
                  pure (value, { r with refBudget := remaining })
            | _ => pure (value, r)
termination_by structural fuel => fuel

/-- `Reader::read_array_value`: a length-framed array, with an optional count
that must match the number of items read. -/
def readArrayValue : Nat → Reader → FieldWidth → Bool → Nat → Read (Value × Reader)
  | 0, _, _, _, _ => outOfFuel
  | fuel + 1, r, width, hasCount, depth => do
      let (payloadLen, r) ← r.readLen width
      let (count, r) ← if hasCount then do
          let (c, r) ← r.readLen width
          pure (some c, r)
        else pure (none, r)
      let stop ← r.boundedEnd payloadLen
      let (items, r) ← readArrayItems fuel r depth stop []
      match count with
      | some expected =>
          if items.length ≠ expected then
            fail (.invalidLength "array item count does not match its declared count")
          else pure (.array items, r)
      | none => pure (.array items, r)
termination_by structural fuel => fuel

/-- The item loop of `read_array_value`: read until the cursor reaches `stop`. -/
def readArrayItems : Nat → Reader → Nat → Nat → List Value → Read (List Value × Reader)
  | 0, _, _, _, _ => outOfFuel
  | fuel + 1, r, depth, stop, items =>
      if r.pos < stop then do
        let (item, r) ← readValue fuel r (depth + 1)
        if stop < r.pos then
          fail (.invalidLength "array element extends past the array's declared length")
        else readArrayItems fuel r depth stop (items ++ [item])
      else pure (items, r)
termination_by structural fuel => fuel

def readObjectValue : Nat → Reader → FieldWidth → Bool → Nat → Read (Value × Reader)
  | 0, _, _, _, _ => outOfFuel
  | fuel + 1, r, width, hasCount, depth => do
      let (payloadLen, r) ← r.readLen width
      let (count, r) ← if hasCount then do
          let (c, r) ← r.readLen width
          pure (some c, r)
        else pure (none, r)
      let stop ← r.boundedEnd payloadLen
      let ((entries, members), r) ← readObjectMembers fuel r depth stop [] 0
      match count with
      | some expected =>
          if members ≠ expected then
            fail (.invalidLength "object member count does not match its declared count")
          else pure (.object entries, r)
      | none => pure (.object entries, r)
termination_by structural fuel => fuel

/-- The member loop of `read_object_value`: insert each member, count them all. -/
def readObjectMembers : Nat → Reader → Nat → Nat → List (String × Value) → Nat →
    Read ((List (String × Value) × Nat) × Reader)
  | 0, _, _, _, _, _ => outOfFuel
  | fuel + 1, r, depth, stop, entries, members =>
      if r.pos < stop then do
        let ((name, value), r) ← readMember fuel r (depth + 1)
        if stop < r.pos then
          fail (.invalidLength "object member extends past the object's declared length")
        else readObjectMembers fuel r depth stop (SortedMap.insert entries name value) (members + 1)
      else pure ((entries, members), r)
termination_by structural fuel => fuel

/-- `Reader::read_member`: a name that must decode to a string, then a value. -/
def readMember : Nat → Reader → Nat → Read ((String × Value) × Reader)
  | 0, _, _ => outOfFuel
  | fuel + 1, r, depth => do
      let nameOffset := r.pos
      let nameMarker ← r.peekU8
      let (name, r) ← readValue fuel r depth
      match name with
      | .string s => do
          let (value, r) ← readValue fuel r depth
          pure ((s, value), r)
      | _ => fail (.invalidMarker nameMarker nameOffset)
termination_by structural fuel => fuel

end

/-- The fuel `decode` gives the descent: every call consumes one unit and every
value read moves the cursor, so this is more than a buffer can use. -/
def decodeFuel (buffer : List UInt8) : Nat := 3 * buffer.length + 3

def decode (buffer : List UInt8) : Read Value :=
  if !isBinary buffer then
    match buffer.head? with
    | some found => fail (.missingPreamble found)
    | none => fail (.unexpectedEof 1)
  else do
    let (value, r) ← readValue (decodeFuel buffer) (Reader.new buffer 1) 0
    let remaining ← checkedSub buffer.length r.pos
    if remaining ≠ 0 then fail (.trailingBytes remaining) else pure value

end CosmosDriver.BinaryJson
