import AzureSdk.Cosmos.BinaryJson.RoundTrip

/-!
# The native scalar fast path

`Reader::try_read_native_scalar` decodes the common leaf forms without building a
`Value`: it peeks the marker and, for null, booleans, literal and fixed-width
numbers, system strings and plain strings, consumes the value and returns a
`ScalarToken`; for any other marker it returns `None` and leaves the cursor where
it was, and the native deserializer falls back to `read_value`. The token's
meaning is what the deserializer's visitor makes of it, with a non-finite double
refused as `InvalidNumber`.

The fast path with that fallback is the reference decoder: `readValue` at the same
position gives the same value, the same cursor and the same error. The markers it
defers are the containers, the exotic forms and `UINT8`, the one extended number
the fast path does not list.
-/

namespace CosmosDriver.BinaryJson

open Outcome

set_option autoImplicit false

inductive ScalarToken where
  | null
  | bool (b : Bool)
  | i64 (i : Int64)
  | u64 (u : UInt64)
  | f64 (f : F64)
  | str (s : String)
  deriving DecidableEq, Repr

def ScalarToken.value : ScalarToken → Read Value
  | .null => .ok .null
  | .bool b => .ok (.bool b)
  | .i64 i => .ok (intValue i)
  | .u64 u => .ok (uintValue u)
  | .f64 f => doubleValue f
  | .str s => .ok (.string s)

/-- `read_str_slice`: `read_string`, borrowing the bytes instead of copying them. -/
def readStrSlice (r : Reader) (len markerOffset : Nat) : Read (String × Reader) :=
  r.readString len markerOffset

/-- The `NUMBER_UINT64` projection: `I64` when `i64::try_from` succeeds. -/
def unsignedToken (v : UInt64) : ScalarToken :=
  if v ≤ 0x7FFFFFFFFFFFFFFF then .i64 v.toInt64 else .u64 v

def tryReadNativeScalar (r : Reader) : Read (Option ScalarToken × Reader) := do
  let offset := r.pos
  let marker ← r.peekU8
  let next := r.seek (r.pos + 1)
  match TypeMarker.ofByte marker with
  | .null => pure (some .null, next)
  | .false => pure (some (.bool false), next)
  | .true => pure (some (.bool true), next)
  | .literalInt value => pure (some (.i64 (Int64.ofNat value.toNat)), next)
  | .number m =>
      match m with
      | 0xC8 => do
          -- NUMBER_UINT8
          let (b, r) ← next.readU8
          pure (some (.i64 (Int64.ofNat b.toNat)), r)
      | 0xC9 | 0xD9 => do
          let (n, r) ← next.readI16Le
          pure (some (.i64 n.toInt64), r)
      | 0xCA | 0xDA => do
          let (n, r) ← next.readI32Le
          pure (some (.i64 n.toInt64), r)
      | 0xCB | 0xDB => do
          let (n, r) ← next.readI64Le
          pure (some (.i64 n), r)
      | 0xC7 => do
          let (v, r) ← next.readU64Le
          pure (some (unsignedToken v), r)
      | 0xCC | 0xCE => do
          let (f, r) ← next.readF64Le
          pure (some (.f64 f), r)
      | 0xD8 => do
          let (n, r) ← next.readI8
          pure (some (.i64 n.toInt64), r)
      | 0xDC => do
          let (n, r) ← next.readU32Le
          pure (some (.i64 (Int64.ofNat n.toNat)), r)
      | 0xCD => do
          let (f, r) ← next.readF32Le
          pure (some (.f64 f.toF64), r)
      -- UINT8 has no arm of its own and falls through to `Ok(None)`
      | _ => pure (none, r)
  | .systemString m =>
      match systemStringForMarker m with
      | some s => pure (some (.str s), next)
      | none => fail (.invalidMarker m offset)
  | .encodedLengthString len => do
      let (s, r) ← readStrSlice next len offset
      pure (some (.str s), r)
  | .lengthPrefixedString width => do
      let (len, r) ← next.readLen width
      let (s, r) ← readStrSlice r len offset
      pure (some (.str s), r)
  | _ => pure (none, r)

/-- The forms `read_value` decodes that the fast path leaves to it. -/
def TypeMarker.isDeferred : TypeMarker → Bool
  | .null | .false | .true | .literalInt _ | .number _ | .systemString _ | .encodedLengthString _
  | .lengthPrefixedString _ => Bool.false
  | _ => Bool.true

/-- What the deserializer does with the fast path's answer: feed the token, or fall back to
`read_value` at the cursor the fast path left. -/
def finishNative (fuel : Nat) (result : Option ScalarToken × Reader) : Read (Value × Reader) :=
  match result.1 with
  | some token => do
      let v ← token.value
      pure (v, result.2)
  | none => readValue fuel result.2 0

def readNativeOrValue (fuel : Nat) (r : Reader) : Read (Value × Reader) :=
  tryReadNativeScalar r >>= finishNative fuel

theorem readValue_of_peek {fuel : Nat} {r : Reader} {marker : UInt8} (peek : r.buf[r.pos]? = some marker)
    (leaf : (TypeMarker.ofByte marker).IsLeaf) :
    readValue (fuel + 1) r 0 = readLeafValue fuel (r.seek (r.pos + 1)) marker r.pos := by
  have holds : r.HoldsAt [marker] := by
    have inside : r.pos < r.buf.length := (List.getElem?_eq_some_iff.mp peek).1
    refine ⟨inside.le, ?_⟩
    rw [List.drop_eq_getElem_cons inside, (List.getElem?_eq_some_iff.mp peek).2]
    exact ⟨_, rfl⟩
  exact readValue_of_leaf holds (Nat.zero_le _) leaf

theorem intValue_toInt64_of_le {v : UInt64} (fits : v ≤ 0x7FFFFFFFFFFFFFFF) :
    intValue v.toInt64 = uintValue v := by
  rw [intValue_of_le fits]
  rfl

theorem unsignedToken_value (v : UInt64) : (unsignedToken v).value = .ok (uintValue v) := by
  unfold unsignedToken
  split_ifs with fits
  · simp only [ScalarToken.value, intValue_toInt64_of_le fits]
  · rfl

theorem native_bind {α : Type} (read : Read (α × Reader)) (token : α × Reader → ScalarToken)
    (value : α × Reader → Read Value) (means : ∀ x, (token x).value = value x) (fuel : Nat) :
    (read >>= fun x => pure (some (token x), x.2)) >>= finishNative fuel =
      read >>= fun x => value x >>= fun v => pure (v, x.2) := by
  rcases read with e | ⟨a, r⟩
  · rfl
  · simp only [ok_bind, pure_eq_ok, finishNative, means]

theorem native_bind_pure {α : Type} (read : Read (α × Reader)) (token : α × Reader → ScalarToken)
    (f : α × Reader → Value) (means : ∀ x, (token x).value = .ok (f x)) (fuel : Nat) :
    (read >>= fun x => pure (some (token x), x.2)) >>= finishNative fuel =
      read >>= fun x => pure (f x, x.2) := by
  rcases read with e | ⟨a, r⟩
  · rfl
  · simp only [ok_bind, pure_eq_ok, finishNative, means]

theorem readNativeOrValue_eq (fuel : Nat) (r : Reader) :
    readNativeOrValue (fuel + 2) r = readValue (fuel + 2) r 0 := by
  unfold readNativeOrValue tryReadNativeScalar
  cases peek : r.buf[r.pos]? with
  | none => simp [Reader.peekU8, peek, readValue, Reader.readU8]
  | some marker =>
      simp only [Reader.peekU8, peek, ok_bind]
      have leaf : ∀ {form : TypeMarker}, TypeMarker.ofByte marker = form → form.isDeferred = false →
          readValue (fuel + 2) r 0 = readLeafValue (fuel + 1) (r.seek (r.pos + 1)) marker r.pos := by
        intro form known native
        refine readValue_of_peek peek ?_
        rw [known]
        cases form <;> simp_all [TypeMarker.isDeferred, TypeMarker.IsLeaf]
      cases form : TypeMarker.ofByte marker
      case null | «false» | «true» | literalInt =>
        rw [leaf form rfl]
        simp only [readLeafValue, form]
        rfl
      case number m =>
        -- the arms the fast path lists read the payload as `read_number_value` does; the
        -- rest (UINT8) declines, and the fallback is the reference decoder itself
        dsimp only
        split
        all_goals first
          | rfl
          | rw [leaf form rfl]
            simp only [readLeafValue, form, readNumberValue]
            first
              | exact native_bind_pure _ _ _ (fun _ => rfl) _
              | exact native_bind_pure _ _ _ (fun x => unsignedToken_value x.1) _
              | exact native_bind _ _ _ (fun _ => rfl) _
      case systemString m =>
        rw [leaf form rfl]
        simp only [readLeafValue, form]
        cases known : systemStringForMarker m <;> simp [finishNative, ScalarToken.value, fail_bind]
      case encodedLengthString len =>
        rw [leaf form rfl]
        simp only [readLeafValue, form, readStrSlice]
        exact native_bind_pure _ _ _ (fun _ => rfl) _
      case lengthPrefixedString width =>
        rw [leaf form rfl]
        simp only [readLeafValue, form, readStrSlice]
        rcases (r.seek (r.pos + 1)).readLen width with e | ⟨len, r'⟩
        · rfl
        · simp only [ok_bind]
          exact native_bind_pure _ _ _ (fun _ => rfl) _
      all_goals rfl

set_option maxRecDepth 4000 in
theorem ofByte_number_table : ∀ n, n < 256 →
    (match TypeMarker.ofByte (UInt8.ofNat n) with
      | .number m => decide (m = UInt8.ofNat n ∧ (0xC7 ≤ m ∧ m ≤ 0xCE ∨ 0xD7 ≤ m ∧ m ≤ 0xDC))
      | _ => Bool.true) = Bool.true := by
  decide

theorem TypeMarker.ofByte_eq_number {marker m : UInt8} (form : TypeMarker.ofByte marker = .number m) :
    m = marker ∧ (0xC7 ≤ m ∧ m ≤ 0xCE ∨ 0xD7 ≤ m ∧ m ≤ 0xDC) := by
  have entry := ofByte_number_table marker.toNat marker.toNat_lt
  rw [UInt8.ofNat_toNat, form] at entry
  simpa using entry

theorem bind_token_ne_none {α : Type} (read : Read (α × Reader)) (token : α × Reader → ScalarToken)
    (r' : Reader) : (read >>= fun x => .ok (some (token x), x.2)) ≠ .ok (none, r') := by
  rcases read with e | x <;> simp [ok_bind, error_bind]

theorem tryReadNativeScalar_none {r r' : Reader} (declined : tryReadNativeScalar r = .ok (none, r')) :
    r' = r ∧ ∃ marker, r.buf[r.pos]? = some marker ∧
      ((TypeMarker.ofByte marker).isDeferred = Bool.true ∨ marker = Markers.uint8) := by
  unfold tryReadNativeScalar at declined
  cases peek : r.buf[r.pos]? with
  | none => simp [Reader.peekU8, peek, fail] at declined
  | some marker =>
      simp only [Reader.peekU8, peek, ok_bind] at declined
      cases form : TypeMarker.ofByte marker
      all_goals simp only [form] at declined
      all_goals try simp_all [TypeMarker.isDeferred]
      case systemString m =>
        cases known : systemStringForMarker m <;> simp [known, fail] at declined
      case encodedLengthString len => exact absurd declined (bind_token_ne_none _ _ _)
      case lengthPrefixedString width =>
        obtain ⟨x, -, inner⟩ := bind_eq_ok.mp declined
        exact absurd inner (bind_token_ne_none _ _ _)
      case number m =>
        obtain ⟨rfl, range⟩ := TypeMarker.ofByte_eq_number form
        split at declined
        all_goals first
          | exact absurd declined (bind_token_ne_none _ _ _)
          | skip
        -- the one number marker without an arm
        refine ⟨(Prod.mk.inj (Except.ok.inj declined)).2.symm, ?_⟩
        simp only [← UInt8.toNat_inj, UInt8.le_iff_toNat_le] at *
        simp only [Markers.uint8, UInt8.reduceToNat, imp_false] at *
        omega

theorem native_scalar_agrees_with_read_value (r : Reader) (fuel : Nat) :
    (∀ token r', tryReadNativeScalar r = .ok (some token, r') →
      readValue (fuel + 2) r 0 = (do let v ← token.value; pure (v, r'))) ∧
    (∀ r', tryReadNativeScalar r = .ok (none, r') →
      r' = r ∧ ∃ marker, r.buf[r.pos]? = some marker ∧
        ((TypeMarker.ofByte marker).isDeferred = Bool.true ∨ marker = Markers.uint8)) ∧
    (∀ e, tryReadNativeScalar r = .error e → readValue (fuel + 2) r 0 = .error e) := by
  refine ⟨fun token r' native => ?_, fun r' declined => tryReadNativeScalar_none declined,
    fun e failed => ?_⟩
  · rw [← readNativeOrValue_eq, readNativeOrValue, native, ok_bind]
    rfl
  · rw [← readNativeOrValue_eq, readNativeOrValue, failed]
    rfl

/-- Wherever `UINT8` and its byte stand, the fast path declines without moving, while
`read_value` reads the byte as an integer. -/
theorem native_scalar_declines_every_uint8 {r : Reader} {b : UInt8} {rest : List UInt8}
    (holds : r.HoldsAt (Markers.uint8 :: b :: rest)) (fuel : Nat) :
    tryReadNativeScalar r = .ok (none, r) ∧
      readValue (fuel + 2) r 0 = .ok (intValue (Int64.ofNat b.toNat), r.seek (r.pos + 2)) := by
  have form : TypeMarker.ofByte Markers.uint8 = .number Markers.uint8 := by decide
  refine ⟨?_, ?_⟩
  · simp only [tryReadNativeScalar, Reader.peekU8_of_holdsAt holds, ok_bind]
    rfl
  · rw [readValue_of_number holds (Nat.zero_le _) form]
    simp [readNumberValue, Markers.uint8, Reader.readU8_of_holdsAt (Reader.holdsAt_tail holds)]

theorem native_scalar_declines_uint8_five :
    (Reader.new [Markers.uint8, 5] 0).HoldsAt [Markers.uint8, 5] ∧
      tryReadNativeScalar (Reader.new [Markers.uint8, 5] 0) = .ok (none, Reader.new [Markers.uint8, 5] 0) ∧
      readValue 2 (Reader.new [Markers.uint8, 5] 0) 0 =
        .ok (intValue (Int64.ofNat (5 : UInt8).toNat), (Reader.new [Markers.uint8, 5] 0).seek 2) :=
  ⟨⟨by decide, List.prefix_refl _⟩,
    @native_scalar_declines_every_uint8 _ 5 [] ⟨by decide, List.prefix_refl _⟩ 0⟩

end CosmosDriver.BinaryJson
