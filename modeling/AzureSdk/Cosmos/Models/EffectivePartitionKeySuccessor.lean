import Mathlib
import AzureSdk.Lib.BigEndian
import AzureSdk.Cosmos.Models.EffectivePartitionKey
import AzureSdk.Cosmos.BinaryJson.Reader

/-!
# The successor of an effective partition key

`successor` and `normalized_successor` turn a closed point `[X, X]` into the half-open
window `[X, successor(X))`. Both go through `increment_be`, a big-endian increment at
the width of the bytes it is given, written out as uppercase hex and parsed back.

Read as numbers (`BigEndian.value`), keys of one width are ordered as their values,
and trailing zeros change neither the order nor equality; so once `x` is zero-extended
to a width `L`, the increment is the least key above `x` among all keys of at most `L`
bytes. The one key this fails for is the empty one at width zero: its successor is
`00`, which the padding-insensitive order makes equal to `MIN` itself.
-/

namespace CosmosDriver

open BinaryJson

set_option autoImplicit false

/-- `bytes_to_hex_upper`: every byte as `{:02X}`. -/
def bytesToHexUpper (bytes : List UInt8) : String :=
  String.ofList (bytes.flatMap (hexDigits CompressionTable.uppercaseHex.chars))

namespace EffectivePartitionKey

/-- The loop of `increment_be` over `(0..i).rev()`: the right-most byte that is not `0xFF`
is incremented, the `0xFF` bytes passed on the way are zeroed; `none` when the loop ends
without returning. -/
def carry (bytes : List UInt8) : Nat → Option (List UInt8)
  | 0 => none
  | i + 1 =>
      if bytes.getD i 0 != 0xFF then some (bytes.set i (bytes.getD i 0 + 1))
      else carry (bytes.set i 0) i

def incrementBe (bytes : List UInt8) : EffectivePartitionKey :=
  if bytes.isEmpty then fromStr "00"
  else
    match carry bytes bytes.length with
    | some bumped => fromStr (bytesToHexUpper bumped)
    | none => max

def successor (k : EffectivePartitionKey) : EffectivePartitionKey := incrementBe k.bytes

/-- `normalized_successor`: the increment after `resize(normalized_len_bytes, 0x00)` of a
shorter key. -/
def normalizedSuccessor (k : EffectivePartitionKey) (normalizedLenBytes : Nat) : EffectivePartitionKey :=
  let bytes :=
    if k.bytes.length < normalizedLenBytes then
      k.bytes ++ List.replicate (normalizedLenBytes - k.bytes.length) 0
    else k.bytes
  incrementBe bytes

end EffectivePartitionKey

/-! ## The hex text reads back as the bytes -/

theorem utf8Bytes_ofList_of_ascii (cs : List Char) (ascii : ∀ c ∈ cs, c.val ≤ 127) :
    utf8Bytes (String.ofList cs) = cs.map fun c => c.val.toUInt8 := by
  have each : cs.flatMap String.utf8EncodeChar = cs.map fun c => c.val.toUInt8 := by
    induction cs with
    | nil => rfl
    | cons c rest induction =>
        rw [List.flatMap_cons, List.map_cons,
          induction (fun d member => ascii d (List.mem_cons_of_mem _ member)),
          String.utf8EncodeChar_eq_singleton (Char.utf8Size_eq_one_iff.mpr (ascii c List.mem_cons_self))]
        rfl
  simp only [utf8Bytes, String.toByteArray_ofList, List.utf8Encode, each]
  exact List.toList_data_toByteArray

theorem hexNibble_uppercaseHex : ∀ d : Fin 16,
    hexNibble (CompressionTable.uppercaseHex.chars.get d) = some (UInt8.ofNat d) := by
  decide

theorem nibbles_join (b : UInt8) : (UInt8.ofNat (b.toNat / 16) <<< 4) ||| UInt8.ofNat (b.toNat % 16) = b := by
  apply UInt8.toNat_inj.mp
  have high : b.toNat / 16 < 256 := by have := b.toNat_lt; omega
  have low : b.toNat % 16 < 2 ^ 4 := Nat.mod_lt _ (by decide)
  have shifted : b.toNat / 16 * 2 ^ 4 % 2 ^ 8 = 2 ^ 4 * (b.toNat / 16) := by have := b.toNat_lt; omega
  rw [UInt8.toNat_or, UInt8.toNat_shiftLeft]
  simp only [UInt8.toNat_ofNat', Nat.mod_eq_of_lt high, Nat.mod_eq_of_lt (show b.toNat % 16 < 256 by omega)]
  rw [show (4 : UInt8).toNat % 8 = 4 from rfl, Nat.shiftLeft_eq, shifted, ← Nat.two_pow_add_eq_or_of_lt low]
  omega

theorem pairs_flatMap (f g : UInt8 → UInt8) (bytes : List UInt8) :
    pairs (bytes.flatMap fun b => [f b, g b]) = bytes.map fun b => (f b, g b) := by
  induction bytes with
  | nil => rfl
  | cons b rest induction => simp [pairs, induction]

theorem ofUInt8_val_toUInt8 (x : UInt8) : (Char.ofUInt8 x).val.toUInt8 = x := by
  simp [Char.ofUInt8]

theorem hexToBytes_bytesToHexUpper (bytes : List UInt8) : hexToBytes (bytesToHexUpper bytes) = bytes := by
  -- the digits are ASCII, so the text's bytes are the table entries themselves
  have digits : ∀ d : Fin 16, (Char.ofUInt8 (CompressionTable.uppercaseHex.chars.get d)).val ≤ 127 := by
    decide
  have ascii : ∀ c ∈ bytes.flatMap (hexDigits CompressionTable.uppercaseHex.chars), c.val ≤ 127 := by
    intro c member
    simp only [List.mem_flatMap, hexDigits, List.mem_cons, List.not_mem_nil, or_false] at member
    obtain ⟨b, -, rfl | rfl⟩ := member <;> exact digits _
  rw [hexToBytes, bytesToHexUpper, utf8Bytes_ofList_of_ascii _ ascii, List.map_flatMap]
  simp only [hexDigits, List.map_cons, List.map_nil, ofUInt8_val_toUInt8]
  rw [pairs_flatMap]
  induction bytes with
  | nil => rfl
  | cons b rest induction =>
      simp only [List.map_cons, hexPrefix, hexByte, hexNibble_uppercaseHex]
      simp only [Option.bind_eq_bind, Option.bind_some, Option.pure_def, nibbles_join]
      exact congrArg (b :: ·) (induction (fun c member => ascii c (List.mem_append_right _ member)))

namespace EffectivePartitionKey

theorem fromStr_bytesToHexUpper (bytes : List UInt8) : fromStr (bytesToHexUpper bytes) = ⟨bytes⟩ := by
  rw [fromStr, hexToBytes_bytesToHexUpper]

/-! ## The carry is the increment of the big-endian value -/

theorem carry_eq (front : List UInt8) (k : Nat) :
    carry (front ++ List.replicate k 0) front.length =
      if BigEndian.value front + 1 < 256 ^ front.length then
        some (BigEndian.bytes front.length (BigEndian.value front + 1) ++ List.replicate k 0)
      else none := by
  induction front using List.reverseRecOn generalizing k with
  | nil => simp [carry]
  | append_singleton front last induction =>
      have whole : BigEndian.value (front ++ [last]) = BigEndian.value front * 256 + last.toNat := by
        simp [BigEndian.value_append]
      have digit := last.toNat_lt
      have shape : front ++ [last] ++ List.replicate k 0 = front ++ last :: List.replicate k 0 := by simp
      rw [List.length_append, List.length_singleton, carry, shape, whole]
      simp only [List.getD_eq_getElem?_getD, List.getElem?_append_right (Nat.le_refl _), Nat.sub_self,
        List.getElem?_cons_zero, Option.getD_some, List.set_append_right _ _ (Nat.le_refl _),
        List.set_cons_zero]
      by_cases top : last = 0xFF
      · -- an `0xFF` byte is zeroed and the carry moves one byte left
        subst top
        have topNat : (0xFF : UInt8).toNat = 255 := rfl
        have zeroed : front ++ 0 :: List.replicate k 0 = front ++ List.replicate (k + 1) 0 := rfl
        have widened : BigEndian.value front * 256 + 255 + 1 < 256 ^ (front.length + 1) ↔
            BigEndian.value front + 1 < 256 ^ front.length := by
          rw [pow_succ]
          omega
        have next : BigEndian.bytes (front.length + 1) (BigEndian.value front * 256 + 255 + 1) =
            BigEndian.bytes front.length (BigEndian.value front + 1) ++ [0] := by
          rw [BigEndian.bytes, show BigEndian.value front * 256 + 255 + 1 = (BigEndian.value front + 1) * 256 by ring,
            Nat.mul_div_cancel _ (by decide)]
          congr 2
          apply UInt8.toNat_inj.mp
          simp
        simp only [bne_self_eq_false, Bool.false_eq_true, if_false, zeroed, induction, topNat, widened, next,
          List.append_assoc, List.singleton_append, List.replicate_succ]
      · -- the first byte that is not `0xFF` takes the increment
        have bumped : (last != 0xFF) = true := by simpa using top
        have room : last.toNat + 1 < 256 := by
          have : last.toNat ≠ 255 := fun same => top (UInt8.toNat_inj.mp (by simpa using same))
          omega
        have fits : BigEndian.value front * 256 + last.toNat + 1 < 256 ^ (front.length + 1) := by
          have := BigEndian.value_lt front
          rw [pow_succ]
          omega
        have next : BigEndian.bytes (front.length + 1) (BigEndian.value front * 256 + last.toNat + 1) =
            front ++ [last + 1] := by
          have high : (BigEndian.value front * 256 + last.toNat + 1) / 256 = BigEndian.value front := by omega
          have low : UInt8.ofNat (BigEndian.value front * 256 + last.toNat + 1) = last + 1 := by
            apply UInt8.toNat_inj.mp
            simp only [UInt8.toNat_ofNat', UInt8.toNat_add, UInt8.reduceToNat]
            omega
          rw [BigEndian.bytes, high, BigEndian.bytes_value, low]
        simp only [bumped, if_true, fits, next, List.append_assoc, List.singleton_append]

theorem incrementBe_eq {bytes : List UInt8} (nonempty : bytes ≠ []) (notTop : ∃ x ∈ bytes, x ≠ 0xFF) :
    incrementBe bytes = ⟨BigEndian.bytes bytes.length (BigEndian.value bytes + 1)⟩ := by
  have loop := carry_eq bytes 0
  rw [if_pos ((BigEndian.value_add_one_lt_iff bytes).mpr notTop)] at loop
  simp only [List.replicate_zero, List.append_nil] at loop
  simp only [incrementBe, List.isEmpty_iff, nonempty, if_false, loop, fromStr_bytesToHexUpper]

theorem normalizedSuccessor_eq (k : EffectivePartitionKey) (width : Nat) :
    k.normalizedSuccessor width = incrementBe (k.bytes ++ List.replicate (width - k.bytes.length) 0) := by
  by_cases shorter : k.bytes.length < width
  · simp [normalizedSuccessor, shorter]
  · simp [normalizedSuccessor, shorter, Nat.sub_eq_zero_of_le (Nat.le_of_not_lt shorter)]

theorem successor_eq_normalizedSuccessor_zero (k : EffectivePartitionKey) :
    k.successor = k.normalizedSuccessor 0 := by
  simp [successor, normalizedSuccessor]

/-! ## Keys of one width are ordered as numbers -/

theorem cmp_of_length_eq {xs ys : List UInt8} (same : xs.length = ys.length) :
    cmp ⟨xs⟩ ⟨ys⟩ = compare (BigEndian.value xs) (BigEndian.value ys) := by
  induction xs generalizing ys with
  | nil =>
      rw [List.length_nil, eq_comm, List.length_eq_zero_iff] at same
      subst same
      rfl
  | cons x xs induction =>
      cases ys with
      | nil => simp at same
      | cons y ys =>
          have rest : xs.length = ys.length := by simpa using same
          rw [cmp_cons_cons, induction rest, BigEndian.compare_value_cons x y rest]

theorem canonicalBytes_append_zeros (bytes : List UInt8) (k : Nat) :
    canonicalBytes ⟨bytes ++ List.replicate k 0⟩ = canonicalBytes ⟨bytes⟩ := by
  have zeros : Padding.strip 0 (List.replicate k (0 : UInt8)) = [] :=
    (Padding.strip_eq_nil_iff 0 _).mpr fun _ member => List.eq_of_mem_replicate member
  simp only [canonicalBytes, canonicalSlice_eq_strip, Padding.strip_append, zeros, if_true]

theorem cmp_append_zeros (a b : List UInt8) (k l : Nat) :
    cmp ⟨a ++ List.replicate k 0⟩ ⟨b ++ List.replicate l 0⟩ = cmp ⟨a⟩ ⟨b⟩ := by
  rw [cmp_eq_compare_canonicalBytes, cmp_eq_compare_canonicalBytes, canonicalBytes_append_zeros,
    canonicalBytes_append_zeros]

theorem cmp_eq_compare_padded {a b : List UInt8} {width : Nat} (left : a.length ≤ width) (right : b.length ≤ width) :
    cmp ⟨a⟩ ⟨b⟩ = compare (BigEndian.value (a ++ List.replicate (width - a.length) 0))
      (BigEndian.value (b ++ List.replicate (width - b.length) 0)) := by
  rw [← cmp_append_zeros a b (width - a.length) (width - b.length)]
  exact cmp_of_length_eq (by simp; omega)

/-! ## The increment is the least key above -/

section Tight

variable {k : EffectivePartitionKey} {width : Nat}

theorem padded_not_top (wide : 0 < Max.max k.bytes.length width)
    (notTop : ¬ (k.bytes ≠ [] ∧ ∀ x ∈ k.bytes, x = 0xFF)) :
    ∃ x ∈ k.bytes ++ List.replicate (width - k.bytes.length) 0, x ≠ 0xFF := by
  by_cases below : k.bytes.length < width
  · exact ⟨0, List.mem_append_right _ (List.mem_replicate.mpr ⟨by omega, rfl⟩), by decide⟩
  · have nonempty : k.bytes ≠ [] := by
      intro empty
      simp [empty] at wide below
      omega
    push Not at notTop
    obtain ⟨x, member, notFF⟩ := notTop nonempty
    exact ⟨x, List.mem_append_left _ member, notFF⟩

theorem normalizedSuccessor_tight (wide : 0 < Max.max k.bytes.length width)
    (notTop : ¬ (k.bytes ≠ [] ∧ ∀ x ∈ k.bytes, x = 0xFF)) :
    k < k.normalizedSuccessor width ∧ ∀ y : EffectivePartitionKey, y.bytes.length ≤ Max.max k.bytes.length width →
      (k < y ↔ k.normalizedSuccessor width ≤ y) := by
  set padded := k.bytes ++ List.replicate (width - k.bytes.length) 0
  have paddedLength : padded.length = Max.max k.bytes.length width := by simp [padded]; omega
  have fits := (BigEndian.value_add_one_lt_iff padded).mpr (padded_not_top wide notTop)
  have nonempty : padded ≠ [] := by
    intro empty
    rw [empty, List.length_nil] at paddedLength
    omega
  -- the successor is `value padded + 1` written at the width
  have next : k.normalizedSuccessor width = ⟨BigEndian.bytes padded.length (BigEndian.value padded + 1)⟩ := by
    rw [normalizedSuccessor_eq, incrementBe_eq nonempty (padded_not_top wide notTop)]
  have nextValue : BigEndian.value (BigEndian.bytes padded.length (BigEndian.value padded + 1)) =
      BigEndian.value padded + 1 := by
    rw [BigEndian.value_bytes, Nat.mod_eq_of_lt fits]
  -- compare everything at the padded width
  have keyFits : k.bytes.length ≤ padded.length := by simp [padded]
  have nextFits : (BigEndian.bytes padded.length (BigEndian.value padded + 1)).length ≤ padded.length := by simp
  have sameAsPadded : padded = k.bytes ++ List.replicate (padded.length - k.bytes.length) 0 := by
    simp only [padded, List.length_append, List.length_replicate]
    congr 2
    omega
  have nextPadded : BigEndian.bytes padded.length (BigEndian.value padded + 1) =
      BigEndian.bytes padded.length (BigEndian.value padded + 1) ++
        List.replicate (padded.length - (BigEndian.bytes padded.length (BigEndian.value padded + 1)).length) 0 := by
    simp
  refine ⟨?_, fun y short => ?_⟩
  · rw [next, lt_iff_cmp, cmp_eq_compare_padded keyFits nextFits, ← sameAsPadded, ← nextPadded, nextValue]
    exact compare_lt_iff_lt.mpr (Nat.lt_succ_self _)
  · have fitsY : y.bytes.length ≤ padded.length := paddedLength ▸ short
    have keyOrder := cmp_eq_compare_padded keyFits fitsY
    have nextOrder := cmp_eq_compare_padded nextFits fitsY
    rw [← sameAsPadded] at keyOrder
    rw [← nextPadded, nextValue] at nextOrder
    rw [next, lt_iff_cmp, le_iff_cmp, keyOrder, nextOrder, Ne, compare_gt_iff_gt, compare_lt_iff_lt]
    omega

end Tight

theorem normalizedSuccessor_congr {a b : EffectivePartitionKey} {width : Nat} (same : a.eq b = true)
    (left : a.bytes.length ≤ width) (right : b.bytes.length ≤ width) :
    a.normalizedSuccessor width = b.normalizedSuccessor width := by
  have order := cmp_eq_compare_padded left right
  rw [(eq_iff_cmp_eq a b).mp same, eq_comm, compare_eq_iff_eq] at order
  have lengths : (a.bytes ++ List.replicate (width - a.bytes.length) 0).length =
      (b.bytes ++ List.replicate (width - b.bytes.length) 0).length := by simp; omega
  have padded : a.bytes ++ List.replicate (width - a.bytes.length) 0 =
      b.bytes ++ List.replicate (width - b.bytes.length) 0 := by
    rw [← BigEndian.bytes_value (a.bytes ++ _), ← BigEndian.bytes_value (b.bytes ++ _), lengths, order]
  rw [normalizedSuccessor_eq, normalizedSuccessor_eq, padded]

theorem normalizedSuccessor_is_least_above :
    (∀ (k : EffectivePartitionKey) (width : Nat), 0 < Max.max k.bytes.length width →
      ¬ (k.bytes ≠ [] ∧ ∀ x ∈ k.bytes, x = 0xFF) →
      k < k.normalizedSuccessor width ∧ ∀ y : EffectivePartitionKey, y.bytes.length ≤ Max.max k.bytes.length width →
        (k < y ↔ k.normalizedSuccessor width ≤ y)) ∧
    (∀ k : EffectivePartitionKey, k.successor = k.normalizedSuccessor 0) ∧
    ∀ (a b : EffectivePartitionKey) (width : Nat), a.eq b = true → a.bytes.length ≤ width →
      b.bytes.length ≤ width → a.normalizedSuccessor width = b.normalizedSuccessor width :=
  ⟨fun _ _ wide notTop => normalizedSuccessor_tight wide notTop, successor_eq_normalizedSuccessor_zero,
    fun _ _ _ same left right => normalizedSuccessor_congr same left right⟩

theorem normalizedSuccessor_of_3A_is_least_above :
    (⟨[0x3A]⟩ : EffectivePartitionKey) < (⟨[0x3A]⟩ : EffectivePartitionKey).normalizedSuccessor 16 ∧
      ∀ y : EffectivePartitionKey, y.bytes.length ≤ Max.max 1 16 →
        ((⟨[0x3A]⟩ : EffectivePartitionKey) < y ↔ (⟨[0x3A]⟩ : EffectivePartitionKey).normalizedSuccessor 16 ≤ y) :=
  normalizedSuccessor_is_least_above.1 ⟨[0x3A]⟩ 16 (by decide) (by decide)

end EffectivePartitionKey

end CosmosDriver
