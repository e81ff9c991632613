import Mathlib
import AzureSdk.Lib.Outcome
import AzureSdk.Lib.LittleEndian
import AzureSdk.Cosmos.Models.EffectivePartitionKey

/-!
# Computing effective partition keys and their ranges

`EffectivePartitionKey::compute` and `compute_range`. A MultiHash key is the
concatenation of one 16-byte hash per component, and `hash_v2_raw_bytes` clears the
top two bits of each hash's first byte. So a prefix's key is a prefix of every
completion's key, and the byte after it is at most `0x3F`: below the `0xFF` that
`prefix_range_end_bytes` appends. That is why `[prefix, prefix ++ FF)` holds every
completion, whatever the hash function.

MurmurHash3 and the V1 binary encoding are parameters (`Hashes`): nothing proved here
depends on them.
-/

namespace CosmosDriver

open Outcome

set_option autoImplicit false

inductive PartitionKeyKind where
  | hash
  | multiHash
  | range
  deriving DecidableEq, Repr

inductive PartitionKeyVersion where
  | v1
  | v2
  deriving DecidableEq, Repr

/-- `PartitionKeyDefinition`: only the number of paths matters to the range computation. -/
structure PartitionKeyDefinition where
  paths : List String
  kind : PartitionKeyKind
  version : PartitionKeyVersion

/-- `InnerPartitionKeyValue`; a finite `f64` is kept as its IEEE bits. -/
inductive PartitionKeyValue where
  | null
  | string (s : String)
  | number (bits : UInt64)
  | bool (b : Bool)
  | undefined
  | infinity
  deriving DecidableEq, Repr

namespace PartitionKeyValue

def isInfinity : PartitionKeyValue → Bool
  | .infinity => true
  | _ => false

def maxStringBytesToAppend : Nat := 100

/-- `write_for_hashing_core`: the type marker and the payload. -/
def writeForHashingCore (value : PartitionKeyValue) (stringSuffix : UInt8) (truncate : Bool) : List UInt8 :=
  match value with
  | .bool true => [0x03]
  | .bool false => [0x02]
  | .null => [0x01]
  | .number bits => 0x05 :: LittleEndian.bytes 8 bits.toNat
  | .string s =>
      let bytes := BinaryJson.utf8Bytes s
      let payload := if truncate && bytes.length > maxStringBytesToAppend then bytes.take maxStringBytesToAppend
        else bytes
      0x08 :: payload ++ [stringSuffix]
  | .infinity => [0xFF]
  | .undefined => [0x00]

def writeForHashingV2 (value : PartitionKeyValue) : List UInt8 := value.writeForHashingCore 0xFF false

end PartitionKeyValue

/-- The hash functions under `compute`: `murmurhash3_128(data, 0)` and the V1 binary
encoding `effective_partition_key_v1_binary`. -/
structure Hashes where
  murmurhash3128 : List UInt8 → Nat
  effectivePartitionKeyV1Binary : List PartitionKeyValue → List UInt8

/-- `hash_v2_raw_bytes`: the 128-bit hash, big-endian, with the top two bits of the first
byte cleared. -/
def hashV2RawBytes (hashes : Hashes) (data : List UInt8) : List UInt8 :=
  ((LittleEndian.bytes 16 (hashes.murmurhash3128 data)).reverse).modifyHead (· &&& 0x3F)

/-- `effective_partition_key_v2_binary`: one hash of all the components. -/
def effectivePartitionKeyV2Binary (hashes : Hashes) (pkValues : List PartitionKeyValue) : List UInt8 :=
  hashV2RawBytes hashes (pkValues.flatMap PartitionKeyValue.writeForHashingV2)

/-- `effective_partition_key_multi_hash_v2_binary`: one hash per component. -/
def effectivePartitionKeyMultiHashV2Binary (hashes : Hashes) (pkValues : List PartitionKeyValue) :
    List UInt8 :=
  pkValues.flatMap fun v => hashV2RawBytes hashes v.writeForHashingV2

def prefixRangeEndBytes (bytes : List UInt8) : List UInt8 := bytes ++ [0xFF]

/-- The errors of `compute_range`, by status. -/
inductive ComputeRangeError where
  | invokedWithEmptyPartitionKey
  | partitionKeyTooManyComponents (components paths : Nat)
  | nonMultihashPartitionKeyArityMismatch (components paths : Nat)
  deriving DecidableEq, Repr

/-- The messages of the `compute_range` errors. -/
def ComputeRangeError.message : ComputeRangeError → String
  | .invokedWithEmptyPartitionKey => "compute_range called with empty pk_values"
  | .partitionKeyTooManyComponents components paths =>
      "more partition key components (" ++ toString components ++ ") than definition paths (" ++
        toString paths ++ ")"
  | .nonMultihashPartitionKeyArityMismatch components paths =>
      "non-MultiHash containers require exactly as many components (" ++ toString components ++
        ") as paths (" ++ toString paths ++ ")"

namespace EffectivePartitionKey

/-- `EffectivePartitionKey::compute`; the `assert!` that MultiHash is V2 panics. -/
def compute {ε : Type} (hashes : Hashes) (pkValues : List PartitionKeyValue) (kind : PartitionKeyKind)
    (version : PartitionKeyVersion) : Run ε EffectivePartitionKey :=
  if pkValues.isEmpty then .ok min
  else if pkValues.length = 1 ∧ pkValues.head?.any PartitionKeyValue.isInfinity then .ok max
  else do
    let bytes ← match kind with
      | .hash =>
          match version with
          | .v1 => pure (hashes.effectivePartitionKeyV1Binary pkValues)
          | .v2 => pure (effectivePartitionKeyV2Binary hashes pkValues)
      | .multiHash =>
          if version = .v2 then pure (effectivePartitionKeyMultiHashV2Binary hashes pkValues) else panic
      | .range => pure (effectivePartitionKeyV2Binary hashes pkValues)
    pure ⟨bytes⟩

/-- `EffectivePartitionKey::compute_range`, the range as `(start, end)`. -/
def computeRange (hashes : Hashes) (pkValues : List PartitionKeyValue) (pkDefinition : PartitionKeyDefinition) :
    Run ComputeRangeError (EffectivePartitionKey × EffectivePartitionKey) :=
  if pkValues.isEmpty then fail .invokedWithEmptyPartitionKey
  else if pkValues.length > pkDefinition.paths.length then
    fail (.partitionKeyTooManyComponents pkValues.length pkDefinition.paths.length)
  else do
    let kind := pkDefinition.kind
    let version := pkDefinition.version
    let epk ← compute hashes pkValues kind version
    let isPrefix := kind == .multiHash && pkValues.length < pkDefinition.paths.length
    if kind ≠ .multiHash ∧ pkValues.length ≠ pkDefinition.paths.length then
      fail (.nonMultihashPartitionKeyArityMismatch pkValues.length pkDefinition.paths.length)
    else if isPrefix then pure (epk, ⟨prefixRangeEndBytes epk.bytes⟩)
    else pure (epk, epk)

end EffectivePartitionKey

/-! ## The shape of a MultiHash key -/

theorem hashV2RawBytes_head (hashes : Hashes) (data : List UInt8) :
    ∃ first rest, hashV2RawBytes hashes data = first :: rest ∧ first ≤ 0x3F := by
  cases bytes : (LittleEndian.bytes 16 (hashes.murmurhash3128 data)).reverse with
  | nil =>
      have := congrArg List.length bytes
      simp at this
  | cons first rest =>
      refine ⟨first &&& 0x3F, rest, by simp [hashV2RawBytes, bytes], ?_⟩
      exact UInt8.and_le_right

theorem multiHash_append (hashes : Hashes) (front back : List PartitionKeyValue) :
    effectivePartitionKeyMultiHashV2Binary hashes (front ++ back) =
      effectivePartitionKeyMultiHashV2Binary hashes front ++ effectivePartitionKeyMultiHashV2Binary hashes back := by
  simp [effectivePartitionKeyMultiHashV2Binary]

theorem multiHash_head (hashes : Hashes) {pkValues : List PartitionKeyValue} (nonempty : pkValues ≠ []) :
    ∃ first rest, effectivePartitionKeyMultiHashV2Binary hashes pkValues = first :: rest ∧ first ≤ 0x3F := by
  obtain ⟨v, others, rfl⟩ := List.exists_cons_of_ne_nil nonempty
  obtain ⟨first, rest, hashed, masked⟩ := hashV2RawBytes_head hashes v.writeForHashingV2
  refine ⟨first, rest ++ effectivePartitionKeyMultiHashV2Binary hashes others, ?_, masked⟩
  simp [effectivePartitionKeyMultiHashV2Binary, hashed]

namespace EffectivePartitionKey

theorem compute_multiHash {ε : Type} (hashes : Hashes) {pkValues : List PartitionKeyValue} (nonempty : pkValues ≠ [])
    (notInfinity : ¬ (pkValues.length = 1 ∧ pkValues.head?.any PartitionKeyValue.isInfinity)) :
    (compute hashes pkValues .multiHash .v2 : Run ε EffectivePartitionKey) =
      .ok ⟨effectivePartitionKeyMultiHashV2Binary hashes pkValues⟩ := by
  have notEmpty : pkValues.isEmpty = false := by simpa using nonempty
  simp only [compute, notEmpty, Bool.false_eq_true, if_false, notInfinity, if_true, pure_eq_ok, ok_bind]

theorem compute_multiHash_ok {ε : Type} (hashes : Hashes) (pkValues : List PartitionKeyValue) :
    ∃ epk, (compute hashes pkValues .multiHash .v2 : Run ε EffectivePartitionKey) = .ok epk := by
  simp only [compute]
  split_ifs <;> simp

theorem computeRange_multiHash (hashes : Hashes) {pkValues : List PartitionKeyValue}
    {pkDefinition : PartitionKeyDefinition} (multiHash : pkDefinition.kind = .multiHash)
    (v2 : pkDefinition.version = .v2) (nonempty : pkValues ≠ []) (fits : pkValues.length ≤ pkDefinition.paths.length) :
    ∃ epk, (compute hashes pkValues .multiHash .v2 : Run ComputeRangeError EffectivePartitionKey) = .ok epk ∧
      computeRange hashes pkValues pkDefinition =
        .ok (epk, if pkValues.length < pkDefinition.paths.length then ⟨prefixRangeEndBytes epk.bytes⟩ else epk) := by
  obtain ⟨epk, computed⟩ := compute_multiHash_ok (ε := ComputeRangeError) hashes pkValues
  have notEmpty : pkValues.isEmpty = false := by simpa using nonempty
  have notTooMany : ¬ pkValues.length > pkDefinition.paths.length := by omega
  refine ⟨epk, computed, ?_⟩
  simp only [computeRange, notEmpty, Bool.false_eq_true, if_false, notTooMany, multiHash, v2, computed,
    ok_bind, ne_eq, not_true_eq_false, false_and, beq_self_eq_true, Bool.true_and, decide_eq_true_eq]
  split_ifs <;> rfl

/-! ## Comparing keys with a common start -/

theorem cmp_append_left (common xs ys : List UInt8) : cmp ⟨common ++ xs⟩ ⟨common ++ ys⟩ = cmp ⟨xs⟩ ⟨ys⟩ := by
  induction common with
  | nil => rfl
  | cons x rest induction => rw [List.cons_append, List.cons_append, cmp_cons_cons, Std.compare_self, induction]; rfl

theorem le_append (bytes more : List UInt8) : (⟨bytes⟩ : EffectivePartitionKey) ≤ ⟨bytes ++ more⟩ := by
  have start := cmp_append_left bytes [] more
  rw [List.append_nil] at start
  rw [le_iff_cmp, start, cmp_nil_left]
  split <;> decide

theorem append_lt_prefixRangeEnd (bytes rest : List UInt8) {first : UInt8} (masked : first ≤ 0x3F) :
    (⟨bytes ++ first :: rest⟩ : EffectivePartitionKey) < ⟨prefixRangeEndBytes bytes⟩ := by
  have small : first.toNat ≤ 0x3F := UInt8.le_iff_toNat_le.mp masked
  have below : compare first 0xFF = .lt := Std.compare_eq_lt.mpr (UInt8.lt_iff_toNat_lt.mpr (by simp; omega))
  rw [lt_iff_cmp, prefixRangeEndBytes, cmp_append_left, cmp_cons_cons, below]
  rfl

/-! ## Prefix ranges hold every completion -/

theorem not_lone_infinity {pkValues : List PartitionKeyValue} (finite : ∀ v ∈ pkValues, v ≠ .infinity) :
    ¬ (pkValues.length = 1 ∧ pkValues.head?.any PartitionKeyValue.isInfinity) := by
  rintro ⟨-, lone⟩
  cases pkValues with
  | nil => simp at lone
  | cons v rest =>
      have notInfinite := finite v List.mem_cons_self
      cases v <;> simp_all [PartitionKeyValue.isInfinity]

theorem prefix_range_contains_completions (hashes : Hashes) (pkDefinition : PartitionKeyDefinition)
    (multiHash : pkDefinition.kind = .multiHash) (v2 : pkDefinition.version = .v2) :
    (∀ p f : List PartitionKeyValue, 1 ≤ p.length → p.length < pkDefinition.paths.length →
      (∀ v ∈ p, v ≠ .infinity) → f.length = pkDefinition.paths.length → f.take p.length = p →
      ∃ start stop e, computeRange hashes p pkDefinition = .ok (start, stop) ∧
        (compute hashes f pkDefinition.kind pkDefinition.version : Run ComputeRangeError EffectivePartitionKey) =
          .ok e ∧ start ≤ e ∧ e < stop) ∧
    ∀ f : List PartitionKeyValue, f.length = pkDefinition.paths.length → f ≠ [] →
      ∃ e, (compute hashes f pkDefinition.kind pkDefinition.version : Run ComputeRangeError EffectivePartitionKey) =
          .ok e ∧ computeRange hashes f pkDefinition = .ok (e, e) := by
  rw [multiHash, v2]
  refine ⟨fun p f short prefixShort finite full completes => ?_, fun f full nonempty => ?_⟩
  · have nonemptyPrefix : p ≠ [] := List.ne_nil_of_length_pos short
    obtain ⟨epk, computed, ranged⟩ := computeRange_multiHash hashes multiHash v2 nonemptyPrefix (by omega)
    rw [compute_multiHash hashes nonemptyPrefix (not_lone_infinity finite)] at computed
    cases computed
    rw [if_pos prefixShort] at ranged
    -- the completion is the prefix followed by at least one more component
    have split := List.take_append_drop p.length f
    rw [completes] at split
    obtain ⟨rest, rfl⟩ : ∃ rest, f = p ++ rest := ⟨f.drop p.length, split.symm⟩
    have nonemptyRest : rest ≠ [] := by
      rintro rfl
      simp at full
      omega
    have notLone : ¬ ((p ++ rest).length = 1 ∧ (p ++ rest).head?.any PartitionKeyValue.isInfinity) := by
      rintro ⟨single, -⟩
      simp only [List.length_append] at single
      have := List.length_pos_of_ne_nil nonemptyRest
      omega
    obtain ⟨first, more, hashed, masked⟩ := multiHash_head hashes nonemptyRest
    refine ⟨_, _, _, ranged, compute_multiHash hashes (by simp [nonemptyPrefix]) notLone, ?_, ?_⟩
    · rw [multiHash_append]
      exact le_append _ _
    · rw [multiHash_append, hashed]
      exact append_lt_prefixRangeEnd _ _ masked
  · obtain ⟨e, computed, ranged⟩ := computeRange_multiHash hashes multiHash v2 nonempty (le_of_eq full)
    refine ⟨e, computed, ?_⟩
    rw [ranged, if_neg (by omega)]

/-- A MultiHash definition with no paths has only the empty key as a full key, and
`compute_range` refuses it (whatever the hash functions; here constant ones). -/
theorem computeRange_refuses_empty_full_key :
    computeRange ⟨fun _ => 0, fun _ => []⟩ [] ⟨[], .multiHash, .v2⟩ = fail .invokedWithEmptyPartitionKey := rfl

theorem prefix_range_contains_completion_of_two_paths :
    ∃ start stop e,
      computeRange ⟨fun _ => 0, fun _ => []⟩ [.string "a"] ⟨["/a", "/b"], .multiHash, .v2⟩ = .ok (start, stop) ∧
      (compute ⟨fun _ => 0, fun _ => []⟩ [.string "a", .bool true] .multiHash .v2 :
        Run ComputeRangeError EffectivePartitionKey) = .ok e ∧ start ≤ e ∧ e < stop :=
  (prefix_range_contains_completions ⟨fun _ => 0, fun _ => []⟩ ⟨["/a", "/b"], .multiHash, .v2⟩ rfl rfl).1
    [.string "a"] [.string "a", .bool true] (by decide) (by decide) (by decide) rfl rfl

end EffectivePartitionKey

end CosmosDriver
