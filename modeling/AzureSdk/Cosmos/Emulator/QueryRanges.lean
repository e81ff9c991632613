import AzureSdk.Cosmos.Query.PlanSoundness
import AzureSdk.Cosmos.Dataflow.Planner

/-!
# The query ranges of a partition key filter

`handle_query_plan` answers with the EPK ranges that `query_ranges_from_pk_filter` computes
from the plan's filter: for each tuple, `compute_range` of its values as
`model_partition_key_values` converts them; none for a contradiction, and the whole key
space when the filter does not bound the key.

`query_ranges_hold_every_admitted_key`: on a V2 container, a stored key of full length that
the filter admits has its EPK in one of the ranges. The tuple's values are the key's first
components: strings, booleans and null as they are, numbers because `new_lossy` gives
doubles of one value one encoding, so both zeros and the integer and float spellings of a
number hash alike. A tuple as long as the key gives the point `[epk, epk]`; a shorter one, on
a MultiHash container, the prefix range. The whole space `[MIN, MAX)` holds every V2 key,
whose first byte has its top two bits cleared.
-/

namespace CosmosDriver

set_option autoImplicit false

namespace EffectivePartitionKey

def toHex (k : EffectivePartitionKey) : String := bytesToHexUpper k.bytes

theorem fromStr_toHex (k : EffectivePartitionKey) : fromStr k.toHex = k := fromStr_bytesToHexUpper k.bytes

end EffectivePartitionKey

namespace QueryRange

/-- The keys a query range holds, its bounds read back by `from_str`. -/
def Contains (range : QueryRange) (epk : EffectivePartitionKey) : Prop :=
  (if range.isMinInclusive then EffectivePartitionKey.fromStr range.min ≤ epk
    else EffectivePartitionKey.fromStr range.min < epk) ∧
  (if range.isMaxInclusive then epk ≤ EffectivePartitionKey.fromStr range.max
    else epk < EffectivePartitionKey.fromStr range.max)

end QueryRange

namespace Emulator

open Binary64 (F64)
open Outcome
open EffectivePartitionKey (compute computeRange)

/-- One value of `model_partition_key_values`; `PartitionKeyValue::from(f64)` is
`new_strict`, which panics on a double that is not finite. -/
def modelPartitionKeyValue : Query.PartitionKeyValue → Run String PartitionKeyValue
  | .string s => .ok (.string s)
  | .number n => if n.isFinite then .ok (pkNumber n) else panic
  | .bool b => .ok (.bool b)
  | .null => .ok .null
  | .undefined => .ok .undefined
  | .unboundParameter name => fail ("query plan partition key filter references unbound parameter @" ++ name)
  | .invalidParameter name reason =>
      fail ("query plan partition key filter parameter @" ++ name ++ " is invalid: " ++ reason)

def modelPartitionKeyValues (values : List Query.PartitionKeyValue) : Run String (List PartitionKeyValue) :=
  values.mapM modelPartitionKeyValue

/-- A `compute_range` error as the `CosmosError` that `?` passes on: its message. -/
def rangeError {α : Type} : Run ComputeRangeError α → Run String α
  | .ok a => .ok a
  | .error (.error e) => fail e.message
  | .error .panic => panic
  | .error .outOfFuel => outOfFuel

/-- `epk_range_to_query_range`: both ends inclusive. -/
def epkRangeToQueryRange (range : EffectivePartitionKey × EffectivePartitionKey) : QueryRange :=
  ⟨range.1.toHex, range.2.toHex, true, true⟩

def fullQueryRange : QueryRange :=
  ⟨EffectivePartitionKey.min.toHex, EffectivePartitionKey.max.toHex, true, false⟩

/-- The range of one tuple, as both arms of `query_ranges_from_pk_filter` compute it. -/
def tupleQueryRange (hashes : Hashes) (values : List Query.PartitionKeyValue)
    (pkDefinition : PartitionKeyDefinition) : Run String QueryRange := do
  let values ← modelPartitionKeyValues values
  let range ← rangeError (computeRange hashes values pkDefinition)
  pure (epkRangeToQueryRange range)

def queryRangesFromPkFilter (hashes : Hashes) (filter : Query.PartitionKeyFilter)
    (pkDefinition : PartitionKeyDefinition) : Run String (List QueryRange) :=
  match filter with
  | .equality values => do
      let range ← tupleQueryRange hashes values pkDefinition
      pure [range]
  | .inList valueSets => valueSets.mapM fun values => tupleQueryRange hashes values pkDefinition
  | .contradictory => pure []
  | .unconstrained => pure [fullQueryRange]
  | .notEvaluated => pure [fullQueryRange]

/-! ## The tuple's values are the key's -/

open Query (admitsComponent admitsTuple)

theorem modelPartitionKeyValue_eq {p : Query.PartitionKeyValue} {m k : PartitionKeyValue}
    (converted : modelPartitionKeyValue p = .ok m) (admitted : admitsComponent p k = true)
    (stored : StoredComponent k) : m = k := by
  cases p with
  | number x =>
    cases stored with
    | number bits canonical =>
      by_cases finite : x.isFinite = true
      · rw [modelPartitionKeyValue, if_pos finite] at converted
        cases converted
        -- equal doubles are stored alike, and the stored one is its own image
        have same := FiniteF64.newLossy_eq_of_beq (show (F64.mk bits).beq x = true from admitted)
        rw [pkNumber, ← same, canonical]
      · rw [modelPartitionKeyValue, if_neg finite] at converted
        cases converted
    | _ => simp [admitsComponent] at admitted
  | unboundParameter name => simp [modelPartitionKeyValue, fail] at converted
  | invalidParameter name reason => simp [modelPartitionKeyValue, fail] at converted
  | _ =>
    simp only [modelPartitionKeyValue, Except.ok.injEq] at converted
    subst converted
    cases stored <;> simp_all [admitsComponent]

theorem modelPartitionKeyValues_eq_take {tuple : List Query.PartitionKeyValue} {values : List PartitionKeyValue}
    (converted : modelPartitionKeyValues tuple = .ok values) :
    ∀ {key : List PartitionKeyValue}, admitsTuple tuple key = true → (∀ k ∈ key, StoredComponent k) →
      values = key.take tuple.length := by
  have pairs := Except.mapM_eq_ok_iff.mp converted
  clear converted
  induction pairs with
  | nil => simp
  | @cons p m ps ms first rest induction =>
    intro key admitted stored
    cases key with
    | nil => simp [admitsTuple] at admitted
    | cons k ks =>
      simp only [admitsTuple, Bool.and_eq_true] at admitted
      have here := modelPartitionKeyValue_eq first admitted.1 (stored k List.mem_cons_self)
      have later := induction admitted.2 fun c member => stored c (List.mem_cons_of_mem _ member)
      rw [here, later, List.length_cons, List.take_succ_cons]

/-! ## `compute_range` and the key's EPK -/

theorem computeRange_eq_ok {hashes : Hashes} {values : List PartitionKeyValue}
    {pkDefinition : PartitionKeyDefinition} {range : EffectivePartitionKey × EffectivePartitionKey}
    (ranged : computeRange hashes values pkDefinition = .ok range) :
    values ≠ [] ∧ values.length ≤ pkDefinition.paths.length ∧
      (pkDefinition.kind = .multiHash ∨ values.length = pkDefinition.paths.length) ∧
      ∃ epk, (compute hashes values pkDefinition.kind pkDefinition.version : Run ComputeRangeError EffectivePartitionKey) =
        .ok epk ∧
        range = (epk, if pkDefinition.kind = .multiHash ∧ values.length < pkDefinition.paths.length then
          ⟨prefixRangeEndBytes epk.bytes⟩ else epk) := by
  unfold computeRange at ranged
  split at ranged
  · cases ranged
  · rename_i nonempty
    split at ranged
    · cases ranged
    · rename_i fits
      obtain ⟨epk, computed, shaped⟩ := Outcome.bind_eq_ok.mp ranged
      refine ⟨by simpa using nonempty, by omega, ?_, epk, computed, ?_⟩ <;> dsimp only at shaped <;>
        split at shaped
      · cases shaped
      · rename_i arity
        by_cases multiHash : pkDefinition.kind = .multiHash
        · exact .inl multiHash
        · exact .inr (by simpa [multiHash] using arity)
      · cases shaped
      · split at shaped
        · rename_i isPrefix
          simp only [Bool.and_eq_true, beq_iff_eq, decide_eq_true_eq] at isPrefix
          rw [if_pos isPrefix]
          exact (Except.ok.inj shaped).symm
        · rename_i notPrefix
          simp only [Bool.and_eq_true, beq_iff_eq, decide_eq_true_eq] at notPrefix
          rw [if_neg notPrefix]
          exact (Except.ok.inj shaped).symm

theorem ne_infinity_of_stored {k : PartitionKeyValue} (stored : StoredComponent k) : k ≠ .infinity := by
  cases stored <;> simp

theorem compute_v2_lt_max (hashes : Hashes) (kind : PartitionKeyKind) {key : List PartitionKeyValue}
    (finite : ∀ k ∈ key, k ≠ .infinity) :
    ∃ epk, (compute hashes key kind .v2 : Run ComputeRangeError EffectivePartitionKey) = .ok epk ∧
      epk < EffectivePartitionKey.max := by
  have headBelow : ∀ (first : UInt8) (rest : List UInt8), first ≤ 0x3F →
      (⟨first :: rest⟩ : EffectivePartitionKey) < EffectivePartitionKey.max := by
    intro first rest masked
    have small : first.toNat ≤ 0x3F := UInt8.le_iff_toNat_le.mp masked
    have below : compare first 0xFF = .lt := Std.compare_eq_lt.mpr (UInt8.lt_iff_toNat_lt.mpr (by simp; omega))
    rw [EffectivePartitionKey.lt_iff_cmp, EffectivePartitionKey.max, EffectivePartitionKey.cmp_cons_cons, below]
    rfl
  by_cases empty : key = []
  · subst empty
    exact ⟨EffectivePartitionKey.min, rfl, by decide⟩
  · have notEmpty : key.isEmpty = false := by simpa using empty
    have notLone := EffectivePartitionKey.not_lone_infinity finite
    simp only [compute, notEmpty, Bool.false_eq_true, if_false, notLone, if_true]
    cases kind with
    | multiHash =>
      obtain ⟨first, rest, hashed, masked⟩ := multiHash_head hashes empty
      exact ⟨_, rfl, by rw [hashed]; exact headBelow first rest masked⟩
    | hash | range =>
      obtain ⟨first, rest, hashed, masked⟩ := hashV2RawBytes_head hashes (key.flatMap PartitionKeyValue.writeForHashingV2)
      exact ⟨_, rfl, by rw [effectivePartitionKeyV2Binary, hashed]; exact headBelow first rest masked⟩

theorem exists_compute_within_range {hashes : Hashes} {pkDefinition : PartitionKeyDefinition}
    {key : List PartitionKeyValue} {n : Nat} {start stop : EffectivePartitionKey}
    (v2 : pkDefinition.version = .v2) (full : key.length = pkDefinition.paths.length)
    (stored : ∀ k ∈ key, StoredComponent k)
    (ranged : computeRange hashes (key.take n) pkDefinition = .ok (start, stop)) :
    ∃ epk, (compute hashes key pkDefinition.kind pkDefinition.version : Run ComputeRangeError EffectivePartitionKey) =
        .ok epk ∧ start ≤ epk ∧ epk ≤ stop := by
  obtain ⟨nonempty, fits, shape, epk, computed, range⟩ := computeRange_eq_ok ranged
  have finite : ∀ k ∈ key, k ≠ .infinity := fun k member => ne_infinity_of_stored (stored k member)
  by_cases whole : n < key.length
  · -- a proper prefix: only a MultiHash container accepts it, with the prefix range
    have shorter : (key.take n).length < pkDefinition.paths.length := by simp; omega
    have multiHash : pkDefinition.kind = .multiHash := shape.resolve_right (by omega)
    rw [if_pos ⟨multiHash, shorter⟩, Prod.mk.injEq] at range
    obtain ⟨rfl, rfl⟩ := range
    rw [multiHash, v2] at computed ⊢
    rw [EffectivePartitionKey.compute_multiHash hashes nonempty
      (EffectivePartitionKey.not_lone_infinity fun k member => finite k (List.mem_of_mem_take member))] at computed
    cases computed
    have rest : key.drop n ≠ [] := by simp; omega
    obtain ⟨first, more, hashed, masked⟩ := multiHash_head hashes rest
    have keyNonempty : key ≠ [] := fun empty => nonempty (by simp [empty])
    have keyed : effectivePartitionKeyMultiHashV2Binary hashes key =
        effectivePartitionKeyMultiHashV2Binary hashes (key.take n) ++ first :: more := by
      rw [← hashed, ← multiHash_append, List.take_append_drop]
    refine ⟨_, EffectivePartitionKey.compute_multiHash hashes keyNonempty
      (EffectivePartitionKey.not_lone_infinity finite), ?_, ?_⟩
    · rw [keyed]
      exact EffectivePartitionKey.le_append _ _
    · rw [keyed]
      exact le_of_lt (EffectivePartitionKey.append_lt_prefixRangeEnd _ _ masked)
  · -- the whole key: the point range of its own EPK
    rw [List.take_of_length_le (by omega)] at computed range
    rw [if_neg (by omega), Prod.mk.injEq] at range
    obtain ⟨rfl, rfl⟩ := range
    exact ⟨_, computed, le_refl _, le_refl _⟩

/-! ## Every admitted key lies in a range -/

theorem contains_epkRangeToQueryRange {start stop epk : EffectivePartitionKey} (above : start ≤ epk)
    (below : epk ≤ stop) : (epkRangeToQueryRange (start, stop)).Contains epk := by
  simp only [QueryRange.Contains, epkRangeToQueryRange, if_true, EffectivePartitionKey.fromStr_toHex]
  exact ⟨above, below⟩

theorem contains_fullQueryRange {epk : EffectivePartitionKey} (below : epk < EffectivePartitionKey.max) :
    fullQueryRange.Contains epk := by
  simp only [QueryRange.Contains, fullQueryRange, if_true, Bool.false_eq_true, if_false,
    EffectivePartitionKey.fromStr_toHex]
  exact ⟨EffectivePartitionKey.min_le epk, below⟩

theorem rangeError_eq_ok {α : Type} {run : Run ComputeRangeError α} {a : α} (converted : rangeError run = .ok a) :
    run = .ok a := by
  unfold rangeError at converted
  split at converted
  · cases converted
    rfl
  all_goals cases converted

theorem tupleQueryRange_contains {hashes : Hashes} {pkDefinition : PartitionKeyDefinition}
    {tuple : List Query.PartitionKeyValue} {range : QueryRange} {key : List PartitionKeyValue}
    (v2 : pkDefinition.version = .v2) (full : key.length = pkDefinition.paths.length)
    (stored : ∀ k ∈ key, StoredComponent k) (computed : tupleQueryRange hashes tuple pkDefinition = .ok range)
    (admitted : admitsTuple tuple key = true) :
    ∃ epk, (compute hashes key pkDefinition.kind pkDefinition.version : Run ComputeRangeError EffectivePartitionKey) =
        .ok epk ∧ range.Contains epk := by
  obtain ⟨values, converted, afterValues⟩ := Outcome.bind_eq_ok.mp computed
  obtain ⟨⟨start, stop⟩, ranged, built⟩ := Outcome.bind_eq_ok.mp afterValues
  cases built
  rw [modelPartitionKeyValues_eq_take converted admitted stored] at ranged
  obtain ⟨epk, keyed, above, below⟩ := exists_compute_within_range v2 full stored (rangeError_eq_ok ranged)
  exact ⟨epk, keyed, contains_epkRangeToQueryRange above below⟩

/-- On a V2 container, every stored key of full length that a filter admits has its EPK in
one of the query ranges of the filter. -/
theorem query_ranges_hold_every_admitted_key (hashes : Hashes) (filter : Query.PartitionKeyFilter)
    (pkDefinition : PartitionKeyDefinition) {ranges : List QueryRange} {key : List PartitionKeyValue}
    (v2 : pkDefinition.version = .v2) (full : key.length = pkDefinition.paths.length)
    (stored : ∀ k ∈ key, StoredComponent k) (computed : queryRangesFromPkFilter hashes filter pkDefinition = .ok ranges)
    (admitted : filter.admits key = true) :
    ∃ epk, (compute hashes key pkDefinition.kind pkDefinition.version : Run ComputeRangeError EffectivePartitionKey) =
        .ok epk ∧ ∃ range ∈ ranges, range.Contains epk := by
  have wholeSpace : ∃ epk, (compute hashes key pkDefinition.kind pkDefinition.version : Run ComputeRangeError EffectivePartitionKey) =
        .ok epk ∧
      fullQueryRange.Contains epk := by
    obtain ⟨epk, keyed, below⟩ :=
      compute_v2_lt_max hashes pkDefinition.kind fun k member => ne_infinity_of_stored (stored k member)
    exact ⟨epk, v2 ▸ keyed, contains_fullQueryRange below⟩
  cases filter with
  | equality values =>
    obtain ⟨range, tupleComputed, listed⟩ := Outcome.bind_eq_ok.mp computed
    cases listed
    obtain ⟨epk, keyed, contained⟩ := tupleQueryRange_contains v2 full stored tupleComputed admitted
    exact ⟨epk, keyed, range, List.mem_singleton_self _, contained⟩
  | inList valueSets =>
    obtain ⟨tuple, member, tupleAdmitted⟩ := List.any_eq_true.mp admitted
    obtain ⟨range, inRanges, tupleComputed⟩ := (Except.mapM_eq_ok_iff.mp computed).exists_of_mem_left member
    obtain ⟨epk, keyed, contained⟩ := tupleQueryRange_contains v2 full stored tupleComputed tupleAdmitted
    exact ⟨epk, keyed, range, inRanges, contained⟩
  | contradictory => cases admitted
  | unconstrained | notEvaluated =>
    cases computed
    obtain ⟨epk, keyed, contained⟩ := wholeSpace
    exact ⟨epk, keyed, fullQueryRange, List.mem_singleton_self _, contained⟩

/-- `WHERE c.pk = -0.0` on a V2 hash container keyed by `/pk` routes to the document stored
with `pk = 0`: both zeros are stored as `+0.0` (constant hashes). -/
theorem query_ranges_hold_zero_key :
    (⟨["/pk"], .hash, .v2⟩ : PartitionKeyDefinition).version = .v2 ∧
      [PartitionKeyValue.number 0].length = (⟨["/pk"], .hash, .v2⟩ : PartitionKeyDefinition).paths.length ∧
      (∀ k ∈ [PartitionKeyValue.number 0], StoredComponent k) ∧
      queryRangesFromPkFilter ⟨fun _ => 0, fun _ => []⟩ (.equality [.number ⟨0x8000000000000000⟩])
          ⟨["/pk"], .hash, .v2⟩ = .ok [⟨"00000000000000000000000000000000", "00000000000000000000000000000000", true, true⟩] ∧
      (Query.PartitionKeyFilter.equality [.number ⟨0x8000000000000000⟩]).admits [.number 0] = true ∧
      ∃ epk, (compute ⟨fun _ => 0, fun _ => []⟩ [.number 0] .hash .v2 : Run ComputeRangeError EffectivePartitionKey) =
          .ok epk ∧ ∃ range ∈ [(⟨"00000000000000000000000000000000", "00000000000000000000000000000000", true, true⟩ : QueryRange)], range.Contains epk := by
  have stored : ∀ k ∈ [PartitionKeyValue.number 0], StoredComponent k := by
    intro k member
    rw [List.mem_singleton.mp member]
    exact .number 0 (by decide)
  have computed : queryRangesFromPkFilter ⟨fun _ => 0, fun _ => []⟩ (.equality [.number ⟨0x8000000000000000⟩])
      ⟨["/pk"], .hash, .v2⟩ = .ok [⟨"00000000000000000000000000000000", "00000000000000000000000000000000", true, true⟩] := by
    rfl
  exact ⟨rfl, rfl, stored, computed, by decide,
    query_ranges_hold_every_admitted_key ⟨fun _ => 0, fun _ => []⟩ (.equality [.number ⟨0x8000000000000000⟩])
      ⟨["/pk"], .hash, .v2⟩ rfl rfl stored computed (by decide)⟩

end Emulator

end CosmosDriver
