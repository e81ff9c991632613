import Mathlib
import AzureSdk.Lib.IntervalCover
import AzureSdk.Cosmos.Models.EffectivePartitionKeySuccessor

/-!
# Feed ranges in the query planner

`feed_range.rs` and the two range helpers of `planner.rs`. `query_range_to_feed_range`
turns a closed point `[X, X]` into `[X, successor(X))`; read with the successor's
tightness, that window holds exactly the keys equal to `X` among the keys that fit the
width. `range_fully_covered` sorts the pieces by their lower bounds and sweeps them with
a cursor, which is `IntervalCover.step`; over the padding-insensitive total preorder of
keys the sweep decides coverage.
-/

namespace CosmosDriver

open EffectivePartitionKey

set_option autoImplicit false

/-- `FeedRange`: the keys `[min_inclusive, max_exclusive)`. Every constructor of the crate
(`new`, `full`, `for_partition`, `from_json`, `TryFrom<&PartitionKeyRange>`) refuses
`min_inclusive > max_exclusive` or never builds it, so the bound is part of the type. -/
structure FeedRange where
  minInclusive : EffectivePartitionKey
  maxExclusive : EffectivePartitionKey
  ordered : minInclusive ≤ maxExclusive

namespace FeedRange

/-- `FeedRange::new`: refused with `BadRequest` and this message when the bounds cross. -/
def new (minInclusive maxExclusive : EffectivePartitionKey) : Except String FeedRange :=
  if crossed : minInclusive > maxExclusive then
    .error "feed range min_inclusive must be less than or equal to max_exclusive"
  else .ok ⟨minInclusive, maxExclusive, IntervalCover.le_of_not_lt' le_total crossed⟩

def full : FeedRange := ⟨min, max, min_le max⟩

def isSubsetOf (self other : FeedRange) : Bool :=
  decide (other.minInclusive ≤ self.minInclusive) && decide (other.maxExclusive ≥ self.maxExclusive)

def Contains (range : FeedRange) (e : EffectivePartitionKey) : Prop :=
  range.minInclusive ≤ e ∧ e < range.maxExclusive

theorem new_eq_ok {minInclusive maxExclusive : EffectivePartitionKey} (ordered : minInclusive ≤ maxExclusive) :
    new minInclusive maxExclusive = .ok ⟨minInclusive, maxExclusive, ordered⟩ := by
  have notCrossed : ¬ minInclusive > maxExclusive := not_lt_of_ge ordered
  simp only [new, notCrossed, dite_false]

end FeedRange

/-- `QueryRange`: the bounds as hex text, with their inclusivity. -/
structure QueryRange where
  min : String
  max : String
  isMinInclusive : Bool
  isMaxInclusive : Bool

/-- `query_range_to_feed_range`: only a closed point `[X, X]` is changed, into
`[X, successor(X))`, at the full key width when it is known. -/
def queryRangeToFeedRange (queryRange : QueryRange) (normalizedLen : Option Nat) : Except String FeedRange :=
  let min := fromStr queryRange.min
  let max := fromStr queryRange.max
  let max :=
    if queryRange.isMaxInclusive && min == max then
      match normalizedLen with
      | some len => max.normalizedSuccessor len
      | none => max.successor
    else max
  FeedRange.new min max

/-- `range_fully_covered`. The `debug_assert!` that every piece lies in `range` is left out:
it checks the caller's side of the contract and is compiled out of release builds. -/
def rangeFullyCovered (range : FeedRange) (pieces : List FeedRange) : Bool :=
  if pieces.isEmpty then false
  else
    let sorted := pieces.mergeSort fun a b => a.minInclusive.cmp b.minInclusive != .gt
    let swept := sorted.foldlM (fun cursor piece =>
      if piece.minInclusive > cursor then none
      else some (if piece.maxExclusive > cursor then piece.maxExclusive else cursor)) range.minInclusive
    match swept with
    | some cursor => decide (cursor ≥ range.maxExclusive)
    | none => false

/-! ## Point windows -/

theorem queryRangeToFeedRange_point (s : String) (isMinInclusive : Bool) (normalizedLen : Option Nat) :
    queryRangeToFeedRange ⟨s, s, isMinInclusive, true⟩ normalizedLen =
      FeedRange.new (fromStr s) ((fromStr s).normalizedSuccessor (normalizedLen.getD 0)) := by
  have same : (fromStr s == fromStr s) = true := (eq_iff_cmp_eq _ _).mpr (cmp_self _)
  cases normalizedLen with
  | none => simp only [queryRangeToFeedRange, same, Bool.and_self, if_true, Option.getD_none,
      successor_eq_normalizedSuccessor_zero]
  | some len => simp only [queryRangeToFeedRange, same, Bool.and_self, if_true, Option.getD_some]

theorem point_window_is_its_key (s : String) (isMinInclusive : Bool) (normalizedLen : Option Nat)
    (wide : 0 < Max.max (fromStr s).bytes.length (normalizedLen.getD 0))
    (notTop : ¬ ((fromStr s).bytes ≠ [] ∧ ∀ x ∈ (fromStr s).bytes, x = 0xFF)) :
    ∃ window, queryRangeToFeedRange ⟨s, s, isMinInclusive, true⟩ normalizedLen = .ok window ∧
      window.minInclusive = fromStr s ∧
      ∀ y : EffectivePartitionKey, y.bytes.length ≤ Max.max (fromStr s).bytes.length (normalizedLen.getD 0) →
        (window.Contains y ↔ y.eq (fromStr s) = true) := by
  obtain ⟨above, least⟩ := normalizedSuccessor_tight wide notTop
  refine ⟨_, by rw [queryRangeToFeedRange_point, FeedRange.new_eq_ok (le_of_lt above)], rfl, fun y short => ?_⟩
  -- below the successor means not above the point
  have below : y < (fromStr s).normalizedSuccessor (normalizedLen.getD 0) ↔ y ≤ fromStr s := by
    rw [lt_iff_not_le, ← least y short, lt_iff_not_le, not_not]
  rw [FeedRange.Contains, below, eq_iff_cmp_eq, cmp_eq_iff_antisymmRel]
  exact and_comm

theorem point_window_of_30 :
    ∃ window, queryRangeToFeedRange ⟨"30", "30", true, true⟩ none = .ok window ∧
      window.minInclusive = fromStr "30" ∧
      ∀ y : EffectivePartitionKey, y.bytes.length ≤ Max.max (fromStr "30").bytes.length ((none : Option Nat).getD 0) →
        (window.Contains y ↔ y.eq (fromStr "30") = true) :=
  point_window_is_its_key "30" true none (by decide) (by decide)

/-- The empty point `[MIN, MIN]` of a container of unknown width becomes `[MIN, 00)`,
which holds no key. -/
theorem successor_of_min_is_not_above_min :
    min.successor = ⟨[0]⟩ ∧ min.successor.eq min = true ∧
      ∃ window, queryRangeToFeedRange ⟨"", "", true, true⟩ none = .ok window ∧
        ∀ y : EffectivePartitionKey, ¬ window.Contains y := by
  have zero : min.successor = ⟨[0]⟩ := by decide
  have minText : fromStr "" = min := by decide
  refine ⟨zero, by rw [zero]; decide, ?_⟩
  have window := queryRangeToFeedRange_point "" true none
  rw [minText, Option.getD_none, ← successor_eq_normalizedSuccessor_zero,
    FeedRange.new_eq_ok (min_le min.successor)] at window
  refine ⟨_, window, ?_⟩
  rintro y ⟨atLeast, below⟩
  -- `00` is `MIN` padded by one zero, so `y < 00` would put `y` below `MIN`
  have padded : y.cmp ⟨[0]⟩ = y.cmp min := by
    obtain ⟨bytes⟩ := y
    simpa [EffectivePartitionKey.min] using cmp_append_zeros bytes [] 0 1
  dsimp only at atLeast below
  rw [lt_iff_cmp, zero, padded] at below
  rw [le_iff_cmp, EffectivePartitionKey.cmp_swap, below] at atLeast
  exact atLeast rfl

/-! ## Coverage -/

theorem rangeFullyCovered_eq (range : FeedRange) {pieces : List FeedRange} (nonempty : pieces ≠ []) :
    rangeFullyCovered range pieces = true ↔
      ∃ cursor, (pieces.mergeSort fun a b => a.minInclusive.cmp b.minInclusive != .gt).foldlM
        (IntervalCover.step FeedRange.minInclusive FeedRange.maxExclusive) range.minInclusive = some cursor ∧
        range.maxExclusive ≤ cursor := by
  have notEmpty : pieces.isEmpty = false := by simpa using nonempty
  have sweep : (fun cursor piece => if piece.minInclusive > cursor then none
      else some (if piece.maxExclusive > cursor then piece.maxExclusive else cursor)) =
      IntervalCover.step FeedRange.minInclusive FeedRange.maxExclusive := rfl
  simp only [rangeFullyCovered, notEmpty, Bool.false_eq_true, if_false, sweep]
  cases (pieces.mergeSort fun a b => a.minInclusive.cmp b.minInclusive != .gt).foldlM
    (IntervalCover.step FeedRange.minInclusive FeedRange.maxExclusive) range.minInclusive with
  | none => simp
  | some cursor => simp

theorem sorted_mergeSort_minInclusive (pieces : List FeedRange) :
    (pieces.mergeSort fun a b => a.minInclusive.cmp b.minInclusive != .gt).Pairwise
      fun a b => a.minInclusive ≤ b.minInclusive := by
  have sorted := @List.pairwise_mergeSort FeedRange (fun a b => a.minInclusive.cmp b.minInclusive != .gt)
    (fun a b c first second => by
      simp only [bne_iff_ne, ne_eq] at first second ⊢
      exact cmp_le_trans first second)
    (fun a b => by
      simp only [bne_iff_ne, ne_eq, Bool.or_eq_true]
      exact le_total a.minInclusive b.minInclusive)
    pieces
  refine sorted.imp fun below => ?_
  simp only [bne_iff_ne, ne_eq] at below
  exact below

theorem range_fully_covered_iff_covered (range : FeedRange) (pieces : List FeedRange) (nonempty : pieces ≠ [])
    (contained : ∀ piece ∈ pieces, piece.isSubsetOf range = true) :
    rangeFullyCovered range pieces = true ↔
      ∀ e : EffectivePartitionKey, range.Contains e → ∃ piece ∈ pieces, piece.Contains e := by
  rw [rangeFullyCovered_eq range nonempty]
  -- every piece starts at or before the end of `range`
  have bounded : ∀ piece ∈ pieces.mergeSort (fun a b => a.minInclusive.cmp b.minInclusive != .gt),
      piece.minInclusive ≤ range.maxExclusive := by
    intro piece member
    have inside := contained piece (List.mem_mergeSort.mp member)
    simp only [FeedRange.isSubsetOf, Bool.and_eq_true, decide_eq_true_eq] at inside
    exact le_trans piece.ordered inside.2
  rw [IntervalCover.sweep_iff_covers le_total (sorted_mergeSort_minInclusive pieces) bounded]
  simp only [IntervalCover.Covers, FeedRange.Contains, List.mem_mergeSort, and_imp]

theorem range_fully_covered_two_halves :
    ([⟨min, ⟨[0x80]⟩, by decide⟩, ⟨⟨[0x80]⟩, max, by decide⟩] : List FeedRange) ≠ [] ∧
      (∀ piece ∈ ([⟨min, ⟨[0x80]⟩, by decide⟩, ⟨⟨[0x80]⟩, max, by decide⟩] : List FeedRange),
        piece.isSubsetOf FeedRange.full = true) ∧
      (rangeFullyCovered FeedRange.full [⟨min, ⟨[0x80]⟩, by decide⟩, ⟨⟨[0x80]⟩, max, by decide⟩] = true ↔
        ∀ e : EffectivePartitionKey, FeedRange.full.Contains e →
          ∃ piece ∈ ([⟨min, ⟨[0x80]⟩, by decide⟩, ⟨⟨[0x80]⟩, max, by decide⟩] : List FeedRange),
            piece.Contains e) :=
  have nonempty : ([⟨min, ⟨[0x80]⟩, by decide⟩, ⟨⟨[0x80]⟩, max, by decide⟩] : List FeedRange) ≠ [] := by simp
  have contained : ∀ piece ∈ ([⟨min, ⟨[0x80]⟩, by decide⟩, ⟨⟨[0x80]⟩, max, by decide⟩] : List FeedRange),
      piece.isSubsetOf FeedRange.full = true := by decide
  ⟨nonempty, contained, range_fully_covered_iff_covered _ _ nonempty contained⟩

end CosmosDriver
