import Mathlib
import AzureSdk.Lib.Binary64
import AzureSdk.Lib.LexOrder

/-!
# The numbers of a cross-partition ORDER BY

`OrderByNumber` keeps a JSON number as the `i64`, `u64` or `f64` it was parsed as, and
`OrderByNumber::cmp` compares across the three without a lossy cast. Each number gets an
integer `key`: an integer times `2^1074`, and a double by `Binary64.F64.key`, its value
times `2^1074` with the NaNs past the numbers of their sign. All nine cases of `cmp` are
the comparison of keys, so `cmp` is a total preorder; on finite numbers the key is the
exact value times `2^1074`, so `cmp` is the order of the values.

The `f64` operations of `cmp_i64_f64` and `cmp_u64_f64` are read exactly: the comparisons
with the constants `2^63`, `-2^63`, `2^64` and `0.0` are IEEE comparisons of doubles, and
`b.floor()` is the integer `⌊b⌋`, itself a double where those functions take it.
-/

namespace CosmosDriver.OrderBy

open Binary64

set_option autoImplicit false

/-- `cmp_f64`: `partial_cmp`, falling back to `total_cmp` for a NaN. -/
def cmpF64 (a b : F64) : Ordering := (a.partialCmp b).getD (a.totalCmp b)

def cmpI64U64 (a : Int64) (b : UInt64) : Ordering :=
  if a < 0 then .lt else compare a.toUInt64 b

def twoPow63 : F64 := ⟨0x43E0000000000000⟩

/-- `-TWO_POW_63`. -/
def negTwoPow63 : F64 := ⟨0xC3E0000000000000⟩

def twoPow64 : F64 := ⟨0x43F0000000000000⟩

def zero : F64 := ⟨0⟩

def floorOf (b : F64) : Int := b.ordinal / 2 ^ 1074

/-- The tail shared by `cmp_i64_f64` and `cmp_u64_f64`: `a` against `floor as _`, a tie
broken by the fractional part of `b` (`Ordering::Equal if b > floor => Ordering::Less`). -/
def tieOnFloor (order : Ordering) (b : F64) : Ordering :=
  match order with
  | .eq => if floorOf b * 2 ^ 1074 < b.ordinal then .lt else .eq
  | other => other

def cmpI64F64 (a : Int64) (b : F64) : Ordering :=
  if b.isNaN then (if b.isSignNegative then .gt else .lt)
  else if twoPow63.le b then .lt
  else if b.lt negTwoPow63 then .gt
  else tieOnFloor (compare a (floorOf b).toInt64) b

def cmpU64F64 (a : UInt64) (b : F64) : Ordering :=
  if b.isNaN then (if b.isSignNegative then .gt else .lt)
  else if b.lt zero then .gt
  else if twoPow64.le b then .lt
  else tieOnFloor (compare a (floorOf b).toNat.toUInt64) b

inductive OrderByNumber where
  | i64 (a : Int64)
  | u64 (a : UInt64)
  | f64 (a : F64)
  deriving DecidableEq, Repr

namespace OrderByNumber

/-- `Ord for OrderByNumber`. -/
def cmp : OrderByNumber → OrderByNumber → Ordering
  | .i64 a, .i64 b => compare a b
  | .u64 a, .u64 b => compare a b
  | .f64 a, .f64 b => cmpF64 a b
  | .i64 a, .u64 b => cmpI64U64 a b
  | .u64 a, .i64 b => (cmpI64U64 b a).swap
  | .i64 a, .f64 b => cmpI64F64 a b
  | .f64 a, .i64 b => (cmpI64F64 b a).swap
  | .u64 a, .f64 b => cmpU64F64 a b
  | .f64 a, .u64 b => (cmpU64F64 b a).swap

/-- The value a number stands for, times `2^1074`, with the NaNs placed by `total_cmp`. -/
def key : OrderByNumber → Int
  | .i64 a => a.toInt * 2 ^ 1074
  | .u64 a => a.toNat * 2 ^ 1074
  | .f64 a => a.key

def toRat : OrderByNumber → ℚ
  | .i64 a => a.toInt
  | .u64 a => a.toNat
  | .f64 a => a.toRat

def isFinite : OrderByNumber → Bool
  | .f64 a => a.isFinite
  | _ => true

end OrderByNumber

/-! ## Comparisons of integers -/

theorem compare_int64 (a b : Int64) : compare a b = compare a.toInt b.toInt := by
  simp only [compare, compareOfLessAndEq, Int64.lt_iff_toInt_lt, Int64.toInt_inj]

theorem compare_uint64 (a b : UInt64) : compare a b = compare (a.toNat : Int) b.toNat := by
  rw [UInt64.compare_eq_toNat_compare_toNat, ← cmp_eq_compare, ← cmp_eq_compare, Nat.strictMono_cast.cmp_map_eq]

theorem compare_scaled (a b : Int) : compare (a * 2 ^ 1074) (b * 2 ^ 1074) = compare a b := by
  rw [← cmp_eq_compare, ← cmp_eq_compare, cmp_mul_pos_right (by positivity)]

theorem swap_compare (a b : Int) : (compare a b).swap = compare b a :=
  ((LexOrder.lawful_compare a).swap b).symm

/-! ## The constants -/

theorem twoPow63_ordinal : twoPow63.ordinal = 2 ^ 63 * 2 ^ 1074 := by decide +kernel

theorem negTwoPow63_ordinal : negTwoPow63.ordinal = -(2 ^ 63 * 2 ^ 1074) := by decide +kernel

theorem twoPow64_ordinal : twoPow64.ordinal = 2 ^ 64 * 2 ^ 1074 := by decide +kernel

theorem zero_ordinal : zero.ordinal = 0 := by decide +kernel

theorem constants_not_isNaN :
    twoPow63.isNaN = false ∧ negTwoPow63.isNaN = false ∧ twoPow64.isNaN = false ∧ zero.isNaN = false := by
  decide +kernel

/-! ## The floor step -/

theorem tieOnFloor_compare (n : Int) (b : F64) :
    tieOnFloor (compare n (floorOf b)) b = compare (n * 2 ^ 1074) b.ordinal := by
  have below : floorOf b * 2 ^ 1074 ≤ b.ordinal := Int.ediv_mul_le _ (by positivity)
  have above : b.ordinal < (floorOf b + 1) * 2 ^ 1074 := Int.lt_ediv_add_one_mul_self _ (by positivity)
  rcases lt_trichotomy n (floorOf b) with smaller | same | larger
  · have scaled : n * 2 ^ 1074 < floorOf b * 2 ^ 1074 := mul_lt_mul_of_pos_right smaller (by positivity)
    rw [compare_lt_iff_lt.mpr smaller, compare_lt_iff_lt.mpr (lt_of_lt_of_le scaled below)]
    rfl
  · subst same
    rw [compare_eq_iff_eq.mpr rfl]
    unfold tieOnFloor
    split_ifs with fractional
    · exact (compare_lt_iff_lt.mpr fractional).symm
    · exact (compare_eq_iff_eq.mpr (le_antisymm below (not_lt.mp fractional))).symm
  · have scaled : (floorOf b + 1) * 2 ^ 1074 ≤ n * 2 ^ 1074 :=
      mul_le_mul_of_nonneg_right (Int.add_one_le_of_lt larger) (by positivity)
    rw [compare_gt_iff_gt.mpr larger, compare_gt_iff_gt.mpr (lt_of_lt_of_le above scaled)]
    rfl

theorem floorOf_bounds {b : F64} {low high : Int} (above : low * 2 ^ 1074 ≤ b.ordinal)
    (below : b.ordinal < high * 2 ^ 1074) : low ≤ floorOf b ∧ floorOf b < high :=
  ⟨(Int.le_ediv_iff_mul_le (by positivity)).mpr above, (Int.ediv_lt_iff_lt_mul (by positivity)).mpr below⟩

theorem toInt_toInt64 {n : Int} (bounds : -2 ^ 63 ≤ n ∧ n < 2 ^ 63) : n.toInt64.toInt = n :=
  Int64.toInt_ofInt_of_le bounds.1 bounds.2

theorem toNat_toUInt64 {n : Int} (bounds : 0 ≤ n ∧ n < 2 ^ 64) : (n.toNat.toUInt64.toNat : Int) = n := by
  have fits : n.toNat < 2 ^ 64 := by omega
  rw [UInt64.toNat_ofNat_of_lt' fits]
  omega

/-! ## Each comparison is the comparison of keys -/

theorem cmpF64_eq (a b : F64) : cmpF64 a b = compare a.key b.key := F64.partialCmp_getD_totalCmp

theorem cmpI64U64_eq (a : Int64) (b : UInt64) :
    cmpI64U64 a b = compare (a.toInt * 2 ^ 1074) ((b.toNat : Int) * 2 ^ 1074) := by
  rw [compare_scaled]
  unfold cmpI64U64
  split_ifs with negative
  · rw [Int64.lt_iff_toInt_lt, Int64.toInt_zero] at negative
    exact (compare_lt_iff_lt.mpr (by omega)).symm
  · have nonNegative : 0 ≤ a := Int64.not_lt.mp negative
    have widened : (a.toUInt64.toNat : Int) = a.toInt := by
      rw [Int64.toNat_toUInt64_of_le nonNegative, Int64.cast_toNatClampNeg _ nonNegative]
    rw [compare_uint64, widened]

theorem compare_nan {n : Int} {b : F64} (nan : b.isNaN = true) (small : -2 ^ 2098 ≤ n ∧ n ≤ 2 ^ 2098) :
    (if b.isSignNegative then Ordering.gt else .lt) = compare n b.key := by
  obtain ⟨negative, positive⟩ := F64.key_of_isNaN nan
  cases sign : b.isSignNegative with
  | true => exact (compare_gt_iff_gt.mpr (by have := negative sign; omega)).symm
  | false => exact (compare_lt_iff_lt.mpr (by have := positive sign; omega)).symm

theorem cmpI64F64_eq (a : Int64) (b : F64) : cmpI64F64 a b = compare (a.toInt * 2 ^ 1074) b.key := by
  have low := Int64.le_toInt a
  have high := Int64.toInt_lt a
  obtain ⟨nan63, nanNeg63, -, -⟩ := constants_not_isNaN
  unfold cmpI64F64
  cases nan : b.isNaN with
  | true => exact compare_nan nan (by omega)
  | false =>
      rw [F64.key_of_not_isNaN nan]
      simp only [Bool.false_eq_true, if_false]
      split_ifs with large small
      · rw [F64.le_iff nan63 nan, twoPow63_ordinal] at large
        exact (compare_lt_iff_lt.mpr (by omega)).symm
      · rw [F64.lt_iff nan nanNeg63, negTwoPow63_ordinal] at small
        exact (compare_gt_iff_gt.mpr (by omega)).symm
      · -- `⌊b⌋` lies in `[-2^63, 2^63)`, where `floor as i64` is exact
        rw [F64.le_iff nan63 nan, twoPow63_ordinal, not_le] at large
        rw [F64.lt_iff nan nanNeg63, negTwoPow63_ordinal, not_lt, ← neg_mul] at small
        rw [compare_int64, toInt_toInt64 (floorOf_bounds small large), tieOnFloor_compare]

theorem cmpU64F64_eq (a : UInt64) (b : F64) : cmpU64F64 a b = compare ((a.toNat : Int) * 2 ^ 1074) b.key := by
  have high := a.toNat_lt
  obtain ⟨-, -, nan64, nanZero⟩ := constants_not_isNaN
  unfold cmpU64F64
  cases nan : b.isNaN with
  | true => exact compare_nan nan (by omega)
  | false =>
      rw [F64.key_of_not_isNaN nan]
      simp only [Bool.false_eq_true, if_false]
      split_ifs with negative large
      · rw [F64.lt_iff nan nanZero, zero_ordinal] at negative
        exact (compare_gt_iff_gt.mpr (by omega)).symm
      · rw [F64.le_iff nan64 nan, twoPow64_ordinal] at large
        exact (compare_lt_iff_lt.mpr (by omega)).symm
      · -- `⌊b⌋` lies in `[0, 2^64)`, where `floor as u64` is exact
        rw [F64.lt_iff nan nanZero, zero_ordinal, not_lt, ← zero_mul (2 ^ 1074)] at negative
        rw [F64.le_iff nan64 nan, twoPow64_ordinal, not_le] at large
        rw [compare_uint64, toNat_toUInt64 (floorOf_bounds negative large), tieOnFloor_compare]

namespace OrderByNumber

theorem cmp_eq_compare_key (x y : OrderByNumber) : x.cmp y = compare x.key y.key := by
  cases x <;> cases y <;> simp only [cmp, key]
  · rw [compare_int64, compare_scaled]
  · exact cmpI64U64_eq _ _
  · exact cmpI64F64_eq _ _
  · rw [cmpI64U64_eq, swap_compare]
  · rw [compare_uint64, compare_scaled]
  · exact cmpU64F64_eq _ _
  · rw [cmpI64F64_eq, swap_compare]
  · rw [cmpU64F64_eq, swap_compare]
  · exact cmpF64_eq _ _

theorem lawful_cmp : LexOrder.Lawful cmp := by
  have same : cmp = fun x y => compare x.key y.key := funext₂ cmp_eq_compare_key
  rw [same]
  exact fun x => (LexOrder.lawful_compare x.key).comap key

theorem key_eq_toRat {x : OrderByNumber} (finite : x.isFinite = true) : (x.key : ℚ) = x.toRat * 2 ^ 1074 := by
  cases x with
  | i64 a => simp only [key, toRat, Int.cast_mul, Int.cast_pow, Int.cast_ofNat]
  | u64 a => simp only [key, toRat, Int.cast_mul, Int.cast_pow, Int.cast_ofNat, Int.cast_natCast]
  | f64 a =>
      have notNaN := F64.not_isNaN_of_isFinite finite
      simp only [key, toRat, F64.key_of_not_isNaN notNaN, F64.toRat_eq finite]
      field_simp

theorem cmp_eq_compare_toRat {x y : OrderByNumber} (finiteX : x.isFinite = true) (finiteY : y.isFinite = true) :
    x.cmp y = compare x.toRat y.toRat := by
  have cast : StrictMono (Int.cast : Int → ℚ) := Int.cast_strictMono
  rw [cmp_eq_compare_key, ← cmp_eq_compare, ← cmp_eq_compare, ← cast.cmp_map_eq,
    key_eq_toRat finiteX, key_eq_toRat finiteY, cmp_mul_pos_right (by positivity)]

/-- `2^53 + 1` is above the double `2^53`, which a cast of the integer to `f64` would miss. -/
example : (OrderByNumber.i64 9007199254740993).cmp (.f64 ⟨0x4340000000000000⟩) = .gt := by decide +kernel

end OrderByNumber

end CosmosDriver.OrderBy
