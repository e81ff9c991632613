import Mathlib

/-!
# IEEE 754 binary64 values read from their bits

A double is its 64-bit pattern: a sign bit, an 11-bit biased exponent and a 52-bit
fraction. Every finite double is an integer multiple of `2^-1074`, the least subnormal, so
its value is carried exactly by the integer `ordinal`, the value times `2^1074`; the
infinities sit at `±2^2098`, past every finite ordinal, so that IEEE's comparison of
non-NaN doubles is the comparison of their ordinals. `totalKey` is the integer whose order
is the totalOrder predicate of IEEE 754-2008 (`f64::total_cmp`), which also orders the
NaNs, by sign and payload. `key` joins the two: the IEEE order, with each NaN put beyond
every number on the side of its sign and the NaNs of one sign ordered by totalOrder.
-/

namespace Binary64

set_option autoImplicit false

/-- A double by its bit pattern (`f64::to_bits`). -/
structure F64 where
  bits : UInt64
  deriving DecidableEq, Repr

namespace F64

variable (x y : F64)

def exponent : Nat := x.bits.toNat / 2 ^ 52 % 2 ^ 11

def fraction : Nat := x.bits.toNat % 2 ^ 52

def isSignNegative : Bool := decide (2 ^ 63 ≤ x.bits.toNat)

def isNaN : Bool := decide (x.exponent = 2047) && decide (x.fraction ≠ 0)

def isFinite : Bool := decide (x.exponent ≠ 2047)

def magnitude : Nat :=
  if x.exponent = 0 then x.fraction else (2 ^ 52 + x.fraction) * 2 ^ (x.exponent - 1)

def ordinal : Int :=
  let size : Nat := if x.exponent = 2047 then 2 ^ 2098 else x.magnitude
  if x.isSignNegative then -size else size

def toRat : ℚ :=
  let size : ℚ :=
    if x.exponent = 0 then x.fraction * 2 ^ (-1074 : ℤ)
    else (1 + x.fraction / 2 ^ 52) * 2 ^ ((x.exponent : ℤ) - 1023)
  if x.isSignNegative then -size else size

/-- `f64::partial_cmp`: unordered when either side is NaN. -/
def partialCmp : Option Ordering :=
  if x.isNaN || y.isNaN then none else some (compare x.ordinal y.ordinal)

def lt : Bool := x.partialCmp y == some .lt

def le : Bool := x.partialCmp y == some .lt || x.partialCmp y == some .eq

/-- The key of `f64::total_cmp`: the pattern read as an `i64`, with the 63 low bits of a
negative pattern flipped. -/
def totalKey : Int :=
  if x.isSignNegative then -1 - (x.bits.toNat % 2 ^ 63 : Nat) else x.bits.toNat

def totalCmp : Ordering := compare x.totalKey y.totalKey

def key : Int :=
  if x.isNaN then (if x.isSignNegative then -2 ^ 2099 else 2 ^ 2099) + x.totalKey else x.ordinal

/-- `a == b` on doubles: ordered and equal, so a NaN equals nothing, and `-0.0 == 0.0`. -/
def beq : Bool := x.partialCmp y == some .eq

def zero : F64 := ⟨0⟩

def neg : F64 := ⟨UInt64.ofNat ((x.bits.toNat + 2 ^ 63) % 2 ^ 64)⟩

def ofFields (exponent fraction : Nat) : F64 := ⟨UInt64.ofNat (exponent * 2 ^ 52 + fraction)⟩

/-- `n as f64` for a magnitude `n < 2^64`: the nearest double, ties to even. The
exponent of a value with `width` bits is `1022 + width`; past 53 bits the dropped low
bits round the kept ones, and a carry out of them bumps the exponent. -/
def ofNat (n : Nat) : F64 :=
  if n = 0 then ⟨0⟩
  else
    let width := Nat.log2 n + 1
    if width ≤ 53 then ofFields (1022 + width) (n * 2 ^ (53 - width) - 2 ^ 52)
    else
      let shift := width - 53
      let kept := n / 2 ^ shift
      let rest := n % 2 ^ shift
      let half := 2 ^ (shift - 1)
      let rounded := if half < rest ∨ (rest = half ∧ kept % 2 = 1) then kept + 1 else kept
      if rounded = 2 ^ 53 then ofFields (1023 + width) 0 else ofFields (1022 + width) (rounded - 2 ^ 52)

def ofInt (n : Int) : F64 := if n < 0 then (ofNat n.natAbs).neg else ofNat n.toNat

/-- `a.fract() == 0.0 && a.is_finite()`: a finite double with no fractional part. -/
def isIntegral : Bool := x.isFinite && x.ordinal % 2 ^ 1074 == 0

/-- `a as i64`: the value truncated toward zero and saturated to the `i64` range, a NaN
read as zero. The infinities' ordinals lie past both ends of the range. -/
def toInt64Saturating : Int64 :=
  if x.isNaN then 0 else Int64.ofInt (max (-2 ^ 63) (min (2 ^ 63 - 1) (x.ordinal.tdiv (2 ^ 1074))))

/-- `a as usize` on a 64-bit target: truncated, saturated to `0 ..= 2^64 - 1`, a NaN read
as zero. -/
def toUsizeSaturating : Nat := if x.isNaN then 0 else min (x.ordinal.tdiv (2 ^ 1074)).toNat (2 ^ 64 - 1)

/-- The quiet NaN `f64::NAN`. Which NaN an operation returns is not specified; nothing
here reads a NaN's payload. -/
def nan : F64 := ⟨0x7FF8000000000000⟩

def negZero : F64 := ⟨0x8000000000000000⟩

/-- The bits of the double nearest to `m · 2^-1074`, ties to even, `+∞` past the largest.
`m` keeps its top 53 bits, rounded on the rest; as a double's bits are its biased exponent
over its 52-bit fraction, the kept bits shifted by `shift` are the bits `shift * 2^52 + kept`,
and a carry out of them moves the exponent up. -/
def roundMagnitude (m : Nat) : Nat :=
  let shift := Nat.log2 m + 1 - 53
  let kept := m / 2 ^ shift
  let rest := m % 2 ^ shift
  let rounded := if 2 ^ shift < 2 * rest ∨ (2 * rest = 2 ^ shift ∧ kept % 2 = 1) then kept + 1 else kept
  min (shift * 2 ^ 52 + rounded) (2047 * 2 ^ 52)

/-- `a + b`: IEEE 754 addition, rounding to nearest with ties to even. The exact sum of two
finite doubles is a whole number of `2^-1074` and is rounded once; an exact zero is `-0.0`
only when both addends are, and infinities add by sign, opposite ones to a NaN. -/
def add : F64 :=
  if x.isNaN || y.isNaN then nan
  else if !x.isFinite then (if !y.isFinite && x.isSignNegative != y.isSignNegative then nan else x)
  else if !y.isFinite then y
  else
    let sum := x.ordinal + y.ordinal
    if sum = 0 then (if x.isSignNegative && y.isSignNegative then negZero else zero)
    else ⟨UInt64.ofNat ((if sum < 0 then 2 ^ 63 else 0) + roundMagnitude sum.natAbs)⟩

/-- `0.1 + 0.2` is `0.30000000000000004`, and `0.2 + 0.3` is `0.5`. -/
example : (F64.mk 0x3FB999999999999A).add ⟨0x3FC999999999999A⟩ = ⟨0x3FD3333333333334⟩ ∧
    (F64.mk 0x3FC999999999999A).add ⟨0x3FD3333333333333⟩ = ⟨0x3FE0000000000000⟩ := by
  decide +kernel

/-! ## Fields -/

variable {x y}

theorem low_bits : x.bits.toNat % 2 ^ 63 = x.exponent * 2 ^ 52 + x.fraction := by
  have split := Nat.div_add_mod (x.bits.toNat % 2 ^ 63) (2 ^ 52)
  have high : x.bits.toNat % 2 ^ 63 / 2 ^ 52 = x.exponent := by
    rw [exponent, ← Nat.mod_mul_right_div_self, ← pow_add]
  have low : x.bits.toNat % 2 ^ 63 % 2 ^ 52 = x.fraction := by
    rw [fraction, Nat.mod_mod_of_dvd _ (pow_dvd_pow 2 (by decide))]
  rw [high, low] at split
  omega

theorem exponent_lt : x.exponent < 2 ^ 11 := Nat.mod_lt _ (by decide)

theorem fraction_lt : x.fraction < 2 ^ 52 := Nat.mod_lt _ (by decide)

theorem isNaN_iff : x.isNaN = true ↔ 2047 * 2 ^ 52 < x.bits.toNat % 2 ^ 63 := by
  have := x.exponent_lt
  have := x.fraction_lt
  simp only [isNaN, Bool.and_eq_true, decide_eq_true_eq, low_bits]
  omega

theorem not_isNaN_of_isFinite (finite : x.isFinite = true) : x.isNaN = false := by
  simp only [isFinite, decide_eq_true_eq] at finite
  simp [isNaN, finite]

theorem magnitude_lt (finite : x.isFinite = true) : x.magnitude < 2 ^ 2098 := by
  simp only [isFinite, decide_eq_true_eq] at finite
  have below : x.exponent ≤ 2046 := by have := x.exponent_lt; omega
  have fraction := x.fraction_lt
  unfold magnitude
  split_ifs with subnormal
  · omega
  · calc (2 ^ 52 + x.fraction) * 2 ^ (x.exponent - 1)
        < 2 ^ 53 * 2 ^ (x.exponent - 1) := by
          apply Nat.mul_lt_mul_of_pos_right (by omega) (by positivity)
      _ ≤ 2 ^ 53 * 2 ^ 2045 := Nat.mul_le_mul_left _ (Nat.pow_le_pow_right (by decide) (by omega))
      _ = 2 ^ 2098 := by simp only [← pow_add]

/-! ## Ordinals -/

theorem ordinal_bounds (finite : x.isFinite = true) : -2 ^ 2098 < x.ordinal ∧ x.ordinal < 2 ^ 2098 := by
  have bound := magnitude_lt finite
  simp only [isFinite, decide_eq_true_eq] at finite
  have cast : (x.magnitude : Int) < 2 ^ 2098 := by exact_mod_cast bound
  unfold ordinal
  dsimp only
  rw [if_neg finite]
  split <;> omega

theorem ordinal_of_infinite (infinite : x.isFinite = false) :
    x.ordinal = if x.isSignNegative then -2 ^ 2098 else 2 ^ 2098 := by
  simp only [isFinite, decide_eq_false_iff_not, not_not] at infinite
  unfold ordinal
  dsimp only
  rw [if_pos infinite]
  simp only [Nat.cast_pow, Nat.cast_ofNat]

theorem ordinal_le : -2 ^ 2098 ≤ x.ordinal ∧ x.ordinal ≤ 2 ^ 2098 := by
  cases finite : x.isFinite with
  | true =>
      have bounds := ordinal_bounds finite
      omega
  | false =>
      rw [ordinal_of_infinite finite]
      split <;> omega

theorem toRat_eq (finite : x.isFinite = true) : x.toRat = x.ordinal / 2 ^ 1074 := by
  simp only [isFinite, decide_eq_true_eq] at finite
  have scale : (2 : ℚ) ^ 1074 ≠ 0 := by positivity
  -- the value of either kind of finite double, before its sign
  have size : (if x.exponent = 0 then (x.fraction : ℚ) * 2 ^ (-1074 : ℤ)
      else (1 + x.fraction / 2 ^ 52) * 2 ^ ((x.exponent : ℤ) - 1023)) = (x.magnitude : ℚ) / 2 ^ 1074 := by
    unfold magnitude
    split_ifs with subnormal
    · simp [zpow_neg, div_eq_mul_inv]
    · obtain ⟨e, exponent⟩ : ∃ e, x.exponent = e + 1 := ⟨x.exponent - 1, by omega⟩
      have power : (2 : ℚ) ^ ((↑(e + 1) : ℤ) - 1023) = 2 ^ e / 2 ^ 1022 := by
        rw [show ((↑(e + 1) : ℤ) - 1023) = (e : ℤ) - 1022 by push_cast; ring, zpow_sub₀ two_ne_zero]
        simp only [zpow_natCast, zpow_ofNat]
      rw [exponent, Nat.add_sub_cancel, power]
      push_cast
      field_simp
      ring
  unfold toRat ordinal
  rw [size]
  split <;> simp [neg_div]

/-! ## The orders -/

theorem lt_iff (notNaN : x.isNaN = false) (notNaN' : y.isNaN = false) : x.lt y = true ↔ x.ordinal < y.ordinal := by
  simp [lt, partialCmp, notNaN, notNaN', compare_lt_iff_lt]

theorem le_iff (notNaN : x.isNaN = false) (notNaN' : y.isNaN = false) : x.le y = true ↔ x.ordinal ≤ y.ordinal := by
  simp only [le, partialCmp, notNaN, notNaN', Bool.or_false, Bool.false_eq_true, if_false,
    Option.some.injEq, Bool.or_eq_true, beq_iff_eq, compare_lt_iff_lt, compare_eq_iff_eq]
  exact le_iff_lt_or_eq.symm

theorem totalKey_bounds : (x.isNaN = false → -1 - 2047 * 2 ^ 52 ≤ x.totalKey ∧ x.totalKey ≤ 2047 * 2 ^ 52) ∧
    (x.isNaN = true → x.isSignNegative = false → 2047 * 2 ^ 52 < x.totalKey ∧ x.totalKey < 2 ^ 63) ∧
    (x.isNaN = true → x.isSignNegative = true → -2 ^ 63 ≤ x.totalKey ∧ x.totalKey < -1 - 2047 * 2 ^ 52) := by
  have nan := x.isNaN_iff
  have low : x.bits.toNat % 2 ^ 63 < 2 ^ 63 := Nat.mod_lt _ (by decide)
  unfold totalKey isSignNegative
  by_cases negative : 2 ^ 63 ≤ x.bits.toNat
  · simp only [negative, decide_true, if_true]
    refine ⟨fun notNaN => ?_, fun _ positive => absurd positive (by decide), fun isNaN _ => ?_⟩
    · have := mt nan.mpr (by simp [notNaN])
      omega
    · have := nan.mp isNaN
      omega
  · have same : x.bits.toNat % 2 ^ 63 = x.bits.toNat := Nat.mod_eq_of_lt (by omega)
    simp only [negative, decide_false, Bool.false_eq_true, if_false]
    refine ⟨fun notNaN => ?_, fun isNaN _ => ?_, fun _ negative' => absurd negative' (by decide)⟩
    · have := mt nan.mpr (by simp [notNaN])
      omega
    · have := nan.mp isNaN
      omega

theorem partialCmp_getD_totalCmp : (x.partialCmp y).getD (x.totalCmp y) = compare x.key y.key := by
  obtain ⟨numberX, positiveX, negativeX⟩ := x.totalKey_bounds
  obtain ⟨numberY, positiveY, negativeY⟩ := y.totalKey_bounds
  unfold partialCmp totalCmp key
  cases nanX : x.isNaN <;> cases nanY : y.isNaN
  · simp
  · -- only `y` is NaN: its sign puts it past `x`, under either order
    have boundsX := x.ordinal_le
    have boundsY := numberX nanX
    cases signY : y.isSignNegative
    · have keyY := positiveY nanY signY
      simp only [Bool.or_true, if_true, Option.getD_none, if_false, Bool.false_eq_true]
      rw [compare_lt_iff_lt.mpr (by omega), compare_lt_iff_lt.mpr (by omega)]
    · have keyY := negativeY nanY signY
      simp only [Bool.or_true, if_true, Option.getD_none, if_false, Bool.false_eq_true]
      rw [compare_gt_iff_gt.mpr (by omega), compare_gt_iff_gt.mpr (by omega)]
  · have boundsY := y.ordinal_le
    have keyY := numberY nanY
    cases signX : x.isSignNegative
    · have keyX := positiveX nanX signX
      simp only [Bool.true_or, if_true, Option.getD_none, if_false, Bool.false_eq_true]
      rw [compare_gt_iff_gt.mpr (by omega), compare_gt_iff_gt.mpr (by omega)]
    · have keyX := negativeX nanX signX
      simp only [Bool.true_or, if_true, Option.getD_none, if_false, Bool.false_eq_true]
      rw [compare_lt_iff_lt.mpr (by omega), compare_lt_iff_lt.mpr (by omega)]
  · -- two NaNs: the same shift for one sign, and the signs in the order of their keys
    simp only [Bool.or_true, if_true, Option.getD_none]
    cases signX : x.isSignNegative <;> cases signY : y.isSignNegative
    · simp only [if_false, Bool.false_eq_true]
      rcases lt_trichotomy x.totalKey y.totalKey with below | same | above
      · rw [compare_lt_iff_lt.mpr below, compare_lt_iff_lt.mpr (by omega)]
      · rw [same, compare_eq_iff_eq.mpr rfl, compare_eq_iff_eq.mpr rfl]
      · rw [compare_gt_iff_gt.mpr above, compare_gt_iff_gt.mpr (by omega)]
    · have keyX := positiveX nanX signX
      have keyY := negativeY nanY signY
      simp only [if_false, if_true, Bool.false_eq_true]
      rw [compare_gt_iff_gt.mpr (by omega), compare_gt_iff_gt.mpr (by omega)]
    · have keyX := negativeX nanX signX
      have keyY := positiveY nanY signY
      simp only [if_false, if_true, Bool.false_eq_true]
      rw [compare_lt_iff_lt.mpr (by omega), compare_lt_iff_lt.mpr (by omega)]
    · simp only [if_true]
      rcases lt_trichotomy x.totalKey y.totalKey with below | same | above
      · rw [compare_lt_iff_lt.mpr below, compare_lt_iff_lt.mpr (by omega)]
      · rw [same, compare_eq_iff_eq.mpr rfl, compare_eq_iff_eq.mpr rfl]
      · rw [compare_gt_iff_gt.mpr above, compare_gt_iff_gt.mpr (by omega)]

/-! ## Equality -/

theorem beq_iff : x.beq y = true ↔ x.isNaN = false ∧ y.isNaN = false ∧ x.ordinal = y.ordinal := by
  unfold beq partialCmp
  cases x.isNaN <;> cases y.isNaN <;> simp

theorem beq_comm : x.beq y = y.beq x := by
  apply Bool.eq_iff_iff.mpr
  constructor
  · intro same
    obtain ⟨notNaN, notNaN', equal⟩ := beq_iff.mp same
    exact beq_iff.mpr ⟨notNaN', notNaN, equal.symm⟩
  · intro same
    obtain ⟨notNaN, notNaN', equal⟩ := beq_iff.mp same
    exact beq_iff.mpr ⟨notNaN', notNaN, equal.symm⟩

theorem beq_trans {z : F64} (first : x.beq y = true) (second : y.beq z = true) : x.beq z = true := by
  obtain ⟨notNaN, -, same⟩ := beq_iff.mp first
  obtain ⟨-, notNaN', same'⟩ := beq_iff.mp second
  exact beq_iff.mpr ⟨notNaN, notNaN', same.trans same'⟩

theorem beq_self (notNaN : x.isNaN = false) : x.beq x = true :=
  beq_iff.mpr ⟨notNaN, notNaN, rfl⟩

theorem isNaN_zero : zero.isNaN = false := by decide

theorem ordinal_zero : zero.ordinal = 0 := by decide

theorem beq_congr_left (same : x.beq y = true) (z : F64) : x.beq z = y.beq z := by
  rw [Bool.eq_iff_iff]
  constructor
  · intro first
    exact beq_trans (beq_comm ▸ same) first
  · intro second
    exact beq_trans same second

theorem beq_zero_iff : x.beq zero = true ↔ x.isNaN = false ∧ x.ordinal = 0 := by
  rw [beq_iff, isNaN_zero, ordinal_zero]
  simp

/-! ## One encoding per nonzero value -/

theorem magnitude_bounds (normal : x.exponent ≠ 0) :
    2 ^ 52 * 2 ^ (x.exponent - 1) ≤ x.magnitude ∧ x.magnitude < 2 ^ 52 * 2 ^ x.exponent := by
  have fraction := x.fraction_lt
  have power : 2 ^ x.exponent = 2 * 2 ^ (x.exponent - 1) := by
    rw [← pow_succ']
    congr 1
    omega
  unfold magnitude
  rw [if_neg normal, power]
  constructor
  · exact Nat.mul_le_mul_right _ (by omega)
  · calc (2 ^ 52 + x.fraction) * 2 ^ (x.exponent - 1)
        < 2 ^ 53 * 2 ^ (x.exponent - 1) := Nat.mul_lt_mul_of_pos_right (by omega) (by positivity)
      _ = 2 ^ 52 * (2 * 2 ^ (x.exponent - 1)) := by ring

theorem magnitude_lt_of_exponent_lt (lower : x.exponent < y.exponent) : x.magnitude < y.magnitude := by
  have above := (magnitude_bounds (x := y) (by omega)).1
  have widen : 2 ^ 52 * 2 ^ x.exponent ≤ 2 ^ 52 * 2 ^ (y.exponent - 1) :=
    Nat.mul_le_mul_left _ (Nat.pow_le_pow_right (by decide) (by omega))
  by_cases subnormal : x.exponent = 0
  · have fraction := x.fraction_lt
    have least : 2 ^ 52 ≤ 2 ^ 52 * 2 ^ (y.exponent - 1) := Nat.le_mul_of_pos_right _ (by positivity)
    rw [magnitude, if_pos subnormal]
    omega
  · have below := (magnitude_bounds subnormal).2
    omega

theorem fields_of_magnitude_eq (same : x.magnitude = y.magnitude) :
    x.exponent = y.exponent ∧ x.fraction = y.fraction := by
  have exponents : x.exponent = y.exponent := by
    rcases Nat.lt_trichotomy x.exponent y.exponent with lower | equal | higher
    · exact absurd same (Nat.ne_of_lt (magnitude_lt_of_exponent_lt lower))
    · exact equal
    · exact absurd same.symm (Nat.ne_of_lt (magnitude_lt_of_exponent_lt higher))
  refine ⟨exponents, ?_⟩
  unfold magnitude at same
  rw [exponents] at same
  split_ifs at same
  · exact same
  · have cancelled := Nat.eq_of_mul_eq_mul_right (by positivity) same
    omega

theorem eq_of_fields (exponents : x.exponent = y.exponent) (fractions : x.fraction = y.fraction)
    (signs : x.isSignNegative = y.isSignNegative) : x = y := by
  have xLow := x.low_bits
  have yLow := y.low_bits
  have xBelow := x.bits.toNat_lt
  have yBelow := y.bits.toNat_lt
  simp only [isSignNegative, decide_eq_decide] at signs
  have bits : x.bits.toNat = y.bits.toNat := by omega
  cases x
  cases y
  simpa using UInt64.toNat_inj.mp bits

theorem ordinal_of_finite (finite : x.isFinite = true) :
    x.ordinal = if x.isSignNegative then -(x.magnitude : Int) else x.magnitude := by
  simp only [isFinite, decide_eq_true_eq] at finite
  unfold ordinal
  dsimp only
  rw [if_neg finite]

theorem eq_of_ordinal_eq (xFinite : x.isFinite = true) (yFinite : y.isFinite = true) (same : x.ordinal = y.ordinal)
    (nonzero : x.ordinal ≠ 0) : x = y := by
  rw [ordinal_of_finite xFinite] at same nonzero
  rw [ordinal_of_finite yFinite] at same
  -- a nonzero value fixes its sign, and then its magnitude
  have signs : x.isSignNegative = y.isSignNegative := by
    cases xSign : x.isSignNegative <;> cases ySign : y.isSignNegative <;>
      simp only [xSign, ySign, Bool.false_eq_true, if_true, if_false] at same nonzero ⊢ <;> omega
  have magnitudes : x.magnitude = y.magnitude := by
    rw [← signs] at same
    split_ifs at same <;> omega
  obtain ⟨exponents, fractions⟩ := fields_of_magnitude_eq magnitudes
  exact eq_of_fields exponents fractions signs

theorem isFinite_iff_ordinal : x.isFinite = true ↔ -2 ^ 2098 < x.ordinal ∧ x.ordinal < 2 ^ 2098 := by
  constructor
  · exact ordinal_bounds
  · intro within
    cases finite : x.isFinite with
    | true => rfl
    | false =>
      rw [ordinal_of_infinite finite] at within
      split_ifs at within <;> omega

/-! ## Conversions -/

theorem isFinite_ofFields {exponent fraction : Nat} (small : exponent < 2047) (fits : fraction < 2 ^ 52) :
    (ofFields exponent fraction).isFinite = true := by
  have below : exponent * 2 ^ 52 + fraction < 2 ^ 64 := by omega
  have exact := UInt64.toNat_ofNat_of_lt' below
  simp only [ofFields, isFinite, F64.exponent, exact, decide_eq_true_eq]
  omega

theorem isFinite_neg (finite : x.isFinite = true) : x.neg.isFinite = true := by
  have below := x.bits.toNat_lt
  have flipped : (UInt64.ofNat ((x.bits.toNat + 2 ^ 63) % 2 ^ 64)).toNat = (x.bits.toNat + 2 ^ 63) % 2 ^ 64 :=
    UInt64.toNat_ofNat_of_lt' (Nat.mod_lt _ (by decide))
  unfold isFinite F64.exponent neg at *
  dsimp only
  rw [flipped]
  simp only [decide_eq_true_eq] at *
  omega

theorem isFinite_ofNat {n : Nat} (fits : n < 2 ^ 64) : (ofNat n).isFinite = true := by
  by_cases zero : n = 0
  · rw [ofNat, if_pos zero]
    decide
  have width : Nat.log2 n < 64 := (Nat.log2_lt zero).mpr fits
  have within : n < 2 ^ (Nat.log2 n + 1) := Nat.lt_log2_self
  rw [ofNat, if_neg zero]
  dsimp only
  by_cases short : Nat.log2 n + 1 ≤ 53
  · -- the value shifted up to 53 bits stays below `2^53`
    rw [if_pos short]
    have scaled : n * 2 ^ (53 - (Nat.log2 n + 1)) < 2 ^ 53 := by
      calc n * 2 ^ (53 - (Nat.log2 n + 1)) < 2 ^ (Nat.log2 n + 1) * 2 ^ (53 - (Nat.log2 n + 1)) :=
            Nat.mul_lt_mul_of_pos_right within (Nat.two_pow_pos _)
        _ = 2 ^ 53 := by rw [← Nat.pow_add, Nat.add_sub_cancel' short]
    exact isFinite_ofFields (by omega) (by omega)
  · -- the kept high bits stay below `2^53`, and a carry out of them moves the exponent
    rw [if_neg short]
    have keptBelow : n / 2 ^ (Nat.log2 n + 1 - 53) < 2 ^ 53 := by
      rw [Nat.div_lt_iff_lt_mul (Nat.two_pow_pos _), ← Nat.pow_add]
      have total : 53 + (Nat.log2 n + 1 - 53) = Nat.log2 n + 1 := by omega
      rwa [total]
    generalize n / 2 ^ (Nat.log2 n + 1 - 53) = kept at keptBelow ⊢
    split_ifs <;> exact isFinite_ofFields (by omega) (by omega)

theorem isFinite_ofInt {n : Int} (fits : n.natAbs < 2 ^ 64) : (ofInt n).isFinite = true := by
  unfold ofInt
  split_ifs with negative
  · exact isFinite_neg (isFinite_ofNat fits)
  · exact isFinite_ofNat (by omega)

theorem key_of_not_isNaN (notNaN : x.isNaN = false) : x.key = x.ordinal := by
  simp [key, notNaN]

theorem key_of_isNaN (nan : x.isNaN = true) :
    (x.isSignNegative = true → x.key < -2 ^ 2098) ∧ (x.isSignNegative = false → 2 ^ 2098 < x.key) := by
  obtain ⟨-, positive, negative⟩ := x.totalKey_bounds
  constructor
  · intro sign
    have := negative nan sign
    simp only [key, nan, sign, if_true]
    omega
  · intro sign
    have := positive nan sign
    simp only [key, nan, sign, if_true, if_false, Bool.false_eq_true]
    omega

end F64

end Binary64
