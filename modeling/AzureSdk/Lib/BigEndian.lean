import Mathlib

/-!
# Big-endian byte strings as numbers

A list of bytes, most significant first, stands for a number below `256 ^ length`.
Between lists of one length the lexicographic order is the order of those numbers,
and `bytes width n` writes `n` back at a fixed width, so the least list of a width
above a given one is the next number written at that width.
-/

namespace BigEndian

set_option autoImplicit false

def value : List UInt8 → Nat
  | [] => 0
  | byte :: rest => byte.toNat * 256 ^ rest.length + value rest

def bytes : Nat → Nat → List UInt8
  | 0, _ => []
  | width + 1, n => bytes width (n / 256) ++ [UInt8.ofNat n]

@[simp] theorem value_nil : value [] = 0 := rfl

@[simp] theorem value_cons (byte : UInt8) (rest : List UInt8) :
    value (byte :: rest) = byte.toNat * 256 ^ rest.length + value rest := rfl

theorem value_lt (xs : List UInt8) : value xs < 256 ^ xs.length := by
  induction xs with
  | nil => simp
  | cons x rest induction =>
      have digit : x.toNat ≤ 255 := by have := x.toNat_lt; omega
      calc x.toNat * 256 ^ rest.length + value rest
          < 255 * 256 ^ rest.length + 256 ^ rest.length := by
            have := Nat.mul_le_mul_right (256 ^ rest.length) digit
            omega
        _ = 256 ^ (rest.length + 1) := by ring

theorem value_append (xs ys : List UInt8) :
    value (xs ++ ys) = value xs * 256 ^ ys.length + value ys := by
  induction xs with
  | nil => simp
  | cons x rest induction =>
      simp only [List.cons_append, value_cons, List.length_append, induction, pow_add]
      ring

@[simp] theorem value_replicate_zero (k : Nat) : value (List.replicate k 0) = 0 := by
  induction k with
  | zero => rfl
  | succ k induction => simp [List.replicate_succ, induction]

@[simp] theorem length_bytes (width n : Nat) : (bytes width n).length = width := by
  induction width generalizing n with
  | zero => rfl
  | succ width induction => simp [bytes, induction]

theorem value_bytes (width n : Nat) : value (bytes width n) = n % 256 ^ width := by
  induction width generalizing n with
  | zero => simp [bytes, Nat.mod_one]
  | succ width induction =>
      have low : (UInt8.ofNat n).toNat = n % 256 := rfl
      rw [bytes, value_append, induction, pow_succ', Nat.mod_mul]
      simp only [value_cons, List.length_nil, pow_zero, Nat.mul_one, value_nil, Nat.add_zero,
        List.length_singleton, pow_one, low]
      ring

theorem bytes_value (xs : List UInt8) : bytes xs.length (value xs) = xs := by
  induction xs using List.reverseRecOn with
  | nil => rfl
  | append_singleton front last induction =>
      have whole : value (front ++ [last]) = value front * 256 + last.toNat := by
        simp [value_append]
      have high : (value front * 256 + last.toNat) / 256 = value front := by
        have := last.toNat_lt
        omega
      rw [List.length_append, List.length_singleton, bytes, whole, high, induction]
      congr
      apply UInt8.toNat_inj.mp
      simp

theorem compare_value_cons (x y : UInt8) {xs ys : List UInt8} (same : xs.length = ys.length) :
    compare (value (x :: xs)) (value (y :: ys)) = (compare x y).then (compare (value xs) (value ys)) := by
  have left := value_lt xs
  have right := value_lt ys
  rw [← same] at right
  simp only [value_cons, ← same]
  rcases lt_trichotomy x.toNat y.toNat with below | equal | above
  · have : x.toNat * 256 ^ xs.length + value xs < y.toNat * 256 ^ xs.length + value ys := by
      have := Nat.mul_le_mul_right (256 ^ xs.length) (show x.toNat + 1 ≤ y.toNat by omega)
      rw [Nat.add_mul, Nat.one_mul] at this
      omega
    rw [compare_lt_iff_lt.mpr this, Std.compare_eq_lt.mpr (UInt8.lt_iff_toNat_lt.mpr below)]
    rfl
  · have sameDigit : x = y := UInt8.toNat_inj.mp equal
    subst sameDigit
    rw [Std.compare_self, Ordering.eq_then]
    cases order : compare (value xs) (value ys) with
    | lt => exact compare_lt_iff_lt.mpr (by have := compare_lt_iff_lt.mp order; omega)
    | eq => exact compare_eq_iff_eq.mpr (by have := compare_eq_iff_eq.mp order; omega)
    | gt => exact compare_gt_iff_gt.mpr (by have := compare_gt_iff_gt.mp order; omega)
  · have : y.toNat * 256 ^ xs.length + value ys < x.toNat * 256 ^ xs.length + value xs := by
      have := Nat.mul_le_mul_right (256 ^ xs.length) (show y.toNat + 1 ≤ x.toNat by omega)
      rw [Nat.add_mul, Nat.one_mul] at this
      omega
    rw [compare_gt_iff_gt.mpr this, Std.compare_eq_gt.mpr (UInt8.lt_iff_toNat_lt.mpr above)]
    rfl

theorem value_add_one_lt_iff (xs : List UInt8) :
    value xs + 1 < 256 ^ xs.length ↔ ∃ x ∈ xs, x ≠ 0xFF := by
  induction xs with
  | nil => simp
  | cons x rest induction =>
      have tail := value_lt rest
      have digit := x.toNat_lt
      simp only [value_cons, List.length_cons, List.mem_cons, exists_eq_or_imp, pow_succ]
      by_cases top : x = 0xFF
      · subst top
        have topNat : (0xFF : UInt8).toNat = 255 := rfl
        simp only [ne_eq, not_true_eq_false, false_or, ← induction, topNat]
        omega
      · have belowTop : x.toNat + 1 ≤ 255 := by
          have : x.toNat ≠ 255 := fun same => top (UInt8.toNat_inj.mp (by simpa using same))
          omega
        simp only [ne_eq, top, not_false_eq_true, true_or, iff_true]
        have := Nat.mul_le_mul_right (256 ^ rest.length) belowTop
        rw [Nat.add_mul, Nat.one_mul] at this
        omega

end BigEndian
