import Mathlib.Data.List.Basic
import Mathlib.Tactic.Ring

/-!
# Little-endian byte words

`to_le_bytes` and `from_le_bytes` on a `width`-byte unsigned word, over natural
numbers. Every fixed-width field of a binary format that stores its integers
least significant byte first reads back through `value_bytes`.
-/

namespace LittleEndian

set_option autoImplicit false

def bytes : Nat → Nat → List UInt8
  | 0, _ => []
  | width + 1, n => UInt8.ofNat (n % 256) :: bytes width (n / 256)

def value : List UInt8 → Nat
  | [] => 0
  | byte :: rest => byte.toNat + 256 * value rest

@[simp] theorem length_bytes (width n : Nat) : (bytes width n).length = width := by
  induction width generalizing n with
  | zero => rfl
  | succ width induction => simp only [bytes, List.length_cons, induction]

@[simp] theorem value_nil : value [] = 0 := rfl

@[simp] theorem value_cons (byte : UInt8) (rest : List UInt8) :
    value (byte :: rest) = byte.toNat + 256 * value rest := rfl

theorem value_lt (input : List UInt8) : value input < 2 ^ (8 * input.length) := by
  induction input with
  | nil => simp
  | cons byte rest induction =>
      have byteBound := byte.toNat_lt
      have widen : 2 ^ (8 * (rest.length + 1)) = 256 * 2 ^ (8 * rest.length) := by
        rw [Nat.mul_succ, Nat.pow_add]
        ring
      simp only [value_cons, List.length_cons, widen]
      change byte.toNat < 256 at byteBound
      omega

theorem value_bytes (width n : Nat) : value (bytes width n) = n % 2 ^ (8 * width) := by
  induction width generalizing n with
  | zero => simp [bytes, Nat.mod_one]
  | succ width induction =>
      have widen : 2 ^ (8 * (width + 1)) = 256 * 2 ^ (8 * width) := by
        rw [Nat.mul_succ, Nat.pow_add]
        ring
      have low : (UInt8.ofNat (n % 256)).toNat = n % 256 := by simp
      simp only [bytes, value_cons, low, induction, widen]
      rw [Nat.mod_mul, Nat.add_comm]

theorem value_bytes_of_lt {width n : Nat} (fits : n < 2 ^ (8 * width)) :
    value (bytes width n) = n := by
  rw [value_bytes, Nat.mod_eq_of_lt fits]

theorem bytes_value (input : List UInt8) : bytes input.length (value input) = input := by
  induction input with
  | nil => rfl
  | cons byte rest induction =>
      have byteBound := byte.toNat_lt
      change byte.toNat < 256 at byteBound
      have low : (byte.toNat + 256 * value rest) % 256 = byte.toNat := by omega
      have high : (byte.toNat + 256 * value rest) / 256 = value rest := by omega
      simp only [List.length_cons, bytes, value_cons, low, high, induction, UInt8.ofNat_toNat]

theorem value_drop (input : List UInt8) (q : Nat) : value (input.drop q) = value input / 2 ^ (8 * q) := by
  induction q generalizing input with
  | zero => simp
  | succ q induction =>
      cases input with
      | nil => simp
      | cons byte rest =>
          have byteBound := byte.toNat_lt
          change byte.toNat < 256 at byteBound
          have shifted : (byte.toNat + 256 * value rest) / 2 ^ 8 = value rest := by omega
          rw [List.drop_succ_cons, induction, value_cons, Nat.mul_succ, Nat.pow_add, Nat.mul_comm (2 ^ (8 * q)),
            ← Nat.div_div_eq_div_mul, shifted]

theorem field_add_mul_pow {x y k r w : Nat} (below : r + w ≤ k) :
    (x + 2 ^ k * y) / 2 ^ r % 2 ^ w = x / 2 ^ r % 2 ^ w := by
  have split : 2 ^ k * y = 2 ^ r * (2 ^ w * (2 ^ (k - r - w) * y)) := by
    rw [← Nat.mul_assoc, ← Nat.mul_assoc, ← Nat.pow_add, ← Nat.pow_add, show r + w + (k - r - w) = k by omega]
  rw [split, Nat.add_mul_div_left _ _ (Nat.two_pow_pos r), Nat.add_mul_mod_self_left]

theorem field_window (input : List UInt8) {offset width : Nat} (narrow : width ≤ 8) {lo : UInt8}
    (found : input[offset / 8]? = some lo) :
    value input / 2 ^ offset % 2 ^ width =
      (lo.toNat + (input[offset / 8 + 1]?.getD 0).toNat * 256) / 2 ^ (offset % 8) % 2 ^ width := by
  obtain ⟨inside, rfl⟩ := List.getElem?_eq_some_iff.mp found
  have aligned : value input / 2 ^ offset = value (input.drop (offset / 8)) / 2 ^ (offset % 8) := by
    rw [value_drop, Nat.div_div_eq_div_mul, ← Nat.pow_add, show 8 * (offset / 8) + offset % 8 = offset by omega]
  have window : value (input.drop (offset / 8)) =
      (input[offset / 8].toNat + (input[offset / 8 + 1]?.getD 0).toNat * 256) +
        2 ^ 16 * value (input.drop (offset / 8 + 2)) := by
    rw [List.drop_eq_getElem_cons inside, value_cons, ← List.head?_drop]
    cases next : input.drop (offset / 8 + 1) with
    | nil =>
        have beyond : input.drop (offset / 8 + 2) = [] := by
          rw [show offset / 8 + 2 = offset / 8 + 1 + 1 by omega, ← List.drop_drop, next, List.drop_nil]
        simp [beyond]
    | cons hi rest =>
        have after : input.drop (offset / 8 + 2) = rest := by
          rw [show offset / 8 + 2 = offset / 8 + 1 + 1 by omega, ← List.drop_drop, next, List.drop_one,
            List.tail_cons]
        simp only [value_cons, List.head?_cons, Option.getD_some, after]
        ring
  rw [aligned, window, field_add_mul_pow (by omega)]

end LittleEndian
