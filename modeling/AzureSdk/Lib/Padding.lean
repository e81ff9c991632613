import Mathlib

/-!
# Comparing sequences up to trailing padding

Two sequences that differ only by how many copies of a padding element end them
stand for the same value when the padding is the least element: `[8, 0]` and
`[8, 0, 0, 0]` as big-endian digits of a fraction, say. `strip` removes the
trailing padding and `padCompare` compares as if the shorter sequence were
extended by padding; comparing the stripped sequences lexicographically gives the
same answer, so the padded comparison inherits every law of the lexicographic one.
-/

namespace Padding

set_option autoImplicit false

variable {α : Type} [DecidableEq α] (pad : α)

def strip : List α → List α
  | [] => []
  | x :: rest => if x = pad ∧ strip rest = [] then [] else x :: strip rest

@[simp] theorem strip_nil : strip pad [] = [] := rfl

theorem strip_eq_nil_iff (xs : List α) : strip pad xs = [] ↔ ∀ x ∈ xs, x = pad := by
  induction xs with
  | nil => simp
  | cons x rest induction =>
      by_cases both : x = pad ∧ strip pad rest = []
      · simp only [strip, if_pos both, List.mem_cons, forall_eq_or_imp, true_iff]
        exact ⟨both.1, (induction.mp both.2)⟩
      · simp only [strip, if_neg both, reduceCtorEq, false_iff, List.mem_cons, forall_eq_or_imp,
          not_and]
        intro padded rest_padded
        exact both ⟨padded, induction.mpr rest_padded⟩

theorem strip_cons_of_ne {x : α} (notPad : x ≠ pad) (rest : List α) :
    strip pad (x :: rest) = x :: strip pad rest := by
  simp [strip, notPad]

theorem strip_cons_of_ne_nil (x : α) {rest : List α} (kept : strip pad rest ≠ []) :
    strip pad (x :: rest) = x :: strip pad rest := by
  simp [strip, kept]

theorem strip_append (xs ys : List α) :
    strip pad (xs ++ ys) = if strip pad ys = [] then strip pad xs else xs ++ strip pad ys := by
  induction xs with
  | nil => split_ifs with gone <;> simp [gone]
  | cons x rest induction =>
      rw [List.cons_append]
      by_cases gone : strip pad ys = []
      · simp only [strip, induction, if_pos gone]
      · have kept : strip pad (rest ++ ys) ≠ [] := by
          rw [induction, if_neg gone]
          exact fun empty => gone (List.append_eq_nil_iff.mp empty).2
        rw [strip_cons_of_ne_nil pad x kept, induction, if_neg gone, if_neg gone, List.cons_append]

variable [Ord α]

def padCompare : List α → List α → Ordering
  | [], ys => if ys.all (· = pad) then .eq else .lt
  | x :: xs, [] => if (x :: xs).all (· = pad) then .eq else .gt
  | x :: xs, y :: ys => (compare x y).then (padCompare xs ys)

section Least

variable [Std.TransOrd α] [Std.LawfulEqOrd α] (least : ∀ x, compare pad x ≠ .gt)

include least in
theorem compare_strip_cons (x y : α) (xs ys : List α) :
    compare (strip pad (x :: xs)) (strip pad (y :: ys)) =
      (compare x y).then (compare (strip pad xs) (strip pad ys)) := by
  -- each side strips to `[]` or keeps its head; compare the four shapes
  by_cases leftGone : x = pad ∧ strip pad xs = []
  · by_cases rightGone : y = pad ∧ strip pad ys = []
    · simp [strip, leftGone, rightGone, Std.ReflCmp.compare_self]
    · have headOrder : compare pad y ≠ .gt := least y
      rw [strip, if_pos leftGone, strip, if_neg rightGone, leftGone.1, leftGone.2]
      cases order : compare pad y with
      | lt => rfl
      | eq =>
          have same : pad = y := Std.LawfulEqCmp.compare_eq_iff_eq.mp order
          have kept : strip pad ys ≠ [] := fun gone => rightGone ⟨same.symm, gone⟩
          obtain ⟨z, rest, split⟩ := List.exists_cons_of_ne_nil kept
          simp [split]
      | gt => exact absurd order headOrder
  · by_cases rightGone : y = pad ∧ strip pad ys = []
    · have headOrder : compare x pad ≠ .lt := by
        have swapped : compare x pad = (compare pad x).swap := Std.OrientedCmp.eq_swap
        rw [swapped]
        cases h : compare pad x with
        | lt => simp
        | eq => simp
        | gt => exact absurd h (least x)
      rw [strip, if_neg leftGone, strip, if_pos rightGone, rightGone.1, rightGone.2]
      cases order : compare x pad with
      | lt => exact absurd order headOrder
      | eq =>
          have same : x = pad := Std.LawfulEqCmp.compare_eq_iff_eq.mp order
          have kept : strip pad xs ≠ [] := fun gone => leftGone ⟨same, gone⟩
          obtain ⟨z, rest, split⟩ := List.exists_cons_of_ne_nil kept
          simp [split]
      | gt => rfl
    · rw [strip, if_neg leftGone, strip, if_neg rightGone, List.compare_cons_cons]

include least in
theorem padCompare_eq_compare_strip (xs ys : List α) :
    padCompare pad xs ys = compare (strip pad xs) (strip pad ys) := by
  induction xs generalizing ys with
  | nil =>
      by_cases padded : ∀ y ∈ ys, y = pad
      · have gone := (strip_eq_nil_iff pad ys).mpr padded
        simp only [padCompare, List.all_eq_true, decide_eq_true_eq, if_pos padded, gone, strip_nil]
        rfl
      · obtain ⟨y, rest, split⟩ := List.exists_cons_of_ne_nil
          (mt (strip_eq_nil_iff pad ys).mp padded)
        simp only [padCompare, List.all_eq_true, decide_eq_true_eq, if_neg padded, split, strip_nil]
        rfl
  | cons x xs induction =>
      cases ys with
      | nil =>
          by_cases padded : ∀ z ∈ x :: xs, z = pad
          · have gone := (strip_eq_nil_iff pad (x :: xs)).mpr padded
            simp only [padCompare, List.all_eq_true, decide_eq_true_eq, if_pos padded, gone,
              strip_nil]
            rfl
          · obtain ⟨z, rest, split⟩ := List.exists_cons_of_ne_nil
              (mt (strip_eq_nil_iff pad (x :: xs)).mp padded)
            simp only [padCompare, List.all_eq_true, decide_eq_true_eq, if_neg padded, split,
              strip_nil]
            rfl
      | cons y ys => rw [padCompare, induction ys, compare_strip_cons pad least]

end Least

end Padding
