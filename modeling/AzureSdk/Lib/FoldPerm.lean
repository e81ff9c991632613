import Mathlib

/-!
# Folds over permutations

A left fold gives the same result over any reordering of its list when two steps
can be swapped. Mathlib asks this of every state; an operation that is only a
semilattice on part of its domain (values of one version, say) needs it only on
the states a fold can reach, those that keep an invariant.
-/

namespace FoldPerm

set_option autoImplicit false

variable {α β : Type} {f : β → α → β}

theorem foldl_eq_of_perm (Good : β → Prop) (Allowed : α → Prop)
    (keeps : ∀ state item, Good state → Allowed item → Good (f state item))
    (swaps : ∀ state first second, Good state → Allowed first → Allowed second →
      f (f state first) second = f (f state second) first)
    {items reordered : List α} (perm : items.Perm reordered) (allowed : ∀ item ∈ items, Allowed item)
    (start : β) (good : Good start) : items.foldl f start = reordered.foldl f start := by
  induction perm generalizing start with
  | nil => rfl
  | cons item _ induction =>
      exact induction (fun other member => allowed other (List.mem_cons_of_mem _ member)) _
        (keeps _ _ good (allowed item List.mem_cons_self))
  | swap first second rest =>
      simp only [List.foldl_cons]
      rw [swaps start second first good (allowed second List.mem_cons_self)
        (allowed first (List.mem_cons_of_mem _ List.mem_cons_self))]
  | trans first _ firstInduction secondInduction =>
      rw [firstInduction allowed start good,
        secondInduction (fun other member => allowed other (first.mem_iff.mpr member)) start good]

end FoldPerm
