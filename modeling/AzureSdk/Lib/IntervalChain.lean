import Mathlib

/-!
# Chains of half-open intervals

A list of intervals `[lower r, upper r)` chains from `start` to `stop` when the
first begins at `start`, each begins where the one before it ended, and the last
ends at `stop`. "At" is equivalence in a preorder, which is what keys that differ
only by padding have. When no interval runs backwards, a chain tiles
`[start, stop)`: a point lies in at most one interval, in the one that begins
last at or below it if it lies in `[start, stop)` at all, and the intervals that
meet `[s, e)` are those from the one holding `s` on that begin below `e`.
-/

namespace IntervalChain

set_option autoImplicit false

variable {α β : Type} [Preorder α] (lower upper : β → α)

inductive Chain : α → α → List β → Prop
  | nil {start stop : α} : AntisymmRel (· ≤ ·) start stop → Chain start stop []
  | cons {start stop : α} {r : β} {rest : List β} :
      AntisymmRel (· ≤ ·) (lower r) start → Chain (upper r) stop rest →
        Chain start stop (r :: rest)

variable {lower upper}

theorem Chain.congr_stop {start stop stop' : α} {l : List β} (chain : Chain lower upper start stop l)
    (same : AntisymmRel (· ≤ ·) stop stop') : Chain lower upper start stop' l := by
  induction chain with
  | nil ends => exact .nil (ends.trans same)
  | cons begins _ induction => exact .cons begins (induction same)

theorem Chain.suffix {start stop : α} {pre post : List β} {r : β}
    (chain : Chain lower upper start stop (pre ++ r :: post)) : Chain lower upper (upper r) stop post := by
  induction pre generalizing start with
  | nil =>
      cases chain with
      | cons _ rest => exact rest
  | cons a pre induction =>
      cases chain with
      | cons _ rest => exact induction rest

section Ordered

variable {start stop : α} {l : List β}

theorem Chain.start_le_stop (chain : Chain lower upper start stop l)
    (ordered : ∀ r ∈ l, lower r ≤ upper r) : start ≤ stop := by
  induction chain with
  | nil ends => exact ends.le
  | cons begins _ induction =>
      exact begins.ge.trans ((ordered _ (by simp)).trans
        (induction fun r member => ordered r (by simp [member])))

theorem Chain.start_le_lower (chain : Chain lower upper start stop l)
    (ordered : ∀ r ∈ l, lower r ≤ upper r) : ∀ b ∈ l, start ≤ lower b := by
  induction chain with
  | nil => simp
  | @cons start stop r rest begins _ induction =>
      intro b member
      rcases List.mem_cons.mp member with rfl | later
      · exact begins.ge
      · -- a later interval begins after this one ends
        have after := induction (fun r member => ordered r (by simp [member])) b later
        exact begins.ge.trans ((ordered r (by simp)).trans after)

theorem Chain.upper_le_stop (chain : Chain lower upper start stop l)
    (ordered : ∀ r ∈ l, lower r ≤ upper r) : ∀ b ∈ l, upper b ≤ stop := by
  induction chain with
  | nil => simp
  | @cons start stop r rest begins rest_chain induction =>
      have rest_ordered : ∀ r ∈ rest, lower r ≤ upper r := fun r member => ordered r (by simp [member])
      intro b member
      rcases List.mem_cons.mp member with rfl | later
      · exact rest_chain.start_le_stop rest_ordered
      · exact induction rest_ordered b later

theorem Chain.pairwise (chain : Chain lower upper start stop l)
    (ordered : ∀ r ∈ l, lower r ≤ upper r) : l.Pairwise fun a b => upper a ≤ lower b := by
  induction chain with
  | nil => exact .nil
  | @cons start stop r rest begins rest_chain induction =>
      have rest_ordered : ∀ r ∈ rest, lower r ≤ upper r := fun r member => ordered r (by simp [member])
      exact List.pairwise_cons.mpr
        ⟨rest_chain.start_le_lower rest_ordered, induction rest_ordered⟩

theorem Chain.sorted (chain : Chain lower upper start stop l)
    (ordered : ∀ r ∈ l, lower r ≤ upper r) : l.Pairwise fun a b => lower a ≤ lower b := by
  have separated := chain.pairwise ordered
  rw [List.pairwise_iff_getElem] at separated ⊢
  intro i j inside_i inside_j before
  exact (ordered _ (List.getElem_mem _)).trans (separated i j inside_i inside_j before)

theorem Chain.lt_upper {pre post : List β} {r : β} {x : α}
    (chain : Chain lower upper start stop (pre ++ r :: post)) (beforeNext : ∀ a ∈ post, x < lower a)
    (belowStop : x < stop) : x < upper r := by
  cases post with
  | nil =>
      cases chain.suffix with
      | nil ends => exact lt_of_lt_of_antisymmRel belowStop ends.symm
  | cons next rest =>
      cases chain.suffix with
      | cons begins _ => exact lt_of_lt_of_antisymmRel (beforeNext next (by simp)) begins

variable [DecidableLE α] [DecidableLT α]

theorem Chain.filter_contains {pre post : List β} {r : β} {x : α}
    (chain : Chain lower upper start stop (pre ++ r :: post))
    (ordered : ∀ a ∈ pre ++ r :: post, lower a ≤ upper a)
    (atOrAfter : lower r ≤ x) (before : x < upper r) :
    (pre ++ r :: post).filter (fun a => decide (lower a ≤ x ∧ x < upper a)) = [r] := by
  have separated := chain.pairwise ordered
  rw [List.pairwise_append, List.pairwise_cons] at separated
  obtain ⟨-, ⟨endsBefore, -⟩, earlier⟩ := separated
  have earlierMiss : pre.filter (fun a => decide (lower a ≤ x ∧ x < upper a)) = [] := by
    refine List.filter_eq_nil_iff.mpr fun a member => ?_
    have ends : upper a ≤ x := (earlier a member r (by simp)).trans atOrAfter
    simp [not_lt_of_ge ends]
  have laterMiss : post.filter (fun a => decide (lower a ≤ x ∧ x < upper a)) = [] := by
    refine List.filter_eq_nil_iff.mpr fun a member => ?_
    have begins : x < lower a := lt_of_lt_of_le before (endsBefore a member)
    simp [not_le_of_gt begins]
  rw [List.filter_append, earlierMiss, List.filter_cons_of_pos (by simp [atOrAfter, before]),
    laterMiss, List.nil_append]

omit [DecidableLE α] in
theorem filter_eq_takeWhile {l : List β} {e : α} (sorted : l.Pairwise fun a b => lower a ≤ lower b) :
    l.filter (fun a => decide (lower a < e)) = l.takeWhile (fun a => decide (lower a < e)) := by
  induction l with
  | nil => rfl
  | cons a rest induction =>
      obtain ⟨aFirst, restSorted⟩ := List.pairwise_cons.mp sorted
      by_cases below : lower a < e
      · simp [below, induction restSorted]
      · -- nothing after an element at or above the bound is below it
        have none : rest.filter (fun a => decide (lower a < e)) = [] :=
          List.filter_eq_nil_iff.mpr fun b member held =>
            below (lt_of_le_of_lt (aFirst b member) (by simpa using held))
        simp [below, none]

omit [DecidableLE α] in
theorem Chain.filter_overlaps {pre post : List β} {r : β} {s : α} (e : α)
    (chain : Chain lower upper start stop (pre ++ r :: post))
    (ordered : ∀ a ∈ pre ++ r :: post, lower a ≤ upper a)
    (atOrAfter : lower r ≤ s) (before : s < upper r) :
    (pre ++ r :: post).filter (fun a => decide (lower a < e ∧ s < upper a)) =
      (r :: post).takeWhile (fun a => decide (lower a < e)) := by
  have separated := chain.pairwise ordered
  rw [List.pairwise_append, List.pairwise_cons] at separated
  obtain ⟨-, ⟨endsBefore, -⟩, earlier⟩ := separated
  have earlierMiss : pre.filter (fun a => decide (lower a < e ∧ s < upper a)) = [] := by
    refine List.filter_eq_nil_iff.mpr fun a member => ?_
    have ends : upper a ≤ s := (earlier a member r (by simp)).trans atOrAfter
    simp [not_lt_of_ge ends]
  -- from the interval holding `s` on, every interval ends after `s`
  have laterEnd : ∀ a ∈ r :: post, s < upper a := by
    intro a member
    rcases List.mem_cons.mp member with rfl | later
    · exact before
    · exact lt_of_lt_of_le (lt_of_lt_of_le before (endsBefore a later)) (ordered a (by simp [later]))
  have restSorted : (r :: post).Pairwise fun a b => lower a ≤ lower b :=
    (chain.sorted ordered).sublist (List.sublist_append_right pre _)
  have onlyStart : (r :: post).filter (fun a => decide (lower a < e ∧ s < upper a)) =
      (r :: post).filter (fun a => decide (lower a < e)) :=
    List.filter_congr fun a member => by simp [laterEnd a member]
  rw [List.filter_append, earlierMiss, List.nil_append, onlyStart, filter_eq_takeWhile restSorted]

end Ordered

end IntervalChain
