import Mathlib

/-!
# Lawful comparators and their lexicographic extension

A comparator `f : α → α → Ordering` is lawful when it is a total preorder read through
`Ordering`: reflexive, oriented (`f y x` is `f x y` swapped) and transitive. Stated one
element at a time, with that element in front (`LawfulAt f x`), the laws pass from the
components of pairs and the elements of lists to their lexicographic comparison, and from
a rank and the comparison within each rank to a comparator that orders by rank first.
That is what an induction over a tree of lists carries, one node at a time.
-/

namespace LexOrder

set_option autoImplicit false

variable {α β : Type}

structure LawfulAt (f : α → α → Ordering) (x : α) : Prop where
  refl : f x x = .eq
  swap : ∀ y, f y x = (f x y).swap
  eq_trans : ∀ y z, f x y = .eq → f y z = .eq → f x z = .eq
  lt_of_lt_of_le : ∀ y z, f x y = .lt → f y z ≠ .gt → f x z = .lt
  lt_of_le_of_lt : ∀ y z, f x y ≠ .gt → f y z = .lt → f x z = .lt

def Lawful (f : α → α → Ordering) : Prop := ∀ x, LawfulAt f x

variable {f : α → α → Ordering} {x : α}

theorem LawfulAt.le_trans (lawful : LawfulAt f x) {y z : α} (first : f x y ≠ .gt) (second : f y z ≠ .gt) :
    f x z ≠ .gt := by
  cases below : f x y with
  | lt => rw [lawful.lt_of_lt_of_le y z below second]; decide
  | eq =>
      cases next : f y z with
      | lt => rw [lawful.lt_of_le_of_lt y z first next]; decide
      | eq => rw [lawful.eq_trans y z below next]; decide
      | gt => exact absurd next second
  | gt => exact absurd below first

theorem lawful_compare [LinearOrder β] : Lawful (compare : β → β → Ordering) := by
  intro x
  refine ⟨compare_eq_iff_eq.mpr rfl, fun y => ?_, fun y z first second => ?_, fun y z first second => ?_,
    fun y z first second => ?_⟩
  · rcases lt_trichotomy x y with below | same | above
    · rw [compare_lt_iff_lt.mpr below, compare_gt_iff_gt.mpr below]; rfl
    · subst same; rw [compare_eq_iff_eq.mpr rfl]; rfl
    · rw [compare_gt_iff_gt.mpr above, compare_lt_iff_lt.mpr above]; rfl
  · rw [compare_eq_iff_eq] at first second ⊢
    exact first.trans second
  · rw [compare_lt_iff_lt] at first ⊢
    exact lt_of_lt_of_le first (compare_le_iff_le.mp second)
  · rw [compare_lt_iff_lt] at second ⊢
    exact lt_of_le_of_lt (compare_le_iff_le.mp first) second

structure LawfulWithin (f : α → α → Ordering) (inClass : α → Prop) (x : α) : Prop where
  refl : f x x = .eq
  swap : ∀ y, inClass y → f y x = (f x y).swap
  eq_trans : ∀ y z, inClass y → inClass z → f x y = .eq → f y z = .eq → f x z = .eq
  lt_of_lt_of_le : ∀ y z, inClass y → inClass z → f x y = .lt → f y z ≠ .gt → f x z = .lt
  lt_of_le_of_lt : ∀ y z, inClass y → inClass z → f x y ≠ .gt → f y z = .lt → f x z = .lt

theorem LawfulAt.within {inClass : α → Prop} (lawful : LawfulAt f x) : LawfulWithin f inClass x :=
  ⟨lawful.refl, fun y _ => lawful.swap y, fun y z _ _ => lawful.eq_trans y z,
    fun y z _ _ => lawful.lt_of_lt_of_le y z, fun y z _ _ => lawful.lt_of_le_of_lt y z⟩

theorem LawfulWithin.univ (lawful : LawfulWithin f (fun _ => True) x) : LawfulAt f x :=
  ⟨lawful.refl, fun y => lawful.swap y trivial, fun y z => lawful.eq_trans y z trivial trivial,
    fun y z => lawful.lt_of_lt_of_le y z trivial trivial, fun y z => lawful.lt_of_le_of_lt y z trivial trivial⟩

theorem LawfulWithin.map {g : β → β → Ordering} {inClass : α → Prop} {source : β → Prop} (wrap : β → α) {v : β}
    (lawful : LawfulWithin g source v) (onto : ∀ y, inClass y → ∃ w, source w ∧ y = wrap w)
    (agrees : ∀ w w', f (wrap w) (wrap w') = g w w') : LawfulWithin f inClass (wrap v) := by
  refine ⟨by rw [agrees, lawful.refl], fun y inY => ?_, fun y z inY inZ => ?_, fun y z inY inZ => ?_,
    fun y z inY inZ => ?_⟩ <;>
    obtain ⟨w, sourceW, rfl⟩ := onto y inY
  · rw [agrees, agrees, lawful.swap w sourceW]
  all_goals
    obtain ⟨w', sourceW', rfl⟩ := onto z inZ
    simp only [agrees]
  · exact lawful.eq_trans w w' sourceW sourceW'
  · exact lawful.lt_of_lt_of_le w w' sourceW sourceW'
  · exact lawful.lt_of_le_of_lt w w' sourceW sourceW'

theorem LawfulAt.comap (key : β → α) {y : β} (lawful : LawfulAt f (key y)) :
    LawfulAt (fun a b => f (key a) (key b)) y :=
  ⟨lawful.refl, fun z => lawful.swap (key z), fun z w => lawful.eq_trans (key z) (key w),
    fun z w => lawful.lt_of_lt_of_le (key z) (key w), fun z w => lawful.lt_of_le_of_lt (key z) (key w)⟩

theorem lawful_tied : Lawful (fun _ _ : α => Ordering.eq) := fun _ =>
  ⟨rfl, fun _ => rfl, fun _ _ _ _ => rfl, fun _ _ tied => absurd tied (by decide),
    fun _ _ _ tied => absurd tied (by decide)⟩

theorem Lawful.reverse (lawful : Lawful f) : Lawful (fun a b => (f a b).swap) := by
  intro x
  have flip : ∀ a b, (f a b).swap = f b a := fun a b => ((lawful a).swap b).symm
  simp only [flip]
  refine ⟨(lawful x).refl, fun y => (lawful y).swap x, fun y z first second => ?_,
    fun y z first second => ?_, fun y z first second => ?_⟩
  · exact (lawful z).eq_trans y x second first
  · exact (lawful z).lt_of_le_of_lt y x second first
  · exact (lawful z).lt_of_lt_of_le y x second first

/-- The preorder a lawful comparator is read as: `x ≤ y` when `f x y` is not `Greater`, and
`x < y` when it is `Less`. -/
abbrev Lawful.toPreorder (lawful : Lawful f) : Preorder α where
  le x y := f x y ≠ .gt
  lt x y := f x y = .lt
  le_refl x := by simp [(lawful x).refl]
  le_trans x _ _ := (lawful x).le_trans
  lt_iff_le_not_ge x y := by
    show f x y = .lt ↔ f x y ≠ .gt ∧ ¬ f y x ≠ .gt
    rw [(lawful x).swap y]
    cases f x y <;> decide

theorem Lawful.le_total (lawful : Lawful f) (x y : α) : f x y ≠ .gt ∨ f y x ≠ .gt := by
  rw [(lawful x).swap y]
  cases f x y <;> decide

/-! ## Pairs -/

section Pairs

variable {g : α → α → Ordering} {h : β → β → Ordering} {a : α} {b : β}

def byPair (g : α → α → Ordering) (h : β → β → Ordering) (p q : α × β) : Ordering :=
  (g p.1 q.1).then (h p.2 q.2)

theorem lawfulWithin_byPair {inClass : β → Prop} (first : LawfulAt g a) (second : LawfulWithin h inClass b) :
    LawfulWithin (byPair g h) (fun p => inClass p.2) (a, b) := by
  refine ⟨?_, fun ⟨c, d⟩ inD => ?_, fun ⟨c, d⟩ ⟨e, k⟩ inD inK => ?_, fun ⟨c, d⟩ ⟨e, k⟩ inD inK => ?_,
    fun ⟨c, d⟩ ⟨e, k⟩ inD inK => ?_⟩
  · simp [byPair, first.refl, second.refl]
  · simp only [byPair, first.swap c, second.swap d inD, Ordering.swap_then]
  · simp only [byPair, Ordering.then_eq_eq]
    rintro ⟨heads, tails⟩ ⟨heads', tails'⟩
    exact ⟨first.eq_trans c e heads heads', second.eq_trans d k inD inK tails tails'⟩
  · simp only [byPair, Ordering.then_eq_lt, ne_eq, Ordering.then_eq_gt, not_or, not_and]
    rintro (heads | ⟨heads, tails⟩) ⟨notAbove, notTied⟩
    · exact .inl (first.lt_of_lt_of_le c e heads notAbove)
    · cases next : g c e with
      | lt => exact .inl (first.lt_of_le_of_lt c e (by rw [heads]; decide) next)
      | eq => exact .inr ⟨first.eq_trans c e heads next, second.lt_of_lt_of_le d k inD inK tails (notTied next)⟩
      | gt => exact absurd next notAbove
  · simp only [byPair, Ordering.then_eq_lt, ne_eq, Ordering.then_eq_gt, not_or, not_and]
    rintro ⟨notAbove, notTied⟩ (heads | ⟨heads, tails⟩)
    · exact .inl (first.lt_of_le_of_lt c e notAbove heads)
    · cases before : g a c with
      | lt => exact .inl (first.lt_of_lt_of_le c e before (by rw [heads]; decide))
      | eq => exact .inr ⟨first.eq_trans c e before heads, second.lt_of_le_of_lt d k inD inK (notTied before) tails⟩
      | gt => exact absurd before notAbove

theorem lawfulAt_byPair (first : LawfulAt g a) (second : LawfulAt h b) : LawfulAt (byPair g h) (a, b) :=
  (lawfulWithin_byPair first (second.within : LawfulWithin h (fun _ => True) b)).univ

end Pairs

/-! ## Lists -/

/-- `Iterator::cmp` and the `Ord` of slices: element by element, a proper prefix first. -/
def lex (f : α → α → Ordering) : List α → List α → Ordering
  | [], [] => .eq
  | [], _ :: _ => .lt
  | _ :: _, [] => .gt
  | x :: xs, y :: ys => (f x y).then (lex f xs ys)

theorem lawfulAt_lex {xs : List α} (each : ∀ x ∈ xs, LawfulAt f x) : LawfulAt (lex f) xs := by
  induction xs with
  | nil =>
      refine ⟨rfl, fun ys => ?_, fun ys zs => ?_, fun ys zs => ?_, fun ys zs => ?_⟩ <;>
        cases ys <;> (try cases zs) <;> simp [lex]
  | cons x xs induction =>
      -- a non-empty list compares as the pair of its head and its tail
      have pair := lawfulAt_byPair (each x List.mem_cons_self)
        (induction fun y member => each y (List.mem_cons_of_mem _ member))
      refine ⟨pair.refl, fun ys => ?_, fun ys zs => ?_, fun ys zs => ?_, fun ys zs => ?_⟩
      · cases ys with
        | nil => rfl
        | cons y ys => exact pair.swap (y, ys)
      · cases ys with
        | nil => simp [lex]
        | cons y ys =>
            cases zs with
            | nil => simp [lex]
            | cons z zs => exact pair.eq_trans (y, ys) (z, zs)
      · cases ys with
        | nil => simp [lex]
        | cons y ys =>
            cases zs with
            | nil => simp [lex]
            | cons z zs => exact pair.lt_of_lt_of_le (y, ys) (z, zs)
      · cases ys with
        | nil => simp [lex]
        | cons y ys =>
            cases zs with
            | nil => simp [lex]
            | cons z zs => exact pair.lt_of_le_of_lt (y, ys) (z, zs)

/-! ## Ordering by rank first -/

section Rank

variable [LinearOrder β] {rank : α → β}

theorem lawfulAt_of_rank (ranked : ∀ y z, rank y ≠ rank z → f y z = compare (rank y) (rank z))
    (within : LawfulWithin f (fun y => rank y = rank x) x) : LawfulAt f x := by
  have ranks := lawful_compare (rank x)
  refine ⟨within.refl, fun y => ?_, fun y z first second => ?_, fun y z first second => ?_,
    fun y z first second => ?_⟩
  · by_cases same : rank y = rank x
    · exact within.swap y same
    · rw [ranked y x same, ranked x y (Ne.symm same), ranks.swap]
  · have sameY : rank x = rank y := by
      by_contra other
      rw [ranked x y other, compare_eq_iff_eq] at first
      exact other first
    have sameZ : rank y = rank z := by
      by_contra other
      rw [ranked y z other, compare_eq_iff_eq] at second
      exact other second
    exact within.eq_trans y z sameY.symm (sameY.trans sameZ).symm first second
  · by_cases sameY : rank x = rank y
    · by_cases sameZ : rank y = rank z
      · exact within.lt_of_lt_of_le y z sameY.symm (sameY.trans sameZ).symm first second
      · rw [ranked y z sameZ] at second
        rw [ranked x z (by rwa [sameY]), sameY]
        exact compare_lt_iff_lt.mpr (lt_of_le_of_ne (compare_le_iff_le.mp second) sameZ)
    · rw [ranked x y sameY, compare_lt_iff_lt] at first
      by_cases sameZ : rank y = rank z
      · rw [ranked x z (by rwa [← sameZ]), ← sameZ]
        exact compare_lt_iff_lt.mpr first
      · rw [ranked y z sameZ] at second
        have below : rank x < rank z := lt_of_lt_of_le first (compare_le_iff_le.mp second)
        rw [ranked x z (ne_of_lt below)]
        exact compare_lt_iff_lt.mpr below
  · by_cases sameZ : rank y = rank z
    · by_cases sameY : rank x = rank y
      · exact within.lt_of_le_of_lt y z sameY.symm (sameY.trans sameZ).symm first second
      · rw [ranked x y sameY] at first
        have below : rank x < rank z := sameZ ▸ lt_of_le_of_ne (compare_le_iff_le.mp first) sameY
        rw [ranked x z (ne_of_lt below)]
        exact compare_lt_iff_lt.mpr below
    · rw [ranked y z sameZ, compare_lt_iff_lt] at second
      by_cases sameY : rank x = rank y
      · rw [ranked x z (by rwa [sameY]), sameY]
        exact compare_lt_iff_lt.mpr second
      · rw [ranked x y sameY] at first
        have below : rank x < rank z := lt_of_le_of_lt (compare_le_iff_le.mp first) second
        rw [ranked x z (ne_of_lt below)]
        exact compare_lt_iff_lt.mpr below

end Rank

end LexOrder
