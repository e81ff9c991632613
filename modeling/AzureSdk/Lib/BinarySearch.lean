import Mathlib

/-!
# Binary search on a slice, as the Rust standard library runs it

`<[T]>::binary_search_by` halves a window `[base, base + size)` and does not stop
at a match, so the number of probes depends only on the length; the element the
window ends on is then compared once more, and a match is `Ok`, anything else
`Err` with the insertion point. `partition_point` is the same search with a
comparator that never answers `Equal`.

The window keeps two facts: everything from `base + size` on compares
`Greater`, and `base` is `0` or compares below `Greater`. On a slice that the
comparator partitions (a run of `Less`, then of `Equal`, then of `Greater`) this
makes an `Err` the boundary between the first run and the last.
-/

namespace BinarySearch

set_option autoImplicit false

variable {α : Type}

/-- The `while size > 1` loop of `binary_search_by`. `fits` is why every probe is in
bounds, the source's `get_unchecked`. -/
def searchLoop (xs : List α) (f : α → Ordering) (base size : Nat)
    (fits : base + size ≤ xs.length) : Nat :=
  if wide : 1 < size then
    let half := size / 2
    let mid := base + half
    have inside : mid < xs.length := by omega
    searchLoop xs f (if f xs[mid] = .gt then base else mid) (size - half) (by split <;> omega)
  else base
termination_by size

theorem searchLoop_lt (xs : List α) (f : α → Ordering) (base size : Nat)
    (fits : base + size ≤ xs.length) (pos : 0 < size) : searchLoop xs f base size fits < xs.length := by
  fun_induction searchLoop xs f base size fits with
  | case1 base size fits wide half mid inside induction => exact induction (by omega)
  | case2 base size fits narrow => omega

/-- The comparison after the loop: a match, or the insertion point on either side
of the element the window ended on (`base + (cmp == Less) as usize`). -/
def settle (xs : List α) (f : α → Ordering) (base : Nat) (inside : base < xs.length) :
    Except Nat Nat :=
  match f xs[base] with
  | .eq => .ok base
  | .lt => .error (base + 1)
  | .gt => .error base

/-- `binary_search_by`: `Ok` with the index of a match, or `Err` with where the
target would be inserted. -/
def binarySearchBy (xs : List α) (f : α → Ordering) : Except Nat Nat :=
  if empty : xs.length = 0 then .error 0
  else settle xs f (searchLoop xs f 0 xs.length (by omega))
    (searchLoop_lt xs f 0 xs.length _ (by omega))

/-- `partition_point`: the index of the first element the predicate rejects. -/
def partitionPoint (xs : List α) (pred : α → Bool) : Nat :=
  match binarySearchBy xs (fun a => if pred a then .lt else .gt) with
  | .ok i => i
  | .error i => i

/-- The comparator splits the slice into a run of `Less`, then of `Equal`, then of
`Greater`. -/
def Partitioned (f : α → Ordering) (xs : List α) : Prop :=
  xs.Pairwise fun a b => (f b = .lt → f a = .lt) ∧ (f a = .gt → f b = .gt)

section Partitioned

variable {f : α → Ordering} {xs : List α}

theorem Partitioned.lt_of_le (parted : Partitioned f xs) {i j : Nat} (inside : j < xs.length)
    (before : i ≤ j) (below : f xs[j] = .lt) : f xs[i] = .lt := by
  rcases Nat.lt_or_eq_of_le before with earlier | rfl
  · exact (List.pairwise_iff_getElem.mp parted i j (by omega) inside earlier).1 below
  · exact below

theorem Partitioned.gt_of_le (parted : Partitioned f xs) {i j : Nat} (inside : j < xs.length)
    (before : i ≤ j) (above : f xs[i] = .gt) : f xs[j] = .gt := by
  rcases Nat.lt_or_eq_of_le before with earlier | rfl
  · exact (List.pairwise_iff_getElem.mp parted i j (by omega) inside earlier).2 above
  · exact above

theorem searchLoop_spec (parted : Partitioned f xs) (base size : Nat)
    (fits : base + size ≤ xs.length) (pos : 0 < size)
    (low : base = 0 ∨ ∃ inside : base < xs.length, f xs[base] ≠ .gt)
    (high : ∀ j (inside : j < xs.length), base + size ≤ j → f xs[j] = .gt) :
    let found := searchLoop xs f base size fits
    (found = 0 ∨ ∃ inside : found < xs.length, f xs[found] ≠ .gt) ∧
      ∀ j (inside : j < xs.length), found < j → f xs[j] = .gt := by
  fun_induction searchLoop xs f base size fits with
  | case1 base size fits wide half mid inside induction =>
      apply induction (by omega)
      · -- the window keeps its base, or moves it to a probe below `Greater`
        split
        · exact low
        · exact .inr ⟨inside, by assumption⟩
      · intro j within far
        split at far
        · -- the probe is `Greater`, so is all that follows it
          rename_i probeAbove
          exact parted.gt_of_le within (by omega) probeAbove
        · exact high j within (by omega)
  | case2 base size fits narrow =>
      exact ⟨low, fun j within far => high j within (by omega)⟩

theorem settle_ok {base : Nat} {inside : base < xs.length} {i : Nat}
    (found : settle xs f base inside = .ok i) : i = base ∧ f xs[base] = .eq := by
  unfold settle at found
  split at found <;> cases found
  exact ⟨rfl, by assumption⟩

theorem settle_error {base : Nat} {inside : base < xs.length} {i : Nat}
    (missed : settle xs f base inside = .error i) :
    (f xs[base] = .lt ∧ i = base + 1) ∨ (f xs[base] = .gt ∧ i = base) := by
  unfold settle at missed
  split at missed <;> cases missed
  · exact .inl ⟨by assumption, rfl⟩
  · exact .inr ⟨by assumption, rfl⟩

theorem binarySearchBy_ok {i : Nat} (found : binarySearchBy xs f = .ok i) :
    ∃ inside : i < xs.length, f xs[i] = .eq := by
  unfold binarySearchBy at found
  split at found
  · cases found
  · obtain ⟨rfl, equal⟩ := settle_ok found
    exact ⟨_, equal⟩

theorem binarySearchBy_error_zero (missed : binarySearchBy xs f = .error 0) :
    ∀ a ∈ xs.head?, f a = .gt := by
  unfold binarySearchBy at missed
  split at missed
  · rename_i empty
    simp [List.length_eq_zero_iff.mp empty]
  · intro a first
    obtain ⟨inside, rfl⟩ : ∃ inside : 0 < xs.length, xs[0] = a := by
      simpa [List.head?_eq_getElem?, List.getElem?_eq_some_iff] using first
    rcases settle_error missed with ⟨_, impossible⟩ | ⟨above, atZero⟩
    · omega
    · simpa only [← atZero] using above

theorem binarySearchBy_error (parted : Partitioned f xs) {i : Nat}
    (missed : binarySearchBy xs f = .error i) :
    i ≤ xs.length ∧ (∀ a ∈ xs.take i, f a = .lt) ∧ ∀ a ∈ xs.drop i, f a = .gt := by
  unfold binarySearchBy at missed
  split at missed
  · rename_i empty
    cases missed
    simp [List.length_eq_zero_iff.mp empty]
  · rename_i nonempty
    have inside := searchLoop_lt xs f 0 xs.length (by omega) (by omega)
    obtain ⟨low, high⟩ := searchLoop_spec parted 0 xs.length (by omega) (by omega) (.inl rfl)
      (fun j inside far => by omega)
    rcases settle_error missed with ⟨below, rfl⟩ | ⟨above, rfl⟩
    · -- the window ends below the target: the boundary is just after it
      refine ⟨by omega, ?_, ?_⟩
      · intro a member
        obtain ⟨j, within, rfl⟩ := List.mem_take_iff_getElem.mp member
        exact parted.lt_of_le inside (by omega) below
      · intro a member
        obtain ⟨j, within, rfl⟩ := List.mem_drop_iff_getElem.mp member
        exact high _ (by omega) (by omega)
    · -- the window ends above the target, which only its first element can
      have atZero : searchLoop xs f 0 xs.length (by omega) = 0 := by
        rcases low with atZero | ⟨_, notAbove⟩
        · exact atZero
        · exact absurd above notAbove
      refine ⟨by omega, by simp [atZero], ?_⟩
      intro a member
      obtain ⟨j, within, rfl⟩ := List.mem_drop_iff_getElem.mp member
      rcases Nat.eq_zero_or_pos j with rfl | later
      · simpa only [atZero] using above
      · exact high _ (by omega) (by omega)

theorem partitionPoint_eq_length_takeWhile {pred : α → Bool}
    (prefixed : xs.Pairwise fun a b => pred b = true → pred a = true) :
    partitionPoint xs pred = (xs.takeWhile pred).length := by
  let f : α → Ordering := fun a => if pred a then .lt else .gt
  have parted : Partitioned f xs := by
    refine prefixed.imp fun {a b} held => ⟨fun later => ?_, fun earlier => ?_⟩
    · by_cases first : pred a <;> by_cases second : pred b <;> simp_all [f]
    · by_cases first : pred a <;> by_cases second : pred b <;> simp_all [f]
  unfold partitionPoint
  split
  · rename_i i found
    obtain ⟨_, equal⟩ := binarySearchBy_ok found
    by_cases held : pred xs[i] <;> simp [held] at equal
  · rename_i i missed
    obtain ⟨_, before, after⟩ := binarySearchBy_error parted missed
    -- the prefix the predicate keeps is exactly the first `i` elements
    have kept : xs.takeWhile pred = xs.take i := by
      have taken : ∀ a ∈ xs.take i, pred a = true := by
        intro a member
        have := before a member
        by_cases held : pred a <;> simp_all [f]
      have stopped : (xs.drop i).takeWhile pred = [] := by
        cases rest : xs.drop i with
        | nil => rfl
        | cons a tail =>
            have rejected : pred a = false := by
              have := after a (by simp [rest])
              by_cases held : pred a <;> simp_all [f]
            simp [List.takeWhile_cons_of_neg, rejected]
      calc xs.takeWhile pred = (xs.take i ++ xs.drop i).takeWhile pred := by
            rw [List.take_append_drop]
        _ = xs.take i ++ (xs.drop i).takeWhile pred := List.takeWhile_append_of_pos taken
        _ = xs.take i := by rw [stopped, List.append_nil]
    rw [kept, List.length_take]
    omega

theorem drop_partitionPoint {pred : α → Bool}
    (prefixed : xs.Pairwise fun a b => pred b = true → pred a = true) :
    xs.drop (partitionPoint xs pred) = xs.dropWhile pred := by
  have skipped := @List.drop_left' α (xs.takeWhile pred) (xs.dropWhile pred) _ rfl
  rw [List.takeWhile_append_dropWhile] at skipped
  rw [partitionPoint_eq_length_takeWhile prefixed, skipped]

end Partitioned

end BinarySearch
