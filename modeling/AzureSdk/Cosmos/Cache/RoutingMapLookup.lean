import AzureSdk.Cosmos.Cache.ContainerRoutingMap

/-!
# Lookups in a routing map

`get_range_by_effective_partition_key`, `get_overlapping_ranges` and
`single_overlapping_range_id` on the maps construction returns. Both lookups
start from `find_range_index`, a binary search for the last range whose minimum is
at or below the key. Construction sorts the ranges by their minimum, so the
search sees the comparisons partitioned and lands on that range; the chain the
validation checked then makes it the range that holds the key.

That needs every range to hold something. The search can land on an empty range
whose minimum equals the key, and the shortcut for the empty key returns the
first range whether or not it is empty; and a query starting at or past `MAX`
lands on the last range, which it does not meet.
-/

namespace CosmosDriver

namespace ContainerRoutingMap

open Outcome IntervalChain BinarySearch

set_option autoImplicit false

/-- What the lookups of a map are for: the range that holds a key below `MAX`, nothing
at or past `MAX`, the ranges a query range meets, and the id of the only one. -/
structure LookupsExact (m : ContainerRoutingMap) : Prop where
  holding : ∀ x, x < EffectivePartitionKey.max → ∃ r,
    m.getRangeByEffectivePartitionKey x = .ok (some r) ∧
      m.orderedRanges.filter (fun r => decide (r.minInclusive ≤ x ∧ x < r.maxExclusive)) = [r]
  pastMax : ∀ x, EffectivePartitionKey.max ≤ x → m.getRangeByEffectivePartitionKey x = .ok none
  overlapping : ∀ s e, s < EffectivePartitionKey.max →
    m.getOverlappingRanges s e =
      .ok (m.orderedRanges.filter fun r => decide (r.minInclusive < e ∧ s < r.maxExclusive))
  single : ∀ s e, s < EffectivePartitionKey.max → ∀ (debugAssertions : Bool) (id : String),
    m.singleOverlappingRangeId debugAssertions s e = .ok (some id) ↔
      ∃ r, m.orderedRanges.filter (fun r => decide (r.minInclusive < e ∧ s < r.maxExclusive)) = [r] ∧
        r.id = id
  searchSettles : ∀ x, m.findRangeIndex x ≠ panic

section WellFormed

variable {m : ContainerRoutingMap} (formed : m.WellFormed)

include formed

theorem WellFormed.ne_nil : m.orderedRanges ≠ [] := by
  intro empty
  have chain := formed.chain
  rw [empty] at chain
  cases chain with
  | nil ends => exact absurd ends.ge (by decide)

theorem WellFormed.first_le {x : EffectivePartitionKey} {first : PartitionKeyRange}
    (head : first ∈ m.orderedRanges.head?) : first.minInclusive ≤ x := by
  obtain ⟨rest, split⟩ : ∃ rest, m.orderedRanges = first :: rest := by
    cases ranges : m.orderedRanges with
    | nil => simp [ranges] at head
    | cons a rest => simp_all
  have chain := formed.chain
  rw [split] at chain
  cases chain with
  | cons begins _ => exact begins.le.trans (EffectivePartitionKey.min_le x)

theorem WellFormed.partitioned (x : EffectivePartitionKey) :
    Partitioned (fun r => r.minInclusive.cmp x) m.orderedRanges := by
  refine formed.sorted.imp fun {a b} ordered => ⟨fun below => ?_, fun above => ?_⟩
  · rw [← EffectivePartitionKey.lt_iff_cmp] at below ⊢
    exact lt_of_le_of_lt ordered below
  · rw [← EffectivePartitionKey.gt_iff_cmp] at above ⊢
    exact lt_of_lt_of_le above ordered

theorem findRangeIndex_spec (x : EffectivePartitionKey) :
    ∃ i, ∃ inside : i < m.orderedRanges.length, m.findRangeIndex x = .ok i ∧
      m.orderedRanges[i].minInclusive ≤ x ∧
        (AntisymmRel (· ≤ ·) m.orderedRanges[i].minInclusive x ∨
          ∀ a ∈ m.orderedRanges.drop (i + 1), x < a.minInclusive) := by
  unfold findRangeIndex
  split
  · rename_i i found
    obtain ⟨inside, equal⟩ := binarySearchBy_ok found
    have same := (EffectivePartitionKey.cmp_eq_iff_antisymmRel _ _).mp equal
    exact ⟨i, inside, rfl, same.le, .inl same⟩
  · rename_i i missed
    obtain ⟨fits, before, after⟩ := binarySearchBy_error (formed.partitioned x) missed
    have below : m.orderedRanges[i].minInclusive < x := by
      rw [EffectivePartitionKey.lt_iff_cmp]
      exact before _ (List.mem_take_iff_getElem.mpr ⟨i, by simp; omega, rfl⟩)
    refine ⟨i, by omega, rfl, below.le, .inr fun a member => ?_⟩
    exact (EffectivePartitionKey.gt_iff_cmp _ _).mpr (after a member)
  · -- `Err(0)` would put the key below the first range, which begins at `MIN`
    rename_i missed
    obtain ⟨first, head⟩ := Option.ne_none_iff_exists'.mp
      (mt List.head?_eq_none_iff.mp formed.ne_nil)
    have above := binarySearchBy_error_zero missed first head
    rw [← EffectivePartitionKey.gt_iff_cmp] at above
    exact absurd (formed.first_le head) (not_le_of_gt above)

theorem findRangeIndex_ne_panic (x : EffectivePartitionKey) : m.findRangeIndex x ≠ panic := by
  obtain ⟨i, -, found, -⟩ := findRangeIndex_spec formed x
  rw [found]
  exact fun stopped => nomatch stopped

end WellFormed

theorem eq_take_append_getElem_cons {α : Type} (l : List α) {i : Nat} (inside : i < l.length) :
    l = l.take i ++ l[i] :: l.drop (i + 1) := by
  rw [List.getElem_cons_drop, List.take_append_drop]

section NonEmpty

variable {m : ContainerRoutingMap} (formed : m.WellFormed)
  (nonEmpty : ∀ r ∈ m.orderedRanges, r.minInclusive < r.maxExclusive)

include nonEmpty in
theorem ordered_of_nonEmpty : ∀ r ∈ m.orderedRanges, r.minInclusive ≤ r.maxExclusive :=
  fun r member => (nonEmpty r member).le

include formed nonEmpty

theorem findRangeIndex_holds {x : EffectivePartitionKey} (below : x < EffectivePartitionKey.max) :
    ∃ i, ∃ inside : i < m.orderedRanges.length, m.findRangeIndex x = .ok i ∧
      m.orderedRanges[i].minInclusive ≤ x ∧ x < m.orderedRanges[i].maxExclusive := by
  obtain ⟨i, inside, found, atOrAfter, landed⟩ := findRangeIndex_spec formed x
  have split := eq_take_append_getElem_cons m.orderedRanges inside
  have chain := formed.chain
  rw [split] at chain
  -- every later range begins after the key: at once, or past the end of this range
  have later : ∀ a ∈ m.orderedRanges.drop (i + 1), x < a.minInclusive := by
    rcases landed with same | beforeNext
    · intro a member
      have separated := formed.chain.pairwise (ordered_of_nonEmpty nonEmpty)
      rw [split, List.pairwise_append, List.pairwise_cons] at separated
      have ends := separated.2.1.1 a member
      exact lt_of_lt_of_le (lt_of_antisymmRel_of_lt same.symm
        (nonEmpty _ (List.getElem_mem inside))) ends
    · exact beforeNext
  exact ⟨i, inside, found, atOrAfter, chain.lt_upper later below⟩

theorem filter_holding {x : EffectivePartitionKey} {i : Nat} (inside : i < m.orderedRanges.length)
    (atOrAfter : m.orderedRanges[i].minInclusive ≤ x) (before : x < m.orderedRanges[i].maxExclusive) :
    m.orderedRanges.filter (fun r => decide (r.minInclusive ≤ x ∧ x < r.maxExclusive)) =
      [m.orderedRanges[i]] := by
  have split := eq_take_append_getElem_cons m.orderedRanges inside
  have chain := formed.chain
  have ordered := ordered_of_nonEmpty nonEmpty
  rw [split] at chain ordered
  have holding := chain.filter_contains ordered atOrAfter before
  rwa [← split] at holding

theorem getRange_holding {x : EffectivePartitionKey} (below : x < EffectivePartitionKey.max) :
    ∃ r, m.getRangeByEffectivePartitionKey x = .ok (some r) ∧
      m.orderedRanges.filter (fun r => decide (r.minInclusive ≤ x ∧ x < r.maxExclusive)) = [r] := by
  have nonempty := formed.ne_nil
  have inside : 0 < m.orderedRanges.length := List.length_pos_iff.mpr nonempty
  unfold getRangeByEffectivePartitionKey
  rw [if_neg (by simpa using nonempty)]
  split
  · -- the empty key is `MIN`, which the first range holds when it is not empty
    rename_i emptyKey
    have isMin : x = EffectivePartitionKey.min := by
      cases x
      simp_all [EffectivePartitionKey.min]
    subst isMin
    have first : m.orderedRanges[0].minInclusive ≤ EffectivePartitionKey.min :=
      formed.first_le (List.head?_eq_getElem?.symm ▸ (List.getElem?_eq_getElem inside))
    have begins : AntisymmRel (· ≤ ·) m.orderedRanges[0].minInclusive EffectivePartitionKey.min :=
      ⟨first, EffectivePartitionKey.min_le _⟩
    have before := lt_of_antisymmRel_of_lt begins.symm (nonEmpty _ (List.getElem_mem inside))
    refine ⟨m.orderedRanges[0], by simp [index_of_lt inside], ?_⟩
    exact filter_holding formed nonEmpty inside first before
  · obtain ⟨i, within, found, atOrAfter, before⟩ := findRangeIndex_holds formed nonEmpty below
    refine ⟨m.orderedRanges[i], ?_, filter_holding formed nonEmpty within atOrAfter before⟩
    simp [found, index_of_lt within, atOrAfter, before]

theorem getRange_pastMax {x : EffectivePartitionKey} (atOrPast : EffectivePartitionKey.max ≤ x) :
    m.getRangeByEffectivePartitionKey x = .ok none := by
  have nonempty := formed.ne_nil
  unfold getRangeByEffectivePartitionKey
  rw [if_neg (by simpa using nonempty)]
  have notEmptyKey : x.bytes.isEmpty = false := by
    cases x with
    | mk bytes =>
        cases bytes with
        | nil => exact absurd atOrPast (by decide)
        | cons b rest => rfl
  rw [if_neg (by simp [notEmptyKey])]
  obtain ⟨i, within, found, -, -⟩ := findRangeIndex_spec formed x
  -- no range ends past `MAX`
  have ends := formed.chain.upper_le_stop (ordered_of_nonEmpty nonEmpty) _
    (List.getElem_mem within)
  simp [found, index_of_lt within, not_lt_of_ge (ends.trans atOrPast)]

theorem overlappingRangeBounds_spec {s : EffectivePartitionKey} (e : EffectivePartitionKey)
    (below : s < EffectivePartitionKey.max) :
    ∃ i, i < m.orderedRanges.length ∧
      m.overlappingRangeBounds s e = .ok (some (i,
        ((m.orderedRanges.drop i).takeWhile fun r => decide (r.minInclusive < e)).length + i)) ∧
      m.orderedRanges.filter (fun r => decide (r.minInclusive < e ∧ s < r.maxExclusive)) =
        (m.orderedRanges.drop i).takeWhile fun r => decide (r.minInclusive < e) := by
  obtain ⟨i, inside, found, atOrAfter, before⟩ := findRangeIndex_holds formed nonEmpty below
  have restSorted : (m.orderedRanges.drop i).Pairwise fun a b =>
      decide (b.minInclusive < e) = true → decide (a.minInclusive < e) = true := by
    refine (formed.sorted.sublist (List.drop_sublist _ _)).imp fun {a b} ordered => ?_
    simpa using fun belowEnd => lt_of_le_of_lt ordered belowEnd
  have bounds : m.overlappingRangeBounds s e = .ok (some (i,
      ((m.orderedRanges.drop i).takeWhile fun r => decide (r.minInclusive < e)).length + i)) := by
    unfold overlappingRangeBounds
    rw [if_neg (by simpa using formed.ne_nil)]
    simp [found, sliceFrom_of_le inside.le, partitionPoint_eq_length_takeWhile restSorted]
  have split := eq_take_append_getElem_cons m.orderedRanges inside
  have chain := formed.chain
  have ordered := ordered_of_nonEmpty nonEmpty
  rw [split] at chain ordered
  have overlaps := chain.filter_overlaps e ordered atOrAfter before
  rw [← split, List.getElem_cons_drop] at overlaps
  exact ⟨i, inside, bounds, overlaps⟩

theorem getOverlapping_exact {s : EffectivePartitionKey} (e : EffectivePartitionKey)
    (below : s < EffectivePartitionKey.max) :
    m.getOverlappingRanges s e =
      .ok (m.orderedRanges.filter fun r => decide (r.minInclusive < e ∧ s < r.maxExclusive)) := by
  obtain ⟨i, inside, bounds, overlaps⟩ := overlappingRangeBounds_spec formed nonEmpty e below
  have taken : ((m.orderedRanges.drop i).takeWhile fun r => decide (r.minInclusive < e)).length ≤
      (m.orderedRanges.drop i).length := (List.takeWhile_sublist _).length_le
  rw [List.length_drop] at taken
  unfold getOverlappingRanges
  simp only [bounds, ok_bind]
  rw [slice_of_le (Nat.le_add_left _ _) (Nat.add_le_of_le_sub inside.le taken), overlaps,
    Nat.add_sub_cancel]
  -- the slice is the prefix of the ranges from the start that begin below the end
  have whole := @List.takeWhile_append_dropWhile _ (fun r => decide (r.minInclusive < e))
    (m.orderedRanges.drop i)
  calc Except.ok (List.take _ (m.orderedRanges.drop i))
      _ = Except.ok (List.take _ (((m.orderedRanges.drop i).takeWhile fun r =>
            decide (r.minInclusive < e)) ++ (m.orderedRanges.drop i).dropWhile fun r =>
              decide (r.minInclusive < e))) := by rw [whole]
      _ = _ := by rw [List.take_left]

theorem singleOverlapping_exact {s : EffectivePartitionKey} (e : EffectivePartitionKey)
    (below : s < EffectivePartitionKey.max) (debugAssertions : Bool) (id : String) :
    m.singleOverlappingRangeId debugAssertions s e = .ok (some id) ↔
      ∃ r, m.orderedRanges.filter (fun r => decide (r.minInclusive < e ∧ s < r.maxExclusive)) = [r] ∧
        r.id = id := by
  obtain ⟨i, inside, bounds, overlaps⟩ := overlappingRangeBounds_spec formed nonEmpty e below
  unfold singleOverlappingRangeId
  simp only [bounds, ok_bind]
  rw [checkedSub_of_le (by omega), ok_bind, Nat.add_sub_cancel, overlaps,
    List.drop_eq_getElem_cons inside]
  -- the overlap starts with the range holding `s`, if the query reaches it at all
  by_cases reaches : decide (m.orderedRanges[i].minInclusive < e) = true
  · rw [List.takeWhile_cons, if_pos reaches]
    cases more : (m.orderedRanges.drop (i + 1)).takeWhile fun r => decide (r.minInclusive < e) with
    | nil => simp [index_of_lt inside]
    | cons next rest => cases debugAssertions <;> simp [Outcome.panic]
  · rw [List.takeWhile_cons, if_neg reaches]
    simp

theorem getOverlapping_pastMax {s : EffectivePartitionKey} (e : EffectivePartitionKey)
    (atOrPast : EffectivePartitionKey.max ≤ s) (beforeEnd : s < e) :
    ∃ last, m.orderedRanges.getLast? = some last ∧ m.getOverlappingRanges s e = .ok [last] ∧
      last.maxExclusive ≤ s := by
  obtain ⟨i, inside, found, -, landed⟩ := findRangeIndex_spec formed s
  have ends := formed.chain.upper_le_stop (ordered_of_nonEmpty nonEmpty)
  -- every range begins below `MAX`, so below the query
  have beginsBelow : ∀ r ∈ m.orderedRanges, r.minInclusive < s := fun r member =>
    lt_of_lt_of_le (lt_of_lt_of_le (nonEmpty r member) (ends r member)) atOrPast
  have isLast : m.orderedRanges.drop (i + 1) = [] := by
    rcases landed with same | later
    · exact absurd same.2 (lt_iff_le_not_ge.mp (beginsBelow _ (List.getElem_mem inside))).2
    · cases rest : m.orderedRanges.drop (i + 1) with
      | nil => rfl
      | cons next others =>
          have inRest : next ∈ m.orderedRanges.drop (i + 1) := by simp [rest]
          exact absurd (later next inRest)
            (lt_asymm (beginsBelow next (List.mem_of_mem_drop inRest)))
  have single : m.orderedRanges.drop i = [m.orderedRanges[i]] := by
    rw [List.drop_eq_getElem_cons inside, isLast]
  have counted : partitionPoint [m.orderedRanges[i]] (fun r => decide (r.minInclusive < e)) = 1 := by
    rw [partitionPoint_eq_length_takeWhile (by simp)]
    simp [lt_trans (beginsBelow _ (List.getElem_mem inside)) beforeEnd]
  refine ⟨m.orderedRanges[i], ?_, ?_, ?_⟩
  · rw [List.getLast?_eq_getElem?]
    have : m.orderedRanges.length - 1 = i := by
      have empty : (m.orderedRanges.drop (i + 1)).length = 0 := by rw [isLast]; rfl
      rw [List.length_drop] at empty
      omega
    rw [this, List.getElem?_eq_getElem inside]
  · unfold getOverlappingRanges overlappingRangeBounds
    rw [if_neg (by simpa using formed.ne_nil)]
    simp only [found, ok_bind, sliceFrom_of_le inside.le, single, counted]
    show slice m.orderedRanges i (1 + i) = _
    rw [slice_of_le (by omega) (by omega), Nat.add_sub_cancel, single]
    rfl
  · exact (ends _ (List.getElem_mem inside)).trans atOrPast

end NonEmpty

theorem lookups_exact {m : ContainerRoutingMap} (produced : Produced m)
    (nonEmpty : ∀ r ∈ m.orderedRanges, r.minInclusive < r.maxExclusive) : m.LookupsExact :=
  have formed := produced.wellFormed
  ⟨fun _ below => getRange_holding formed nonEmpty below,
    fun _ atOrPast => getRange_pastMax formed nonEmpty atOrPast,
    fun _ e below => getOverlapping_exact formed nonEmpty e below,
    fun _ e below => singleOverlapping_exact formed nonEmpty e below,
    findRangeIndex_ne_panic formed⟩

theorem lookups_exact_two_ranges :
    ∃ m, tryCreate [.new "0" .min ⟨[0x80]⟩, .new "1" ⟨[0x80]⟩ .max] none none = .ok (some m) ∧
      (∀ r ∈ m.orderedRanges, r.minInclusive < r.maxExclusive) ∧ m.LookupsExact :=
  ⟨_, rfl, by decide,
    lookups_exact (@Produced.create [.new "0" .min ⟨[0x80]⟩, .new "1" ⟨[0x80]⟩ .max] none none _ rfl)
      (by decide)⟩

theorem overlapping_lookup_past_max_returns_last_range {m : ContainerRoutingMap} (produced : Produced m)
    (nonEmpty : ∀ r ∈ m.orderedRanges, r.minInclusive < r.maxExclusive) {s e : EffectivePartitionKey}
    (atOrPast : EffectivePartitionKey.max ≤ s) (beforeEnd : s < e) :
    m.getRangeByEffectivePartitionKey s = .ok none ∧
      ∃ last, m.orderedRanges.getLast? = some last ∧ m.getOverlappingRanges s e = .ok [last] ∧
        ¬ (last.minInclusive < e ∧ s < last.maxExclusive) := by
  have formed := produced.wellFormed
  obtain ⟨last, isLast, answered, ends⟩ := getOverlapping_pastMax formed nonEmpty e atOrPast beforeEnd
  exact ⟨getRange_pastMax formed nonEmpty atOrPast, last, isLast, answered,
    fun ⟨_, meets⟩ => (lt_iff_le_not_ge.mp meets).2 ends⟩

theorem overlapping_lookup_from_max_returns_whole_range :
    tryCreate [.new "0" .min .max] none none =
        .ok (some ⟨RangeIndex.ofList [("0", .new "0" .min .max)], [.new "0" .min .max], [], 0, none, none⟩) ∧
      (∀ r ∈ [PartitionKeyRange.new "0" .min .max], r.minInclusive < r.maxExclusive) ∧
      EffectivePartitionKey.max ≤ EffectivePartitionKey.max ∧
      EffectivePartitionKey.max < (⟨[0xFF, 0xFF]⟩ : EffectivePartitionKey) ∧
      ContainerRoutingMap.getRangeByEffectivePartitionKey
          ⟨RangeIndex.ofList [("0", .new "0" .min .max)], [.new "0" .min .max], [], 0, none, none⟩ .max = .ok none ∧
        ∃ last, [PartitionKeyRange.new "0" .min .max].getLast? = some last ∧
          ContainerRoutingMap.getOverlappingRanges
            ⟨RangeIndex.ofList [("0", .new "0" .min .max)], [.new "0" .min .max], [], 0, none, none⟩
            .max ⟨[0xFF, 0xFF]⟩ = .ok [last] ∧
          ¬ (last.minInclusive < ⟨[0xFF, 0xFF]⟩ ∧ EffectivePartitionKey.max < last.maxExclusive) :=
  ⟨rfl, by decide, le_refl _, by decide,
    overlapping_lookup_past_max_returns_last_range (@Produced.create [.new "0" .min .max] none none _ rfl) (by decide) (le_refl _) (by decide)⟩

end ContainerRoutingMap

end CosmosDriver
