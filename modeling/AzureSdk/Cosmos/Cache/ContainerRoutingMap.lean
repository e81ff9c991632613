import AzureSdk.Cosmos.Models.EffectivePartitionKey
import AzureSdk.Lib.IntervalChain
import AzureSdk.Lib.BinarySearch
import AzureSdk.Lib.Outcome

/-!
# The container routing map

`container_routing_map.rs`, with the `PartitionKeyRange` of
`partition_key_range.rs`. A map holds a container's ranges sorted by
`min_inclusive`, an index by id, and the ids of ranges that were split away.
`try_create` builds one from a full listing and `try_combine` folds an incremental
listing into an existing one; both drop the ranges named as parents, sort, and
keep the result only if the ranges run from `MIN` to `MAX`, each beginning where
the one before it ended.

That check compares each range's minimum with the previous maximum and nothing
else. A map it accepts is a chain of intervals from `MIN` to `MAX`
(`IntervalChain.Chain`), but a range in it may be empty, and the last one may
even run backwards when the one before it ends past `MAX`.

A `HashMap` is an association list with one entry per key and a `HashSet` a
list; where the source iterates a `HashMap`, the model takes the list's order,
and nothing proved about construction depends on that order.
-/

namespace CosmosDriver

open Outcome IntervalChain BinarySearch

set_option autoImplicit false

inductive RoutingMapError where
  | overlappingRanges
  | incompleteRanges
  deriving DecidableEq, Repr

inductive PartitionKeyRangeStatus where
  | online
  | splitting
  | offline
  | split
  deriving DecidableEq, Repr

/-- `PartitionKeyRange`, without `throughput_fraction`, which no routing code reads. -/
structure PartitionKeyRange where
  id : String
  minInclusive : EffectivePartitionKey
  maxExclusive : EffectivePartitionKey
  status : PartitionKeyRangeStatus
  parents : Option (List String)
  deriving DecidableEq, Repr

/-- `PartitionKeyRange::new`: online, with no parents. -/
def PartitionKeyRange.new (id : String) (minInclusive maxExclusive : EffectivePartitionKey) :
    PartitionKeyRange :=
  ⟨id, minInclusive, maxExclusive, .online, none⟩

def invalidPkRangeId : Int := -1

/-- `str::parse::<i32>`, which reads the bytes: an optional sign, then at least one
ASCII digit, and a value that fits. -/
def parseI32 (s : String) : Option Int :=
  let bytes := BinaryJson.utf8Bytes s
  let (negative, digits) : Bool × List UInt8 := match bytes with
    | b :: rest => if b = 0x2D then (true, rest) else if b = 0x2B then (false, rest) else (false, bytes)
    | [] => (false, [])
  if digits.isEmpty || !digits.all (fun b => 0x30 ≤ b && b ≤ 0x39) then none
  else
    let magnitude : Int := digits.foldl (fun acc b => 10 * acc + ((b.toNat - 0x30 : Nat) : Int)) 0
    let value := if negative then -magnitude else magnitude
    if -2 ^ 31 ≤ value ∧ value < 2 ^ 31 then some value else none

/-- A `HashMap<String, PartitionKeyRange>`: its entries, one per key. -/
structure RangeIndex where
  entries : List (String × PartitionKeyRange)
  deriving Repr

namespace RangeIndex

def empty : RangeIndex := ⟨[]⟩

def insert (index : RangeIndex) (id : String) (range : PartitionKeyRange) : RangeIndex :=
  ⟨(id, range) :: index.entries.filter (·.1 != id)⟩

def get (index : RangeIndex) (id : String) : Option PartitionKeyRange :=
  (index.entries.find? (·.1 == id)).map (·.2)

def filterKeys (index : RangeIndex) (keep : String → Bool) : RangeIndex :=
  ⟨index.entries.filter (keep ·.1)⟩

/-- `into_values`. -/
def values (index : RangeIndex) : List PartitionKeyRange := index.entries.map (·.2)

def ofList (pairs : List (String × PartitionKeyRange)) : RangeIndex :=
  pairs.foldl (fun index pair => index.insert pair.1 pair.2) empty

end RangeIndex

/-- `ContainerRoutingMap`. The `Etag` is its string. -/
structure ContainerRoutingMap where
  rangeById : RangeIndex
  orderedRanges : List PartitionKeyRange
  goneRanges : List String
  highestNonOfflinePkRangeId : Int
  etag : Option String
  changeFeedNextIfNoneMatch : Option String
  deriving Repr

def goneIds (ranges : List PartitionKeyRange) : List String :=
  ranges.flatMap fun r => r.parents.getD []

/-- `sort()` through `impl Ord for PartitionKeyRange`: by `min_inclusive`, and stable,
so that ranges that compare equal keep their order. -/
def sortRanges (ranges : List PartitionKeyRange) : List PartitionKeyRange :=
  ranges.insertionSort fun a b => a.minInclusive ≤ b.minInclusive

namespace ContainerRoutingMap

def empty : ContainerRoutingMap := ⟨.empty, [], [], invalidPkRangeId, none, none⟩

/-- One turn of the loop of `validate_and_build_index`: the range has to begin where
the one before it ended. -/
def checkNext (expectedMin : EffectivePartitionKey) (range : PartitionKeyRange) :
    Run RoutingMapError EffectivePartitionKey :=
  match range.minInclusive.cmp expectedMin with
  | .gt => fail .incompleteRanges
  | .lt => fail .overlappingRanges
  | .eq => .ok range.maxExclusive

def highestNonOffline (sorted : List PartitionKeyRange) : Int :=
  ((sorted.filterMap fun r => if r.status != .offline then parseI32 r.id else none).max?).getD
    invalidPkRangeId

def validateAndBuildIndex (sorted : List PartitionKeyRange) :
    Run RoutingMapError (Int × RangeIndex) := do
  let expectedMin ← sorted.foldlM checkNext EffectivePartitionKey.min
  if expectedMin != EffectivePartitionKey.max then fail .incompleteRanges
  else pure (highestNonOffline sorted, RangeIndex.ofList (sorted.map fun r => (r.id, r)))

def tryCreate (ranges : List PartitionKeyRange) (etag changeFeedNextIfNoneMatch : Option String) :
    Run RoutingMapError (Option ContainerRoutingMap) :=
  if ranges.isEmpty then .ok none
  else
    let gone := goneIds ranges
    let filtered := ranges.filter fun r => !gone.contains r.id
    if filtered.isEmpty then .ok none
    else do
      let sorted := sortRanges filtered
      let (highest, rangeById) ← validateAndBuildIndex sorted
      pure (some ⟨rangeById, sorted, gone, highest, etag, changeFeedNextIfNoneMatch⟩)

/-- `try_combine`: an incomplete result asks for a full refresh (`Ok(None)`), an overlap
is an error. -/
def tryCombine (self : ContainerRoutingMap) (newRanges : List PartitionKeyRange)
    (changeFeedNextIfNoneMatch : Option String) :
    Run RoutingMapError (Option ContainerRoutingMap) :=
  let combinedGone := goneIds newRanges ++ self.goneRanges
  let kept := self.rangeById.filterKeys fun id => !combinedGone.contains id
  let merged := newRanges.foldl (fun merged range =>
    if combinedGone.contains range.id then merged else merged.insert range.id range) kept
  let sorted := sortRanges merged.values
  if sorted.isEmpty then .ok none
  else
    match validateAndBuildIndex sorted with
    | .ok (highest, rangeById) =>
        .ok (some ⟨rangeById, sorted, combinedGone, highest, self.etag, changeFeedNextIfNoneMatch⟩)
    | .error (.error .incompleteRanges) => .ok none
    | .error halt => .error halt

def range (m : ContainerRoutingMap) (id : String) : Option PartitionKeyRange := m.rangeById.get id

def isGone (m : ContainerRoutingMap) (id : String) : Bool := m.goneRanges.contains id

/-- A lookup returns no `Err`, but it can panic. -/
abbrev Lookup (α : Type) := Run Empty α

/-- `find_range_index`: the last range whose minimum is at or below the key. -/
def findRangeIndex (m : ContainerRoutingMap) (epk : EffectivePartitionKey) : Lookup Nat :=
  match binarySearchBy m.orderedRanges (fun r => r.minInclusive.cmp epk) with
  | .ok i => .ok i
  | .error (i + 1) => .ok i
  -- `unreachable!`
  | .error 0 => panic

def getRangeByEffectivePartitionKey (m : ContainerRoutingMap) (epk : EffectivePartitionKey) :
    Lookup (Option PartitionKeyRange) :=
  if m.orderedRanges.isEmpty then .ok none
  -- the minimum key is taken to be in the first range
  else if epk.bytes.isEmpty then do
    let first ← index m.orderedRanges 0
    pure (some first)
  else do
    let idx ← m.findRangeIndex epk
    let range ← index m.orderedRanges idx
    pure (if range.minInclusive ≤ epk ∧ epk < range.maxExclusive then some range else none)

/-- `overlapping_range_bounds` of the range `start..stop`. -/
def overlappingRangeBounds (m : ContainerRoutingMap) (start stop : EffectivePartitionKey) :
    Lookup (Option (Nat × Nat)) :=
  if m.orderedRanges.isEmpty then .ok none
  else do
    let startIdx ← m.findRangeIndex start
    let rest ← sliceFrom m.orderedRanges startIdx
    let endIdx := partitionPoint rest (fun r => decide (r.minInclusive < stop)) + startIdx
    pure (some (startIdx, endIdx))

/-- `get_overlapping_ranges` of the range `start..stop`. -/
def getOverlappingRanges (m : ContainerRoutingMap) (start stop : EffectivePartitionKey) :
    Lookup (List PartitionKeyRange) := do
  match ← m.overlappingRangeBounds start stop with
  | none => pure []
  | some (startIdx, endIdx) => slice m.orderedRanges startIdx endIdx

/-- `single_overlapping_range_id` of the range `start..stop`. Where the range meets
several, `debug_assert!(false, ..)` panics in a build with debug assertions, and
otherwise the warning is logged and the answer is `None`. -/
def singleOverlappingRangeId (debugAssertions : Bool) (m : ContainerRoutingMap)
    (start stop : EffectivePartitionKey) : Lookup (Option String) := do
  match ← m.overlappingRangeBounds start stop with
  | none => pure none
  | some (startIdx, endIdx) =>
      match ← checkedSub endIdx startIdx with
      | 0 => pure none
      | 1 => do
          let range ← index m.orderedRanges startIdx
          pure (some range.id)
      | _ => if debugAssertions then panic else pure none

/-- The maps `try_create` returns, and those `try_combine` returns from one of them. -/
inductive Produced : ContainerRoutingMap → Prop
  | create {ranges : List PartitionKeyRange} {etag changeFeedNextIfNoneMatch : Option String}
      {m : ContainerRoutingMap} :
      tryCreate ranges etag changeFeedNextIfNoneMatch = .ok (some m) → Produced m
  | combine {prev m : ContainerRoutingMap} {newRanges : List PartitionKeyRange}
      {changeFeedNextIfNoneMatch : Option String} :
      Produced prev → prev.tryCombine newRanges changeFeedNextIfNoneMatch = .ok (some m) → Produced m

/-- What construction guarantees of a map: its ranges are sorted and chain from `MIN`
to `MAX`, none was split away, and the index holds each of them under its id and
nothing else. -/
structure WellFormed (m : ContainerRoutingMap) : Prop where
  sorted : m.orderedRanges.Pairwise fun a b => a.minInclusive ≤ b.minInclusive
  chain : Chain PartitionKeyRange.minInclusive PartitionKeyRange.maxExclusive
    EffectivePartitionKey.min EffectivePartitionKey.max m.orderedRanges
  notGone : ∀ r ∈ m.orderedRanges, r.id ∉ m.goneRanges
  keyed : ∀ entry ∈ m.rangeById.entries, entry.2.id = entry.1 ∧ entry.2 ∈ m.orderedRanges
  complete : ∀ r ∈ m.orderedRanges, (m.range r.id).isSome

end ContainerRoutingMap

/-! ## The index -/

namespace RangeIndex

theorem mem_insert {index : RangeIndex} {id : String} {range : PartitionKeyRange}
    {entry : String × PartitionKeyRange} (member : entry ∈ (index.insert id range).entries) :
    entry = (id, range) ∨ entry ∈ index.entries := by
  simp only [insert, List.mem_cons, List.mem_filter] at member
  exact member.imp (fun same => same) And.left

theorem key_mem_insert {index : RangeIndex} {id key : String} {range : PartitionKeyRange}
    (present : key = id ∨ ∃ entry ∈ index.entries, entry.1 = key) :
    ∃ entry ∈ (index.insert id range).entries, entry.1 = key := by
  by_cases same : key = id
  · exact ⟨(id, range), by simp [insert], same.symm⟩
  · obtain ⟨entry, member, keyed⟩ := present.resolve_left same
    refine ⟨entry, ?_, keyed⟩
    simp only [insert, List.mem_cons, List.mem_filter]
    exact .inr ⟨member, by simp [keyed, same]⟩

theorem get_isSome {index : RangeIndex} {key : String}
    (present : ∃ entry ∈ index.entries, entry.1 = key) : (index.get key).isSome := by
  obtain ⟨entry, member, keyed⟩ := present
  simp only [get, Option.isSome_map]
  exact List.find?_isSome.mpr ⟨entry, member, by simp [keyed]⟩

theorem foldl_insert {pairs : List (String × PartitionKeyRange)} {start : RangeIndex} :
    (∀ entry ∈ (pairs.foldl (fun index pair => index.insert pair.1 pair.2) start).entries,
        entry ∈ pairs ∨ entry ∈ start.entries) ∧
      ∀ pair ∈ pairs, ∃ entry ∈ (pairs.foldl (fun index pair => index.insert pair.1 pair.2)
        start).entries, entry.1 = pair.1 := by
  induction pairs generalizing start with
  | nil => simp
  | cons pair rest induction =>
      obtain ⟨fromPairs, keys⟩ := @induction (start.insert pair.1 pair.2)
      refine ⟨fun entry member => ?_, fun other member => ?_⟩
      · rcases fromPairs entry member with later | inserted
        · exact .inl (List.mem_cons_of_mem _ later)
        · rcases mem_insert inserted with rfl | earlier
          · exact .inl List.mem_cons_self
          · exact .inr earlier
      · rcases List.mem_cons.mp member with rfl | later
        · -- a key stays once inserted: later pairs only replace its entry
          have kept : ∀ (rest : List (String × PartitionKeyRange)) (index : RangeIndex),
              (∃ entry ∈ index.entries, entry.1 = other.1) →
                ∃ entry ∈ (rest.foldl (fun index pair => index.insert pair.1 pair.2) index).entries,
                  entry.1 = other.1 := by
            intro rest
            induction rest with
            | nil => exact fun _ present => present
            | cons next rest induction =>
                exact fun index present => induction _ (key_mem_insert (.inr present))
          exact kept rest _ (key_mem_insert (.inl rfl))
        · exact keys other later

theorem mem_ofList {pairs : List (String × PartitionKeyRange)} {entry : String × PartitionKeyRange}
    (member : entry ∈ (ofList pairs).entries) : entry ∈ pairs := by
  simpa [empty] using foldl_insert.1 entry member

theorem get_ofList_isSome {pairs : List (String × PartitionKeyRange)}
    {pair : String × PartitionKeyRange} (member : pair ∈ pairs) : ((ofList pairs).get pair.1).isSome :=
  get_isSome (foldl_insert.2 pair member)

end RangeIndex

/-! ## Construction -/

theorem sortRanges_sorted (ranges : List PartitionKeyRange) :
    (sortRanges ranges).Pairwise fun a b => a.minInclusive ≤ b.minInclusive := by
  have : Std.Total fun a b : PartitionKeyRange => a.minInclusive ≤ b.minInclusive :=
    ⟨fun a b => EffectivePartitionKey.le_total _ _⟩
  have : IsTrans PartitionKeyRange fun a b => a.minInclusive ≤ b.minInclusive :=
    ⟨fun _ _ _ => le_trans⟩
  exact List.pairwise_insertionSort _ ranges

theorem mem_sortRanges {ranges : List PartitionKeyRange} {r : PartitionKeyRange} :
    r ∈ sortRanges ranges ↔ r ∈ ranges :=
  List.mem_insertionSort _

namespace ContainerRoutingMap

theorem checkNext_ok {expectedMin next : EffectivePartitionKey} {range : PartitionKeyRange}
    (accepted : checkNext expectedMin range = .ok next) :
    AntisymmRel (· ≤ ·) range.minInclusive expectedMin ∧ next = range.maxExclusive := by
  unfold checkNext at accepted
  split at accepted <;> cases accepted
  exact ⟨(EffectivePartitionKey.cmp_eq_iff_antisymmRel _ _).mp (by assumption), rfl⟩

theorem foldlM_checkNext_chain {ranges : List PartitionKeyRange} {start last : EffectivePartitionKey}
    (ran : ranges.foldlM checkNext start = .ok last) :
    Chain PartitionKeyRange.minInclusive PartitionKeyRange.maxExclusive start last ranges := by
  induction ranges generalizing start with
  | nil =>
      cases ran
      exact .nil (AntisymmRel.refl _ _)
  | cons range rest induction =>
      rw [List.foldlM_cons] at ran
      obtain ⟨next, accepted, restRan⟩ := bind_eq_ok.mp ran
      obtain ⟨begins, rfl⟩ := checkNext_ok accepted
      exact .cons begins (induction restRan)

theorem validateAndBuildIndex_ok {sorted : List PartitionKeyRange} {highest : Int}
    {index : RangeIndex} (valid : validateAndBuildIndex sorted = .ok (highest, index)) :
    Chain PartitionKeyRange.minInclusive PartitionKeyRange.maxExclusive
        EffectivePartitionKey.min EffectivePartitionKey.max sorted ∧
      index = RangeIndex.ofList (sorted.map fun r => (r.id, r)) := by
  obtain ⟨last, ran, checked⟩ := bind_eq_ok.mp valid
  split at checked
  · cases checked
  · rename_i reached
    cases checked
    -- the loop's last maximum is `==` to `MAX`
    have atMax : AntisymmRel (· ≤ ·) last EffectivePartitionKey.max := by
      have equal : (last == EffectivePartitionKey.max) = true := by simpa [bne] using reached
      rw [← EffectivePartitionKey.cmp_eq_iff_antisymmRel, ← EffectivePartitionKey.eq_iff_cmp_eq]
      exact equal
    exact ⟨(foldlM_checkNext_chain ran).congr_stop atMax, rfl⟩

theorem wellFormed_of_validate {candidates : List PartitionKeyRange} {gone : List String}
    {highest : Int} {index : RangeIndex}
    (valid : validateAndBuildIndex (sortRanges candidates) = .ok (highest, index))
    (fresh : ∀ r ∈ candidates, r.id ∉ gone) (etag changeFeedNextIfNoneMatch : Option String) :
    (⟨index, sortRanges candidates, gone, highest, etag, changeFeedNextIfNoneMatch⟩ :
      ContainerRoutingMap).WellFormed := by
  obtain ⟨chain, rfl⟩ := validateAndBuildIndex_ok valid
  refine ⟨sortRanges_sorted candidates, chain, ?_, ?_, ?_⟩
  · exact fun r member => fresh r (mem_sortRanges.mp member)
  · intro entry member
    obtain ⟨r, sortedMember, rfl⟩ := List.mem_map.mp (RangeIndex.mem_ofList member)
    exact ⟨rfl, sortedMember⟩
  · intro r member
    exact RangeIndex.get_ofList_isSome (List.mem_map.mpr ⟨r, member, rfl⟩)

theorem tryCreate_wellFormed {ranges : List PartitionKeyRange}
    {etag changeFeedNextIfNoneMatch : Option String} {m : ContainerRoutingMap}
    (created : tryCreate ranges etag changeFeedNextIfNoneMatch = .ok (some m)) : m.WellFormed := by
  unfold tryCreate at created
  simp only at created
  split_ifs at created
  · cases created
  · cases created
  obtain ⟨⟨highest, index⟩, valid, built⟩ := bind_eq_ok.mp created
  cases built
  refine wellFormed_of_validate valid (fun r member => ?_) _ _
  simpa using (List.mem_filter.mp member).2

def Fresh (gone : List String) (index : RangeIndex) : Prop :=
  ∀ entry ∈ index.entries, entry.1 ∉ gone ∧ entry.2.id = entry.1

theorem fresh_merge {gone : List String} (newRanges : List PartitionKeyRange) {start : RangeIndex}
    (fresh : Fresh gone start) :
    Fresh gone (newRanges.foldl (fun merged range =>
      if gone.contains range.id then merged else merged.insert range.id range) start) := by
  induction newRanges generalizing start with
  | nil => exact fresh
  | cons range rest induction =>
      apply induction
      dsimp only
      by_cases listed : gone.contains range.id = true
      · rw [if_pos listed]
        exact fresh
      · rw [if_neg listed]
        intro entry member
        rcases RangeIndex.mem_insert member with rfl | earlier
        · exact ⟨by simpa using listed, rfl⟩
        · exact fresh entry earlier

theorem tryCombine_wellFormed {prev : ContainerRoutingMap} (prevFormed : prev.WellFormed)
    {newRanges : List PartitionKeyRange} {changeFeedNextIfNoneMatch : Option String}
    {m : ContainerRoutingMap}
    (combined : prev.tryCombine newRanges changeFeedNextIfNoneMatch = .ok (some m)) :
    m.WellFormed ∧ ∀ id ∈ prev.goneRanges, id ∈ m.goneRanges := by
  unfold tryCombine at combined
  -- the ranges kept from the old index, and those added, are keyed by id and not gone
  have kept : Fresh (goneIds newRanges ++ prev.goneRanges)
      (prev.rangeById.filterKeys fun id => !(goneIds newRanges ++ prev.goneRanges).contains id) := by
    intro entry member
    simp only [RangeIndex.filterKeys, List.mem_filter] at member
    exact ⟨by simpa using member.2, (prevFormed.keyed entry member.1).1⟩
  have merged := fresh_merge newRanges kept
  simp only at combined
  generalize newRanges.foldl _ _ = index at merged combined
  split_ifs at combined
  · cases combined
  split at combined
  · rename_i highest rangeById valid
    cases combined
    refine ⟨wellFormed_of_validate valid (fun r member => ?_) _ _,
      fun id member => List.mem_append_right _ member⟩
    obtain ⟨entry, entryMember, rfl⟩ := List.mem_map.mp member
    obtain ⟨notGone, keyed⟩ := merged entry entryMember
    rw [keyed]
    exact notGone
  · cases combined
  · cases combined

theorem Produced.wellFormed {m : ContainerRoutingMap} (produced : Produced m) : m.WellFormed := by
  induction produced with
  | create created => exact tryCreate_wellFormed created
  | combine _ combined prevFormed => exact (tryCombine_wellFormed prevFormed combined).1

theorem tryCreate_tryCombine_wellFormed :
    (∀ (ranges : List PartitionKeyRange) (etag changeFeedNextIfNoneMatch : Option String)
        (m : ContainerRoutingMap),
        tryCreate ranges etag changeFeedNextIfNoneMatch = .ok (some m) → m.WellFormed) ∧
      ∀ (prev : ContainerRoutingMap) (newRanges : List PartitionKeyRange)
        (changeFeedNextIfNoneMatch : Option String) (m : ContainerRoutingMap), Produced prev →
        prev.tryCombine newRanges changeFeedNextIfNoneMatch = .ok (some m) →
          m.WellFormed ∧ ∀ id ∈ prev.goneRanges, id ∈ m.goneRanges :=
  ⟨fun _ _ _ _ created => tryCreate_wellFormed created,
    fun _ _ _ _ produced combined => tryCombine_wellFormed produced.wellFormed combined⟩

/-- A range `[MIN, MIN)` that holds no key passes the validation: it begins where the
chain begins and ends where the next range begins. -/
theorem tryCreate_accepts_empty_range :
    ∃ m, tryCreate [.new "0" .min .min, .new "1" .min .max] none none = .ok (some m) ∧
      PartitionKeyRange.new "0" .min .min ∈ m.orderedRanges ∧
        ¬ EffectivePartitionKey.min < EffectivePartitionKey.min :=
  ⟨_, rfl, by decide, by decide⟩

end ContainerRoutingMap

end CosmosDriver
