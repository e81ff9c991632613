import Mathlib
import AzureSdk.Lib.Outcome
import AzureSdk.Lib.SortedMap

/-!
# The Event Hubs load balancer

One round of `LoadBalancer::load_balance`: the ownership records the checkpoint store lists
are sorted into the records of live processors, grouped by owner, and the records that
have expired or have no owner; partitions the store has no record of are added as fresh
records. From the number of owners the round computes how many partitions this processor
may hold (`maximum_allowed`) and, when it may hold more, claims one (Balanced) or as many
as it may (Greedy), first from the free records and then from processors above the
maximum. `loadBalance` is the list the round passes to `claim_ownership`.

Timestamps and durations are integers of nanoseconds. The time crate's `OffsetDateTime`
covers the years -9999 to 9999, and adding a `Duration` past that range panics; so does
turning a `SystemTime` outside it into an `OffsetDateTime`, which the comparison with
`SystemTime::now()` does. The generator behind the RNG mutex is the stream of its draws,
each reduced below the range it is drawn for; the grouping `HashMap` is a map in key order.
-/

namespace EventHubs

open Outcome

set_option autoImplicit false

variable {ε : Type}

/-- The earliest `OffsetDateTime`, -9999-01-01T00:00:00 UTC, in Unix nanoseconds. -/
def minTimestamp : Int := -377705116800 * 10 ^ 9

/-- The latest `OffsetDateTime`, 9999-12-31T23:59:59.999999999 UTC, in Unix nanoseconds. -/
def maxTimestamp : Int := 253402300799 * 10 ^ 9 + 999999999

/-- `OffsetDateTime + Duration`, which panics outside the range of dates. -/
def addDuration (time duration : Int) : Run ε Int :=
  if minTimestamp ≤ time + duration ∧ time + duration ≤ maxTimestamp then .ok (time + duration) else panic

inductive ProcessorStrategy where
  | balanced
  | greedy
  deriving DecidableEq, Repr

structure Ownership where
  partitionId : String
  ownerId : Option String
  lastModifiedTime : Option Int
  deriving DecidableEq, Repr

structure LoadBalancer where
  processorStrategy : ProcessorStrategy
  /-- The partition expiration duration. -/
  duration : Int
  clientId : String

structure LoadBalancerInfo where
  currentOwnership : List Ownership
  unownedOrExpired : List Ownership
  claimMorePartitions : Bool
  aboveMax : List Ownership
  maxAllowed : Nat

/-! ## Randomness -/

structure Rng where
  draws : Nat → Nat
  next : Nat

/-- `random_range(0..n)`. -/
def Rng.randomRange (rng : Rng) (n : Nat) : Nat × Rng :=
  (rng.draws rng.next % n, { rng with next := rng.next + 1 })

/-- `SliceRandom::shuffle`: each position in turn is swapped with a drawn position at or
before it. -/
def shuffle {α : Type} (items : Array α) (rng : Rng) : Array α × Rng :=
  if items.size ≤ 1 then (items, rng)
  else
    (List.range items.size).foldl
      (fun state i =>
        let (index, rng) := state.2.randomRange (i + 1)
        (state.1.swapIfInBounds i index, rng))
      (items, rng)

theorem swapIfInBounds_perm {α : Type} (items : Array α) (i j : Nat) :
    (items.swapIfInBounds i j).toList.Perm items.toList := by
  unfold Array.swapIfInBounds
  split
  · split
    · exact Array.perm_iff_toList_perm.mp (Array.swap_perm _ _)
    · exact List.Perm.refl _
  · exact List.Perm.refl _

theorem foldl_perm {α β : Type} (positions : List β) (step : Array α × Rng → β → Array α × Rng)
    (permutes : ∀ state i, (step state i).1.toList.Perm state.1.toList) (state : Array α × Rng) :
    (positions.foldl step state).1.toList.Perm state.1.toList := by
  induction positions generalizing state with
  | nil => exact List.Perm.refl _
  | cons i rest induction => exact (induction (step state i)).trans (permutes state i)

theorem shuffle_perm {α : Type} (items : Array α) (rng : Rng) : (shuffle items rng).1.toList.Perm items.toList := by
  unfold shuffle
  split
  · exact List.Perm.refl _
  · exact foldl_perm _ _ (fun state i => swapIfInBounds_perm _ _ _) _

/-! ## The round -/

namespace LoadBalancer

variable (lb : LoadBalancer)

/-- The state of the first loop of `get_available_partitions`. -/
structure Scan where
  unownedOrExpired : List Ownership
  partitionsAlreadyAdded : List String
  groupedByOwner : List (String × List Ownership)

/-- `last_modified_time + self.duration < SystemTime::now()` for a record with a time. -/
def isExpired (now : Int) (ownership : Ownership) : Run ε Bool :=
  match ownership.lastModifiedTime with
  | some time => do
      let deadline ← addDuration time lb.duration
      let current ← addDuration 0 now
      pure (decide (deadline < current))
  | none => pure false

def file (scan : Scan) (ownership : Ownership) (expired : Bool) : Scan :=
  let added := ownership.partitionId :: scan.partitionsAlreadyAdded
  if expired then { scan with partitionsAlreadyAdded := added, unownedOrExpired := scan.unownedOrExpired ++ [ownership] }
  else
    match ownership.ownerId with
    | none => { scan with partitionsAlreadyAdded := added, unownedOrExpired := scan.unownedOrExpired ++ [ownership] }
    | some ownerId =>
        let grouped :=
          if (SortedMap.get scan.groupedByOwner ownerId).isSome then scan.groupedByOwner
          else SortedMap.insert scan.groupedByOwner ownerId []
        let grouped :=
          match SortedMap.get grouped ownerId with
          | some val => SortedMap.insert grouped ownerId (val ++ [ownership])
          | none => grouped
        { scan with partitionsAlreadyAdded := added, groupedByOwner := grouped }

def scanOwnership (now : Int) (scan : Scan) (ownership : Ownership) : Run ε Scan := do
  let expired ← lb.isExpired now ownership
  pure (file scan ownership expired)

/-- `grouped_by_owner[&key]`, which panics on a missing key. -/
def lookup (grouped : List (String × List Ownership)) (key : String) : Run ε (List Ownership) :=
  match SortedMap.get grouped key with
  | some ownerships => .ok ownerships
  | none => panic

/-- The record `get_available_partitions` adds for a partition the store does not list. -/
def fresh (partitionId : String) : Ownership := ⟨partitionId, some lb.clientId, none⟩

def getAvailablePartitions (ownerships : List Ownership) (partitionIds : List String) (now : Int) :
    Run ε LoadBalancerInfo := do
  let scan ← ownerships.foldlM (lb.scanOwnership now) ⟨[], [], [(lb.clientId, [])]⟩
  let unownedOrExpired := scan.unownedOrExpired ++
    (partitionIds.filter fun id => id ∉ scan.partitionsAlreadyAdded).map lb.fresh
  let grouped := scan.groupedByOwner
  -- `/` and `%` by the number of owners panic on zero
  if grouped.length = 0 then panic
  else
    let minimumRequired := partitionIds.length / grouped.length
    let allowExtraPartition := decide (partitionIds.length % grouped.length > 0)
    let maximumAllowed ← if allowExtraPartition then do
        let mine ← lookup grouped lb.clientId
        pure (if minimumRequired ≤ mine.length then minimumRequired + 1 else minimumRequired)
      else pure minimumRequired
    let aboveMaximum := (grouped.filter fun entry => entry.1 ≠ lb.clientId ∧ maximumAllowed < entry.2.length).flatMap
      (·.2)
    let current ← lookup grouped lb.clientId
    let claimMorePartitions ← if maximumAllowed ≤ current.length then pure false
      else if allowExtraPartition then do
        let belowMaximum ← checkedSub maximumAllowed 1
        pure (if current.length = belowMaximum then !unownedOrExpired.isEmpty || !aboveMaximum.isEmpty else true)
      else pure true
    pure {
      currentOwnership := (SortedMap.get grouped lb.clientId).getD []
      unownedOrExpired := unownedOrExpired
      claimMorePartitions := claimMorePartitions
      aboveMax := aboveMaximum
      maxAllowed := maximumAllowed }

/-- `get_random_ownerships`: at most `count` of the records, in shuffled order. -/
def getRandomOwnerships (ownerships : List Ownership) (count : Nat) (rng : Rng) : List Ownership × Rng :=
  let limit := min count ownerships.length
  if limit = 0 then ([], rng)
  else
    let (shuffled, rng) := shuffle ownerships.toArray rng
    (shuffled.toList.take limit, rng)

def resetOwnership (ownership : Ownership) : Ownership := { ownership with ownerId := some lb.clientId }

def balancedLoadBalancer (info : LoadBalancerInfo) (rng : Rng) : Run ε (Option Ownership × Rng) :=
  if !info.unownedOrExpired.isEmpty then do
    let (position, rng) := rng.randomRange info.unownedOrExpired.length
    let ownership ← index info.unownedOrExpired position
    pure (some (lb.resetOwnership ownership), rng)
  else if !info.aboveMax.isEmpty then do
    let (position, rng) := rng.randomRange info.aboveMax.length
    let ownership ← index info.aboveMax position
    pure (some (lb.resetOwnership ownership), rng)
  else pure (none, rng)

def greedyLoadBalancer (info : LoadBalancerInfo) (rng : Rng) : Run ε (List Ownership × Rng) := do
  let ours := info.currentOwnership
  let count ← checkedSub info.maxAllowed ours.length
  let (random, rng) := getRandomOwnerships info.unownedOrExpired count rng
  let ours := ours ++ random
  let (ours, rng) ← if ours.length < info.maxAllowed then do
      let count ← checkedSub info.maxAllowed ours.length
      let (random, rng) := getRandomOwnerships info.aboveMax count rng
      pure (ours ++ random, rng)
    else pure (ours, rng)
  pure (ours.map lb.resetOwnership, rng)

/-- The list `load_balance` passes to `claim_ownership`. -/
def loadBalance (ownerships : List Ownership) (partitionIds : List String) (now : Int) (rng : Rng) :
    Run ε (List Ownership) := do
  let info ← lb.getAvailablePartitions ownerships partitionIds now
  if info.claimMorePartitions then
    match lb.processorStrategy with
    | .balanced => do
        let (claimed, _) ← lb.balancedLoadBalancer info rng
        pure (match claimed with
          | some ownership => info.currentOwnership ++ [ownership]
          | none => info.currentOwnership)
    | .greedy => do
        let (ours, _) ← lb.greedyLoadBalancer info rng
        pure ours
  else pure info.currentOwnership

/-! ## What a round reads from the store -/

variable (now : Int)

def expired (ownership : Ownership) : Bool :=
  match ownership.lastModifiedTime with
  | some time => decide (time + lb.duration < now)
  | none => false

def heldBy (owner : String) (ownership : Ownership) : Bool :=
  !lb.expired now ownership && ownership.ownerId == some owner

def free (ownership : Ownership) : Bool := lb.expired now ownership || ownership.ownerId.isNone

def current (ownerships : List Ownership) : List Ownership := ownerships.filter (lb.heldBy now lb.clientId)

def owners (ownerships : List Ownership) : Finset String :=
  insert lb.clientId ((ownerships.filter fun o => !lb.expired now o).filterMap Ownership.ownerId).toFinset

def maximumAllowed (ownerships : List Ownership) (partitionIds : List String) : Nat :=
  let n := partitionIds.length
  let k := (lb.owners now ownerships).card
  n / k + if n % k > 0 ∧ n / k ≤ (lb.current now ownerships).length then 1 else 0

def TimesInRange (ownerships : List Ownership) : Prop :=
  ∀ o ∈ ownerships, ∀ time, o.lastModifiedTime = some time →
    minTimestamp ≤ time + lb.duration ∧ time + lb.duration ≤ maxTimestamp ∧ minTimestamp ≤ now ∧ now ≤ maxTimestamp

def unowned (ownerships : List Ownership) (partitionIds : List String) : List Ownership :=
  ownerships.filter (lb.free now) ++
    (partitionIds.filter fun id => id ∉ ownerships.map Ownership.partitionId).map lb.fresh

def candidates (ownerships : List Ownership) (partitionIds : List String) : List Ownership :=
  ownerships ++ (partitionIds.filter fun id => id ∉ ownerships.map Ownership.partitionId).map lb.fresh

/-- What `get_available_partitions` reports, in terms of the records the store lists. -/
structure Available (ownerships : List Ownership) (partitionIds : List String) (info : LoadBalancerInfo) : Prop where
  current : info.currentOwnership = lb.current now ownerships
  unowned : info.unownedOrExpired = lb.unowned now ownerships partitionIds
  maxAllowed : info.maxAllowed = lb.maximumAllowed now ownerships partitionIds
  above : ∀ o ∈ info.aboveMax, o ∈ ownerships ∧ ∃ owner ≠ lb.clientId, lb.heldBy now owner o = true ∧
    info.maxAllowed < (ownerships.filter (lb.heldBy now owner)).length
  aboveNodup : info.aboveMax.Nodup
  claimMore : info.claimMorePartitions = true → info.currentOwnership.length < info.maxAllowed

structure Picked (info : LoadBalancerInfo) (picked : List Ownership) : Prop where
  nodup : picked.Nodup
  source : ∀ o ∈ picked, o ∈ info.unownedOrExpired ∨ o ∈ info.aboveMax

/-! ## The first loop -/

structure Filed (done : List Ownership) (scan : Scan) : Prop where
  added : ∀ id, id ∈ scan.partitionsAlreadyAdded ↔ id ∈ done.map Ownership.partitionId
  unowned : scan.unownedOrExpired = done.filter (lb.free now)
  sorted : SortedMap.Sorted scan.groupedByOwner
  grouped : ∀ owner, SortedMap.get scan.groupedByOwner owner =
    if owner = lb.clientId ∨ ∃ o ∈ done, lb.heldBy now owner o = true then some (done.filter (lb.heldBy now owner))
    else none

variable {lb now}

theorem isExpired_eq {ownership : Ownership}
    (inRange : ∀ time, ownership.lastModifiedTime = some time →
      minTimestamp ≤ time + lb.duration ∧ time + lb.duration ≤ maxTimestamp ∧ minTimestamp ≤ now ∧ now ≤ maxTimestamp) :
    (lb.isExpired now ownership : Run ε Bool) = .ok (lb.expired now ownership) := by
  unfold isExpired expired
  cases timed : ownership.lastModifiedTime with
  | none => rfl
  | some time =>
      obtain ⟨low, high, nowLow, nowHigh⟩ := inRange time timed
      have deadline : (addDuration time lb.duration : Run ε Int) = .ok (time + lb.duration) := if_pos ⟨low, high⟩
      have clock : (addDuration 0 now : Run ε Int) = .ok now := by
        unfold addDuration
        rw [if_pos (by omega), zero_add]
      simp only [deadline, clock, ok_bind, pure_eq_ok]

theorem filed_nil : Filed lb now [] ⟨[], [], [(lb.clientId, [])]⟩ := by
  refine ⟨by simp, rfl, by simp [SortedMap.Sorted], fun owner => ?_⟩
  by_cases self : owner = lb.clientId <;> simp [SortedMap.get, self]

theorem heldBy_eq_false_of_free {ownership : Ownership} (isFree : lb.free now ownership = true) (owner : String) :
    lb.heldBy now owner ownership = false := by
  cases owned : ownership.ownerId <;> simp_all [free, heldBy]

theorem grouped_concat_of_not_held {done : List Ownership} {ownership : Ownership} {owner : String}
    (notHeld : lb.heldBy now owner ownership = false) :
    (if owner = lb.clientId ∨ ∃ o ∈ done ++ [ownership], lb.heldBy now owner o = true then
      some ((done ++ [ownership]).filter (lb.heldBy now owner)) else none) =
    if owner = lb.clientId ∨ ∃ o ∈ done, lb.heldBy now owner o = true then some (done.filter (lb.heldBy now owner))
    else none := by
  simp [notHeld]

theorem Filed.of_free {done : List Ownership} {scan : Scan} {ownership : Ownership} (filed : Filed lb now done scan)
    (isFree : lb.free now ownership = true) :
    Filed lb now (done ++ [ownership])
      { scan with partitionsAlreadyAdded := ownership.partitionId :: scan.partitionsAlreadyAdded,
                  unownedOrExpired := scan.unownedOrExpired ++ [ownership] } := by
  have notHeld := heldBy_eq_false_of_free isFree
  refine ⟨fun id => ?_, ?_, filed.sorted, fun owner => ?_⟩
  · simp [filed.added id, or_comm]
  · simp [filed.unowned, List.filter_append, isFree]
  · exact (filed.grouped owner).trans (grouped_concat_of_not_held (notHeld owner)).symm

theorem Filed.of_held {done : List Ownership} {scan : Scan} {ownership : Ownership} {ownerId : String}
    (filed : Filed lb now done scan) (live : lb.expired now ownership = false) (owned : ownership.ownerId = some ownerId) :
    Filed lb now (done ++ [ownership]) (file scan ownership false) := by
  have held : lb.heldBy now ownerId ownership = true := by simp [heldBy, live, owned]
  have heldIff : ∀ owner, lb.heldBy now owner ownership = true ↔ owner = ownerId := by
    intro owner
    simp only [heldBy, live, owned, Bool.not_false, Bool.true_and, beq_iff_eq, Option.some.injEq]
    exact eq_comm
  -- the two updates of the source: an empty entry if the owner is new, then the push
  set start := if (SortedMap.get scan.groupedByOwner ownerId).isSome then scan.groupedByOwner
    else SortedMap.insert scan.groupedByOwner ownerId [] with startEq
  have startSorted : SortedMap.Sorted start := by
    rw [startEq]
    split
    · exact filed.sorted
    · exact SortedMap.sorted_insert filed.sorted _ _
  have startGet : ∀ owner, SortedMap.get start owner =
      if owner = ownerId then some ((SortedMap.get scan.groupedByOwner ownerId).getD [])
      else SortedMap.get scan.groupedByOwner owner := by
    intro owner
    rw [startEq]
    split_ifs with present same same
    · subst same
      obtain ⟨val, found⟩ := Option.isSome_iff_exists.mp present
      simp [found]
    · rfl
    · rw [SortedMap.get_insert, if_pos same]
      simp only [Bool.not_eq_true, Option.isSome_eq_false_iff, Option.isNone_iff_eq_none] at present
      simp [present]
    · rw [SortedMap.get_insert, if_neg same]
  have filedOwner : (SortedMap.get scan.groupedByOwner ownerId).getD [] = done.filter (lb.heldBy now ownerId) := by
    rw [filed.grouped ownerId]
    split_ifs with known
    · rfl
    · -- a new owner holds nothing yet
      push Not at known
      exact (List.filter_eq_nil_iff.mpr fun o member => by simpa using known.2 o member).symm
  have pushed : file scan ownership false =
      { scan with partitionsAlreadyAdded := ownership.partitionId :: scan.partitionsAlreadyAdded,
                  groupedByOwner := SortedMap.insert start ownerId ((SortedMap.get scan.groupedByOwner ownerId).getD [] ++ [ownership]) } := by
    simp only [file, owned, Bool.false_eq_true, if_false, ← startEq, startGet ownerId, if_true]
  rw [pushed]
  refine ⟨fun id => ?_, ?_, SortedMap.sorted_insert startSorted _ _, fun owner => ?_⟩
  · simp [filed.added id, or_comm]
  · simp [filed.unowned, List.filter_append, free, live, owned]
  · rw [SortedMap.get_insert, startGet owner]
    by_cases same : owner = ownerId
    · subst same
      simp [filedOwner, List.filter_append, held]
    · have notHeld : lb.heldBy now owner ownership = false := by
        simpa [← heldIff owner] using same
      simp only [if_neg same]
      rw [filed.grouped owner, grouped_concat_of_not_held notHeld]

theorem Filed.step {done : List Ownership} {scan : Scan} (filed : Filed lb now done scan) (ownership : Ownership) :
    Filed lb now (done ++ [ownership]) (file scan ownership (lb.expired now ownership)) := by
  cases live : lb.expired now ownership with
  | true => exact filed.of_free (by simp [free, live])
  | false =>
      cases owned : ownership.ownerId with
      | none => simpa [file, owned] using filed.of_free (by simp [free, owned])
      | some ownerId => exact filed.of_held live owned

theorem Filed.run : ∀ (rest done : List Ownership) (scan : Scan), Filed lb now done scan →
    Filed lb now (done ++ rest) (rest.foldl (fun scan o => file scan o (lb.expired now o)) scan)
  | [], done, scan, filed => by simpa using filed
  | ownership :: rest, done, scan, filed => by
      simpa using Filed.run rest (done ++ [ownership]) _ (filed.step ownership)

theorem heldBy_unique {ownership : Ownership} {owner other : String} (held : lb.heldBy now owner ownership = true)
    (heldOther : lb.heldBy now other ownership = true) : owner = other := by
  simp only [heldBy, Bool.and_eq_true, beq_iff_eq] at held heldOther
  exact Option.some.inj (held.2.symm.trans heldOther.2)

section Filed

variable {done : List Ownership} {scan : Scan}

theorem Filed.get_eq (filed : Filed lb now done scan) {entry : String × List Ownership}
    (member : entry ∈ scan.groupedByOwner) : entry.2 = done.filter (lb.heldBy now entry.1) := by
  have found := SortedMap.get_of_mem filed.sorted member
  rw [filed.grouped] at found
  split_ifs at found
  exact (Option.some.inj found).symm

theorem Filed.lookup_self (filed : Filed lb now done scan) :
    (lookup scan.groupedByOwner lb.clientId : Run ε (List Ownership)) = .ok (lb.current now done) := by
  simp only [lookup, filed.grouped, true_or, if_true]
  rfl

theorem Filed.length_grouped (filed : Filed lb now done scan) :
    scan.groupedByOwner.length = (lb.owners now done).card :=
  SortedMap.length_eq_card filed.sorted fun owner => by
    rw [filed.grouped owner]
    simp [owners, heldBy, and_assoc]

variable {maximum : Nat}

theorem Filed.mem_above (filed : Filed lb now done scan) {o : Ownership}
    (member : o ∈ (scan.groupedByOwner.filter fun entry => entry.1 ≠ lb.clientId ∧ maximum < entry.2.length).flatMap
      (·.2)) :
    o ∈ done ∧ ∃ owner ≠ lb.clientId, lb.heldBy now owner o = true ∧
      maximum < (done.filter (lb.heldBy now owner)).length := by
  obtain ⟨entry, entryMember, inEntry⟩ := List.mem_flatMap.mp member
  obtain ⟨grouped, chosen⟩ := List.mem_filter.mp entryMember
  simp only [decide_eq_true_eq] at chosen
  rw [filed.get_eq grouped] at inEntry chosen
  obtain ⟨inDone, held⟩ := List.mem_filter.mp inEntry
  exact ⟨inDone, entry.1, chosen.1, held, chosen.2⟩

theorem Filed.nodup_above (filed : Filed lb now done scan) (distinct : done.Nodup) :
    ((scan.groupedByOwner.filter fun entry => entry.1 ≠ lb.clientId ∧ maximum < entry.2.length).flatMap
      (·.2)).Nodup := by
  refine List.nodup_flatMap.mpr ⟨fun entry member => ?_, ?_⟩
  · rw [filed.get_eq (List.mem_of_mem_filter member)]
    exact distinct.filter _
  · -- owners are distinct keys, and no record is held by two owners
    have keys := (List.pairwise_map.mp (SortedMap.keys_nodup filed.sorted)).filter
      (fun entry : String × List Ownership => decide (entry.1 ≠ lb.clientId ∧ maximum < entry.2.length))
    refine keys.imp_of_mem fun first second differ => ?_
    rw [Function.onFun, filed.get_eq (List.mem_of_mem_filter first), filed.get_eq (List.mem_of_mem_filter second)]
    intro o inFirst inSecond
    exact differ (heldBy_unique (List.mem_filter.mp inFirst).2 (List.mem_filter.mp inSecond).2)

theorem Filed.currentOwnership (filed : Filed lb now done scan) :
    (SortedMap.get scan.groupedByOwner lb.clientId).getD [] = lb.current now done := by
  simp only [filed.grouped, true_or, if_true, Option.getD_some]
  rfl

theorem Filed.available (filed : Filed lb now done scan) (distinct : done.Nodup) {partitionIds : List String}
    {claim : Bool} (isMax : maximum = lb.maximumAllowed now done partitionIds)
    (claimBelow : claim = true → (lb.current now done).length < maximum) :
    lb.Available now done partitionIds
      { currentOwnership := (SortedMap.get scan.groupedByOwner lb.clientId).getD []
        unownedOrExpired := scan.unownedOrExpired ++
          (partitionIds.filter fun id => id ∉ scan.partitionsAlreadyAdded).map lb.fresh
        claimMorePartitions := claim
        aboveMax := (scan.groupedByOwner.filter fun entry => entry.1 ≠ lb.clientId ∧ maximum < entry.2.length).flatMap
          (·.2)
        maxAllowed := maximum } := by
  have notAdded : ∀ id, decide (id ∉ scan.partitionsAlreadyAdded) = decide (id ∉ done.map Ownership.partitionId) :=
    fun id => by simp only [filed.added id]
  refine ⟨filed.currentOwnership, ?_, isMax, fun o member => filed.mem_above member, filed.nodup_above distinct,
    fun claimed => filed.currentOwnership ▸ claimBelow claimed⟩
  simp only [LoadBalancer.unowned, filed.unowned, List.filter_congr fun id _ => notAdded id]

end Filed

theorem scan_eq {ownerships : List Ownership} (inRange : lb.TimesInRange now ownerships) :
    (ownerships.foldlM (lb.scanOwnership now) ⟨[], [], [(lb.clientId, [])]⟩ : Run ε Scan) =
      .ok (ownerships.foldl (fun scan o => file scan o (lb.expired now o)) ⟨[], [], [(lb.clientId, [])]⟩) :=
  foldlM_eq_ok (fun o member scan => by
    rw [scanOwnership, isExpired_eq (inRange o member), ok_bind, pure_eq_ok]) _

theorem owners_card_ne_zero (ownerships : List Ownership) : (lb.owners now ownerships).card ≠ 0 :=
  (Finset.card_pos.mpr ⟨_, Finset.mem_insert_self _ _⟩).ne'

theorem getAvailablePartitions_spec {ownerships : List Ownership} {partitionIds : List String}
    (distinct : ownerships.Nodup) (inRange : lb.TimesInRange now ownerships) :
    ∃ info, (lb.getAvailablePartitions ownerships partitionIds now : Run ε LoadBalancerInfo) = .ok info ∧
      lb.Available now ownerships partitionIds info := by
  have filed := Filed.run ownerships [] _ (@filed_nil lb now)
  rw [List.nil_append] at filed
  unfold getAvailablePartitions
  rw [scan_eq inRange, ok_bind]
  generalize ownerships.foldl _ _ = scan at filed
  simp only [filed.lookup_self, filed.length_grouped, ok_bind, pure_eq_ok]
  rw [if_neg (owners_card_ne_zero ownerships)]
  by_cases extra : partitionIds.length % (lb.owners now ownerships).card > 0
  · -- one more partition is allowed when this processor already holds the minimum
    have isMax : (if partitionIds.length / (lb.owners now ownerships).card ≤ (lb.current now ownerships).length then
        partitionIds.length / (lb.owners now ownerships).card + 1 else partitionIds.length / (lb.owners now ownerships).card) =
        lb.maximumAllowed now ownerships partitionIds := by
      simp only [maximumAllowed, extra, true_and]
      split_ifs <;> rfl
    simp only [extra, decide_true, if_true, isMax]
    split_ifs with full
    · exact ⟨_, rfl, filed.available distinct rfl (by simp)⟩
    · rw [checkedSub_of_le (by omega), ok_bind]
      exact ⟨_, rfl, filed.available distinct rfl fun _ => by omega⟩
  · have isMax : partitionIds.length / (lb.owners now ownerships).card = lb.maximumAllowed now ownerships partitionIds := by
      simp [maximumAllowed, extra]
    simp only [extra, decide_false, Bool.false_eq_true, if_false, isMax]
    split_ifs with full
    · exact ⟨_, rfl, filed.available distinct rfl (by simp)⟩
    · exact ⟨_, rfl, filed.available distinct rfl fun _ => by omega⟩

/-! ## Drawing -/

theorem getRandomOwnerships_spec (ownerships : List Ownership) (count : Nat) (rng : Rng) :
    ∃ shuffled, shuffled.Perm ownerships ∧ (getRandomOwnerships ownerships count rng).1.Sublist shuffled ∧
      (getRandomOwnerships ownerships count rng).1.length ≤ count := by
  unfold getRandomOwnerships
  dsimp only
  split_ifs with empty
  · exact ⟨ownerships, List.Perm.refl _, List.nil_sublist _, Nat.zero_le _⟩
  · have perm := shuffle_perm ownerships.toArray rng
    generalize shuffle ownerships.toArray rng = drawn at perm ⊢
    refine ⟨drawn.1.toList, perm.trans (by simp), List.take_sublist _ _, ?_⟩
    simp only [List.length_take]
    omega

theorem nodup_getRandomOwnerships {ownerships : List Ownership} (distinct : ownerships.Nodup) (count : Nat)
    (rng : Rng) : (getRandomOwnerships ownerships count rng).1.Nodup := by
  obtain ⟨shuffled, perm, sublist, -⟩ := getRandomOwnerships_spec ownerships count rng
  exact sublist.nodup (perm.nodup_iff.mpr distinct)

theorem mem_of_mem_getRandomOwnerships {ownerships : List Ownership} {count : Nat} {rng : Rng} {o : Ownership}
    (member : o ∈ (getRandomOwnerships ownerships count rng).1) : o ∈ ownerships := by
  obtain ⟨shuffled, perm, sublist, -⟩ := getRandomOwnerships_spec ownerships count rng
  exact perm.mem_iff.mp (sublist.subset member)

theorem length_getRandomOwnerships_le (ownerships : List Ownership) (count : Nat) (rng : Rng) :
    (getRandomOwnerships ownerships count rng).1.length ≤ count :=
  (getRandomOwnerships_spec ownerships count rng).choose_spec.2.2

/-! ## What a round claims -/

section Claims

variable {ownerships : List Ownership} {partitionIds : List String}

theorem candidates_distinct (distinct : (ownerships.map Ownership.partitionId).Nodup) (distinctIds : partitionIds.Nodup) :
    ((lb.candidates ownerships partitionIds).map Ownership.partitionId).Nodup := by
  have freshIds : Ownership.partitionId ∘ lb.fresh = id := rfl
  rw [candidates, List.map_append, List.map_map, freshIds, List.map_id]
  refine List.nodup_append.mpr ⟨distinct, distinctIds.filter _, fun stored inStore id inFresh same => ?_⟩
  rw [← same] at inFresh
  simp only [List.mem_filter, decide_eq_true_eq] at inFresh
  exact inFresh.2 inStore

theorem unowned_sublist_candidates : (lb.unowned now ownerships partitionIds).Sublist (lb.candidates ownerships partitionIds) :=
  (List.filter_sublist).append (List.Sublist.refl _)

theorem unowned_cases {o : Ownership} (member : o ∈ lb.unowned now ownerships partitionIds) :
    (o ∈ ownerships ∧ lb.free now o = true) ∨ o ∉ ownerships := by
  rcases List.mem_append.mp member with free | fresh
  · exact .inl (List.mem_filter.mp free)
  · right
    intro stored
    obtain ⟨id, inIds, rfl⟩ := List.mem_map.mp fresh
    simp only [List.mem_filter, decide_eq_true_eq] at inIds
    exact inIds.2 (List.mem_map.mpr ⟨_, stored, rfl⟩)

variable {info : LoadBalancerInfo}

theorem Available.nodup_unowned (avail : lb.Available now ownerships partitionIds info)
    (distinct : (ownerships.map Ownership.partitionId).Nodup) (distinctIds : partitionIds.Nodup) :
    info.unownedOrExpired.Nodup := by
  rw [avail.unowned]
  exact (unowned_sublist_candidates.map _ |>.nodup (candidates_distinct distinct distinctIds)).of_map _

theorem Available.not_unowned_of_above (avail : lb.Available now ownerships partitionIds info) {o : Ownership}
    (above : o ∈ info.aboveMax) : o ∉ info.unownedOrExpired := by
  obtain ⟨stored, owner, -, held, -⟩ := avail.above o above
  rw [avail.unowned]
  intro offered
  rcases unowned_cases offered with ⟨-, isFree⟩ | missing
  · simp [heldBy_eq_false_of_free isFree owner] at held
  · exact missing stored

theorem resetOwnership_of_held {o : Ownership} (held : lb.heldBy now lb.clientId o = true) : lb.resetOwnership o = o := by
  simp only [heldBy, Bool.and_eq_true, beq_iff_eq] at held
  simp [resetOwnership, ← held.2]

theorem Available.map_reset_current (avail : lb.Available now ownerships partitionIds info) :
    info.currentOwnership.map lb.resetOwnership = info.currentOwnership := by
  rw [avail.current]
  calc (lb.current now ownerships).map lb.resetOwnership = (lb.current now ownerships).map id :=
        List.map_congr_left fun o member => resetOwnership_of_held (List.mem_filter.mp member).2
    _ = lb.current now ownerships := List.map_id _

variable {picked : List Ownership}

theorem Available.mem_candidates (avail : lb.Available now ownerships partitionIds info) (picks : Picked info picked)
    {o : Ownership} (member : o ∈ info.currentOwnership ++ picked) : o ∈ lb.candidates ownerships partitionIds := by
  rcases List.mem_append.mp member with held | chosen
  · rw [avail.current] at held
    exact List.mem_append_left _ (List.mem_of_mem_filter held)
  · rcases picks.source o chosen with offered | above
    · rw [avail.unowned] at offered
      exact unowned_sublist_candidates.subset offered
    · exact List.mem_append_left _ (avail.above o above).1

theorem Available.not_current_of_picked (avail : lb.Available now ownerships partitionIds info)
    (picks : Picked info picked) {o : Ownership} (held : o ∈ info.currentOwnership) (chosen : o ∈ picked) : False := by
  rw [avail.current] at held
  obtain ⟨stored, mine⟩ := List.mem_filter.mp held
  rcases picks.source o chosen with offered | above
  · rw [avail.unowned] at offered
    rcases unowned_cases offered with ⟨-, isFree⟩ | missing
    · simp [heldBy_eq_false_of_free isFree] at mine
    · exact missing stored
  · obtain ⟨-, owner, other, heldOther, -⟩ := avail.above o above
    exact other (heldBy_unique heldOther mine)

theorem Available.nodup_claimed (avail : lb.Available now ownerships partitionIds info) (distinct : ownerships.Nodup)
    (picks : Picked info picked) : (info.currentOwnership ++ picked).Nodup := by
  have currentNodup : info.currentOwnership.Nodup := by
    rw [avail.current]
    exact distinct.filter _
  exact List.nodup_append.mpr ⟨currentNodup, picks.nodup,
    fun a held b chosen same => avail.not_current_of_picked picks held (same ▸ chosen)⟩

theorem Available.above_of_held_elsewhere (avail : lb.Available now ownerships partitionIds info)
    (picks : Picked info picked) {o : Ownership} (member : o ∈ info.currentOwnership ++ picked) (stored : o ∈ ownerships)
    {owner : String} (other : owner ≠ lb.clientId) (held : lb.heldBy now owner o = true) :
    lb.maximumAllowed now ownerships partitionIds < (ownerships.filter (lb.heldBy now owner)).length := by
  rcases List.mem_append.mp member with mine | chosen
  · rw [avail.current] at mine
    exact absurd (heldBy_unique held (List.mem_filter.mp mine).2) other
  · rcases picks.source o chosen with offered | above
    · rw [avail.unowned] at offered
      rcases unowned_cases offered with ⟨-, isFree⟩ | missing
      · simp [heldBy_eq_false_of_free isFree] at held
      · exact absurd stored missing
    · obtain ⟨-, holder, -, heldByHolder, overMaximum⟩ := avail.above o above
      rw [heldBy_unique held heldByHolder, ← avail.maxAllowed]
      exact overMaximum

theorem Available.claimed_spec (avail : lb.Available now ownerships partitionIds info)
    (distinct : (ownerships.map Ownership.partitionId).Nodup) (distinctIds : partitionIds.Nodup)
    (picks : Picked info picked) :
    (((info.currentOwnership ++ picked).map lb.resetOwnership).map Ownership.partitionId).Nodup ∧
    (∀ c ∈ (info.currentOwnership ++ picked).map lb.resetOwnership, c.ownerId = some lb.clientId) ∧
    (∀ o ∈ ownerships, lb.heldBy now lb.clientId o = true → o ∈ (info.currentOwnership ++ picked).map lb.resetOwnership) ∧
    (∀ c ∈ (info.currentOwnership ++ picked).map lb.resetOwnership, ∀ o ∈ ownerships, o.partitionId = c.partitionId →
      ∀ owner, owner ≠ lb.clientId → lb.heldBy now owner o = true →
        lb.maximumAllowed now ownerships partitionIds < (ownerships.filter (lb.heldBy now owner)).length) := by
  have pool := @candidates_distinct lb ownerships partitionIds distinct distinctIds
  have samePartition : Ownership.partitionId ∘ lb.resetOwnership = Ownership.partitionId := rfl
  refine ⟨?_, ?_, ?_, ?_⟩
  · -- distinct records of the pool have distinct partitions
    rw [List.map_map, samePartition]
    exact (avail.nodup_claimed (distinct.of_map _) picks).map_on fun x inX y inY same =>
      List.inj_on_of_nodup_map pool (avail.mem_candidates picks inX) (avail.mem_candidates picks inY) same
  · intro c member
    obtain ⟨o, -, rfl⟩ := List.mem_map.mp member
    rfl
  · intro o stored mine
    have held : o ∈ info.currentOwnership := by
      rw [avail.current]
      exact List.mem_filter.mpr ⟨stored, mine⟩
    exact List.mem_map.mpr ⟨o, List.mem_append_left _ held, resetOwnership_of_held mine⟩
  · intro c member o stored same owner other held
    obtain ⟨y, inList, rfl⟩ := List.mem_map.mp member
    -- the claimed record is the store's record of that partition
    have isStored : o = y := List.inj_on_of_nodup_map pool (List.mem_append_left _ stored)
      (avail.mem_candidates picks inList) same
    subst isStored
    exact avail.above_of_held_elsewhere picks inList stored other held

/-! ## The strategies -/

theorem length_pos_of_not_isEmpty {xs : List Ownership} (offered : (!xs.isEmpty) = true) : 0 < xs.length := by
  cases xs <;> simp_all

theorem balancedLoadBalancer_spec (info : LoadBalancerInfo) (rng : Rng) :
    ∃ choice : Option Ownership, ∃ next,
      (lb.balancedLoadBalancer info rng : Run ε (Option Ownership × Rng)) = .ok (choice.map lb.resetOwnership, next) ∧
      ∀ o ∈ choice, o ∈ info.unownedOrExpired ∨ o ∈ info.aboveMax := by
  unfold balancedLoadBalancer
  split_ifs with offered above
  · have inside := Nat.mod_lt (rng.draws rng.next) (length_pos_of_not_isEmpty offered)
    simp only [Rng.randomRange, index_of_lt inside, ok_bind, pure_eq_ok]
    exact ⟨some _, _, rfl, fun o chosen => .inl (Option.mem_some_iff.mp chosen ▸ List.getElem_mem _)⟩
  · have inside := Nat.mod_lt (rng.draws rng.next) (length_pos_of_not_isEmpty above)
    simp only [Rng.randomRange, index_of_lt inside, ok_bind, pure_eq_ok]
    exact ⟨some _, _, rfl, fun o chosen => .inr (Option.mem_some_iff.mp chosen ▸ List.getElem_mem _)⟩
  · exact ⟨none, rng, rfl, fun o chosen => absurd chosen (by simp)⟩

theorem greedyLoadBalancer_spec (avail : lb.Available now ownerships partitionIds info)
    (distinct : (ownerships.map Ownership.partitionId).Nodup) (distinctIds : partitionIds.Nodup)
    (below : info.currentOwnership.length ≤ info.maxAllowed) (rng : Rng) :
    ∃ picked next, (lb.greedyLoadBalancer info rng : Run ε (List Ownership × Rng)) =
        .ok ((info.currentOwnership ++ picked).map lb.resetOwnership, next) ∧
      Picked info picked ∧ (info.currentOwnership ++ picked).length ≤ info.maxAllowed := by
  have firstNodup := nodup_getRandomOwnerships (avail.nodup_unowned distinct distinctIds)
    (info.maxAllowed - info.currentOwnership.length) rng
  have firstFrom : ∀ o, o ∈ (getRandomOwnerships info.unownedOrExpired
      (info.maxAllowed - info.currentOwnership.length) rng).1 → o ∈ info.unownedOrExpired :=
    fun _ member => mem_of_mem_getRandomOwnerships member
  have firstLength := length_getRandomOwnerships_le info.unownedOrExpired
    (info.maxAllowed - info.currentOwnership.length) rng
  unfold greedyLoadBalancer
  simp only [checkedSub_of_le below, ok_bind]
  generalize getRandomOwnerships info.unownedOrExpired (info.maxAllowed - info.currentOwnership.length) rng = first
    at firstNodup firstFrom firstLength ⊢
  obtain ⟨offered, next⟩ := first
  dsimp only at firstNodup firstFrom firstLength ⊢
  split_ifs with short
  · -- not enough on offer: the rest is taken from above the maximum
    have secondNodup := nodup_getRandomOwnerships avail.aboveNodup
      (info.maxAllowed - (info.currentOwnership ++ offered).length) next
    have secondFrom : ∀ o, o ∈ (getRandomOwnerships info.aboveMax
        (info.maxAllowed - (info.currentOwnership ++ offered).length) next).1 → o ∈ info.aboveMax :=
      fun _ member => mem_of_mem_getRandomOwnerships member
    have secondLength := length_getRandomOwnerships_le info.aboveMax
      (info.maxAllowed - (info.currentOwnership ++ offered).length) next
    simp only [checkedSub_of_le short.le, ok_bind, pure_eq_ok]
    generalize getRandomOwnerships info.aboveMax (info.maxAllowed - (info.currentOwnership ++ offered).length) next =
      second at secondNodup secondFrom secondLength ⊢
    obtain ⟨taken, last⟩ := second
    dsimp only at secondNodup secondFrom secondLength ⊢
    refine ⟨offered ++ taken, last, by rw [List.append_assoc], ⟨?_, ?_⟩, ?_⟩
    · exact List.nodup_append.mpr ⟨firstNodup, secondNodup, fun a inOffered b inTaken same =>
        avail.not_unowned_of_above (secondFrom b inTaken) (same ▸ firstFrom a inOffered)⟩
    · intro o member
      rcases List.mem_append.mp member with inOffered | inTaken
      · exact .inl (firstFrom o inOffered)
      · exact .inr (secondFrom o inTaken)
    · simp only [List.length_append] at short secondLength ⊢
      omega
  · simp only [pure_eq_ok]
    refine ⟨offered, next, rfl, ⟨firstNodup, fun o member => .inl (firstFrom o member)⟩, ?_⟩
    simp only [List.length_append]
    omega

/-! ## The round -/

theorem length_toList_le (choice : Option Ownership) : choice.toList.length ≤ 1 := by
  cases choice <;> simp

theorem loadBalance_spec (distinct : (ownerships.map Ownership.partitionId).Nodup) (distinctIds : partitionIds.Nodup)
    (inRange : lb.TimesInRange now ownerships) (rng : Rng) :
    ∃ info picked, lb.Available now ownerships partitionIds info ∧ Picked info picked ∧
      (lb.loadBalance ownerships partitionIds now rng : Run ε (List Ownership)) =
        .ok ((info.currentOwnership ++ picked).map lb.resetOwnership) ∧
      (info.currentOwnership ++ picked).length ≤ max info.currentOwnership.length info.maxAllowed ∧
      (lb.processorStrategy = .balanced → picked.length ≤ 1) := by
  obtain ⟨info, infoEq, avail⟩ := @getAvailablePartitions_spec ε lb now ownerships partitionIds (distinct.of_map _) inRange
  refine ⟨info, ?_⟩
  unfold loadBalance
  rw [infoEq, ok_bind]
  by_cases claim : info.claimMorePartitions = true
  · have below := avail.claimMore claim
    rw [if_pos claim]
    cases strategy : lb.processorStrategy with
    | balanced =>
        obtain ⟨choice, next, balancedEq, source⟩ := lb.balancedLoadBalancer_spec (ε := ε) info rng
        have picks : Picked info choice.toList :=
          ⟨by cases choice <;> simp, fun o member => source o (Option.mem_toList.mp member)⟩
        refine ⟨choice.toList, avail, picks, ?_, ?_, fun _ => length_toList_le choice⟩
        · cases choice <;> simp [balancedEq, avail.map_reset_current]
        · have one := length_toList_le choice
          simp only [List.length_append]
          omega
    | greedy =>
        obtain ⟨picked, next, greedyEq, picks, length⟩ :=
          lb.greedyLoadBalancer_spec (ε := ε) avail distinct distinctIds below.le rng
        simp only [greedyEq, ok_bind, pure_eq_ok]
        exact ⟨picked, avail, picks, rfl, le_max_of_le_right length, fun balanced => nomatch balanced⟩
  · rw [if_neg claim]
    refine ⟨[], avail, ⟨List.nodup_nil, by simp⟩, ?_, by simp, by simp⟩
    simp [pure_eq_ok, avail.map_reset_current]

end Claims

/-- A round with every time inside the dates passes to `claim_ownership` distinct partitions,
all with this processor as owner, every live record it holds, nothing from a processor at or
below `maximum_allowed`, and no more than the maximum (one more under Balanced). -/
theorem load_balance_never_over_claims (ownerships : List Ownership) (partitionIds : List String) (rng : Rng)
    (distinct : (ownerships.map Ownership.partitionId).Nodup) (distinctIds : partitionIds.Nodup)
    (inRange : lb.TimesInRange now ownerships) :
    ∃ claimed, (lb.loadBalance ownerships partitionIds now rng : Run ε (List Ownership)) = .ok claimed ∧
      (claimed.map Ownership.partitionId).Nodup ∧
      (∀ c ∈ claimed, c.ownerId = some lb.clientId) ∧
      (∀ o ∈ ownerships, lb.heldBy now lb.clientId o = true → o ∈ claimed) ∧
      (∀ c ∈ claimed, ∀ o ∈ ownerships, o.partitionId = c.partitionId → ∀ owner, owner ≠ lb.clientId →
        lb.heldBy now owner o = true →
          lb.maximumAllowed now ownerships partitionIds < (ownerships.filter (lb.heldBy now owner)).length) ∧
      claimed.length ≤ max (lb.current now ownerships).length (lb.maximumAllowed now ownerships partitionIds) ∧
      (lb.processorStrategy = .balanced → claimed.length ≤ (lb.current now ownerships).length + 1) := by
  obtain ⟨info, picked, avail, picks, claimedEq, bound, balanced⟩ := loadBalance_spec distinct distinctIds inRange rng
  obtain ⟨partitions, owned, keeps, fromAbove⟩ := avail.claimed_spec distinct distinctIds picks
  refine ⟨_, claimedEq, partitions, owned, keeps, fromAbove, ?_, fun strategy => ?_⟩
  · rw [List.length_map, ← avail.current, ← avail.maxAllowed]
    exact bound
  · have one := balanced strategy
    rw [List.length_map, List.length_append, ← avail.current]
    omega

/-- A processor that holds partition 0 while partition 1 has expired and partition 2 has no record. -/
theorem load_balance_never_over_claims_on_three_partitions :
    (([⟨"0", some "me", some 5⟩, ⟨"1", some "other", some 0⟩] : List Ownership).map Ownership.partitionId).Nodup ∧
    ["0", "1", "2"].Nodup ∧
    (⟨.balanced, 10, "me"⟩ : LoadBalancer).TimesInRange 12 [⟨"0", some "me", some 5⟩, ⟨"1", some "other", some 0⟩] ∧
    ∃ claimed, ((⟨.balanced, 10, "me"⟩ : LoadBalancer).loadBalance
        [⟨"0", some "me", some 5⟩, ⟨"1", some "other", some 0⟩] ["0", "1", "2"] 12 ⟨fun _ => 0, 0⟩ :
          Run Empty (List Ownership)) = .ok claimed ∧
      (claimed.map Ownership.partitionId).Nodup ∧
      (∀ c ∈ claimed, c.ownerId = some "me") ∧
      (∀ o ∈ ([⟨"0", some "me", some 5⟩, ⟨"1", some "other", some 0⟩] : List Ownership),
        (⟨.balanced, 10, "me"⟩ : LoadBalancer).heldBy 12 "me" o = true → o ∈ claimed) ∧
      (∀ c ∈ claimed, ∀ o ∈ ([⟨"0", some "me", some 5⟩, ⟨"1", some "other", some 0⟩] : List Ownership),
        o.partitionId = c.partitionId → ∀ owner, owner ≠ "me" →
        (⟨.balanced, 10, "me"⟩ : LoadBalancer).heldBy 12 owner o = true →
          (⟨.balanced, 10, "me"⟩ : LoadBalancer).maximumAllowed 12
              [⟨"0", some "me", some 5⟩, ⟨"1", some "other", some 0⟩] ["0", "1", "2"] <
            (([⟨"0", some "me", some 5⟩, ⟨"1", some "other", some 0⟩] : List Ownership).filter
              ((⟨.balanced, 10, "me"⟩ : LoadBalancer).heldBy 12 owner)).length) ∧
      claimed.length ≤ max
        ((⟨.balanced, 10, "me"⟩ : LoadBalancer).current 12 [⟨"0", some "me", some 5⟩, ⟨"1", some "other", some 0⟩]).length
        ((⟨.balanced, 10, "me"⟩ : LoadBalancer).maximumAllowed 12
          [⟨"0", some "me", some 5⟩, ⟨"1", some "other", some 0⟩] ["0", "1", "2"]) ∧
      (ProcessorStrategy.balanced = .balanced → claimed.length ≤
        ((⟨.balanced, 10, "me"⟩ : LoadBalancer).current 12
          [⟨"0", some "me", some 5⟩, ⟨"1", some "other", some 0⟩]).length + 1) := by
  have distinct : (([⟨"0", some "me", some 5⟩, ⟨"1", some "other", some 0⟩] : List Ownership).map
      Ownership.partitionId).Nodup := by decide
  have distinctIds : ["0", "1", "2"].Nodup := by decide
  have inRange : (⟨.balanced, 10, "me"⟩ : LoadBalancer).TimesInRange 12
      [⟨"0", some "me", some 5⟩, ⟨"1", some "other", some 0⟩] := by
    intro o member time timed
    simp only [List.mem_cons, List.not_mem_nil, or_false] at member
    rcases member with rfl | rfl <;> simp only [Option.some.injEq] at timed <;> subst timed <;>
      norm_num [minTimestamp, maxTimestamp]
  exact ⟨distinct, distinctIds, inRange,
    load_balance_never_over_claims _ ["0", "1", "2"] ⟨fun _ => 0, 0⟩ distinct distinctIds inRange⟩

/-- The largest `Duration` as the expiration duration: adding it to a record's time leaves the
dates, and the round panics. -/
theorem load_balance_panics_past_the_last_date :
    ((⟨.balanced, 9223372036854775807 * 10 ^ 9 + 999999999, "me"⟩ : LoadBalancer).loadBalance
      [⟨"0", some "other", some 0⟩] ["0"] 0 ⟨fun _ => 0, 0⟩ : Run Empty (List Ownership)) = panic := by
  rfl

end LoadBalancer

end EventHubs
