import AzureSdk.Cosmos.Models.RequestCharge

/-!
# Bounding an operation's per-attempt diagnostics

`compact_requests` bounds the records of an operation's attempts to a cap. Its first
phase cuts the attempts into runs of consecutive records with one `CompactionKey` and
keeps the first and last record of each run. When that keeps more records than the cap,
the second phase groups the attempts into one bucket per key, in first-seen order; past
the cap it keeps the bucket of the first attempt, the bucket of the last and the largest
others, and it truncates the records it keeps so that the terminal attempt stays last.
Either way a rollup row counts the attempts of each kept run or bucket and the buckets
left out are counted apart, so that the rows and the omitted count account for every
attempt.

`merge_carried_runs` folds into a fresh rollup the rows of sub-operations that were
compacted before, keyed without the operation name.

A record is modelled by the fields compaction and aggregation read, a region by its
normalized name, and durations in milliseconds by `Nat`: the count-weighted mean that
`combine_runs` computes in `u128` lies between the two medians, so it never leaves `u64`.
Both sorts are by a total order on what they sort, so `insertionSort` stands for
`sort_unstable` and `sort_by`.
-/

namespace CosmosDriver.Diagnostics

set_option autoImplicit false

inductive ExecutionContext where
  | initial
  | retry
  | transportRetry
  | hedging
  | regionFailover
  | circuitBreakerProbe
  deriving DecidableEq

/-- `CosmosStatus`: the HTTP status and the Cosmos sub-status. -/
structure CosmosStatus where
  statusCode : Nat
  subStatus : Option Nat
  deriving DecidableEq

/-- The fields of a `RequestDiagnostics` record that compaction and aggregation read. -/
structure RequestDiagnostics where
  executionContext : ExecutionContext
  region : Option String
  endpoint : String
  status : CosmosStatus
  requestCharge : RequestCharge
  durationMs : Nat
  operationName : Option String
  deriving DecidableEq

/-- `CompactionKey`: what a run of near-identical retries shares. -/
structure CompactionKey where
  region : Option String
  endpoint : String
  status : CosmosStatus
  executionContext : ExecutionContext
  operationName : Option String
  deriving DecidableEq

def CompactionKey.of (req : RequestDiagnostics) : CompactionKey :=
  ⟨req.region, req.endpoint, req.status, req.executionContext, req.operationName⟩

/-- `CompactedRun`: the rollup row of a run or a bucket. -/
structure CompactedRun where
  region : Option String
  endpoint : String
  status : CosmosStatus
  executionContext : ExecutionContext
  count : Nat
  totalRequestCharge : RequestCharge
  minDurationMs : Nat
  maxDurationMs : Nat
  p50DurationMs : Nat
  deriving DecidableEq

structure CompactionInfo where
  originalRequestCount : Nat
  retainedRequestCount : Nat
  collapsedRuns : Nat
  totalRuns : Nat
  retainedTruncated : Bool
  omittedRuns : Nat
  omittedRequestCount : Nat
  runs : List CompactedRun
  deriving DecidableEq

structure CompactionResult where
  retained : List RequestDiagnostics
  runs : List CompactedRun
  collapsedRuns : Nat
  retainedTruncated : Bool
  totalRuns : Nat
  omittedRuns : Nat
  omittedRequestCount : Nat

structure MergedRuns where
  runs : List CompactedRun
  extraTotalRuns : Nat
  extraOmittedRuns : Nat

structure Attempts where
  first : RequestDiagnostics
  rest : List RequestDiagnostics
  deriving DecidableEq

def Attempts.toList (run : Attempts) : List RequestDiagnostics :=
  run.first :: run.rest

/-- `percentile_sorted(values, 50)`, the one percentile compaction takes: the index
`round(0.5 * (n - 1))` is `n / 2`, as `f64::round` takes a half away from zero. -/
def percentileSorted (values : List Nat) : Nat :=
  values.getD (values.length / 2) 0

/-- `compacted_run`; its `reqs[0]` is the first attempt. -/
def compactedRun (reqs : Attempts) : CompactedRun :=
  let durations := (reqs.toList.map (·.durationMs)).insertionSort (· ≤ ·)
  { region := reqs.first.region
    endpoint := reqs.first.endpoint
    status := reqs.first.status
    executionContext := reqs.first.executionContext
    count := reqs.toList.length
    totalRequestCharge := RequestCharge.sum (reqs.toList.map (·.requestCharge))
    minDurationMs := durations.head?.getD 0
    maxDurationMs := durations.getLast?.getD 0
    p50DurationMs := percentileSorted durations }

/-- `push_first_last`: the first record of a run, and its last when it has another. -/
def firstLast (run : Attempts) : List RequestDiagnostics :=
  run.first :: run.rest.getLast?.toList

/-! ## Phase 1: runs of consecutive attempts -/

def sameKey (first req : RequestDiagnostics) : Bool :=
  CompactionKey.of req == CompactionKey.of first

/-- The runs the loop of `run_length_compact` cuts: from `requests[i]`, every following
record whose key is the key of `requests[i]`. -/
def keyRuns : List RequestDiagnostics → List Attempts
  | [] => []
  | first :: rest => ⟨first, rest.takeWhile (sameKey first)⟩ :: keyRuns (rest.dropWhile (sameKey first))
termination_by requests => requests.length
decreasing_by
  have shorter := List.length_dropWhile_le (sameKey first) rest
  simp only [List.length_cons]
  omega

def runLengthCompact (requests : List RequestDiagnostics) : CompactionResult :=
  let runs := keyRuns requests
  { retained := runs.flatMap firstLast
    runs := runs.map compactedRun
    collapsedRuns := runs.countP fun run => run.toList.length > 2
    retainedTruncated := false
    totalRuns := runs.length
    omittedRuns := 0
    omittedRequestCount := 0 }

/-! ## Phase 2: one bucket per key -/

/-- Adds an attempt to the bucket of its key, or opens a bucket for it after the others:
`groups.get_mut` with `order.push` on a miss. The buckets' keys are distinct, so the first
bucket of the key is the only one. -/
def addToBucket : List Attempts → RequestDiagnostics → List Attempts
  | [], req => [⟨req, []⟩]
  | bucket :: buckets, req =>
      if sameKey bucket.first req then { bucket with rest := bucket.rest ++ [req] } :: buckets
      else bucket :: addToBucket buckets req

/-- The buckets of `global_bucket_compact`, in the order of `order`. -/
def buckets (requests : List RequestDiagnostics) : List Attempts :=
  requests.foldl addToBucket []

def rankByCount (counts : List Nat) (indices : List Nat) : List Nat :=
  indices.insertionSort fun a b =>
    counts.getD b 0 < counts.getD a 0 ∨ (counts.getD a 0 = counts.getD b 0 ∧ a ≤ b)

def kept {β : Type} (marks : List Bool) (values : List β) : List β :=
  (values.zip marks).filterMap fun (value, mark) => if mark then some value else none

def dropped {β : Type} (marks : List Bool) (values : List β) : List β :=
  (values.zip marks).filterMap fun (value, mark) => if mark then none else some value

/-- The `keep` marks of `global_bucket_compact`: every bucket within the cap; past it the
first bucket, the bucket of the last attempt, and the largest others while slots remain. -/
def keepBuckets (counts : List Nat) (lastIndex cap : Nat) : List Bool :=
  let totalRuns := counts.length
  if totalRuns > cap then
    let reserved := ((List.replicate totalRuns false).set 0 true).set lastIndex true
    let remaining := cap - reserved.count true
    if remaining > 0 then
      let ranked := rankByCount counts ((List.range totalRuns).filter fun i => !reserved.getD i false)
      (ranked.take remaining).foldl (fun marks i => marks.set i true) reserved
    else reserved
  else List.replicate totalRuns true

/-- What a kept bucket adds to the retained records: its first and last, or for the bucket
of the last attempt only its first, and that only when the bucket holds another. -/
def bucketRecords (lastKey : CompactionKey) (bucket : Attempts) : List RequestDiagnostics :=
  if CompactionKey.of bucket.first = lastKey then
    if bucket.rest.isEmpty then [] else [bucket.first]
  else firstLast bucket

/-- `global_bucket_compact`, given the last attempt `terminal` that its `expect` takes. -/
def globalBucketCompact (requests : List RequestDiagnostics) (terminal : RequestDiagnostics)
    (cap : Nat) : CompactionResult :=
  let groups := buckets requests
  let counts := groups.map (·.toList.length)
  let lastKey := CompactionKey.of terminal
  let keep := keepBuckets counts (groups.findIdx fun bucket => CompactionKey.of bucket.first == lastKey) cap
  let retained := (kept keep groups).flatMap (bucketRecords lastKey)
  let retainedTruncated := decide (retained.length + 1 > cap)
  { retained := (if retainedTruncated then retained.take (cap - 1) else retained) ++ [terminal]
    runs := (kept keep groups).map compactedRun
    collapsedRuns := counts.countP (· > 2)
    retainedTruncated
    totalRuns := groups.length
    omittedRuns := (dropped keep counts).length
    omittedRequestCount := (dropped keep counts).sum }

/-- `compact_requests`. Phase 2 runs only when Phase 1 retains more than the cap, so
`requests` is not empty there. -/
def compactRequests (requests : List RequestDiagnostics) (cap : Nat) : CompactionResult :=
  let runLength := runLengthCompact requests
  if runLength.retained.length ≤ cap then runLength
  else
    match requests.getLast? with
    | some terminal => globalBucketCompact requests terminal cap
    | none => runLength

/-! ## Carried rollup rows -/

/-- `combine_runs`: the counts and charges add, `p50` is the count-weighted mean. -/
def combineRuns (into other : CompactedRun) : CompactedRun :=
  let total := into.count + other.count
  { into with
    p50DurationMs :=
      if total > 0 then (into.p50DurationMs * into.count + other.p50DurationMs * other.count) / total
      else into.p50DurationMs
    count := total
    totalRequestCharge := into.totalRequestCharge + other.totalRequestCharge
    minDurationMs := min into.minDurationMs other.minDurationMs
    maxDurationMs := max into.maxDurationMs other.maxDurationMs }

/-- `RunKey`: a run's key without the operation name. -/
abbrev RunKey := Option String × String × CosmosStatus × ExecutionContext

def runKey (run : CompactedRun) : RunKey :=
  (run.region, run.endpoint, run.status, run.executionContext)

/-- Where the `HashMap` collected from the fresh rows sends a key: to the last fresh row
with it, as a later entry replaces an earlier one. -/
def freshIndex (fresh : List CompactedRun) (key : RunKey) : Option Nat :=
  ((fresh.zipIdx.filter fun (run, _) => runKey run == key).getLast?).map (·.2)

/-- One carried row of `merge_carried_runs`, into the rows and the extra rows so far. -/
def carryRun (fresh : List CompactedRun) (merged : List CompactedRun × List CompactedRun)
    (run : CompactedRun) : List CompactedRun × List CompactedRun :=
  match freshIndex fresh (runKey run) with
  | some i => (merged.1.modify i (combineRuns · run), merged.2)
  | none =>
      match merged.2.findIdx? (runKey · == runKey run) with
      | some j => (merged.1, merged.2.modify j (combineRuns · run))
      | none => (merged.1, merged.2 ++ [run])

def mergeCarriedRuns (fresh carried : List CompactedRun) (cap : Nat) : MergedRuns :=
  let (runs, extra) := carried.foldl (carryRun fresh) (fresh, [])
  let extraTotalRuns := extra.length
  let remaining := cap - runs.length
  if extraTotalRuns > remaining then
    let ranked := (rankByCount (extra.map (·.count)) (List.range extraTotalRuns)).take remaining
    ⟨runs ++ kept ((List.range extraTotalRuns).map (· ∈ ranked)) extra, extraTotalRuns,
      extraTotalRuns - remaining⟩
  else ⟨runs ++ extra, extraTotalRuns, 0⟩

/-! ## Every attempt is counted -/

@[simp] theorem count_compactedRun (run : Attempts) : (compactedRun run).count = run.toList.length := rfl

theorem keyRuns_cons (first : RequestDiagnostics) (rest : List RequestDiagnostics) :
    keyRuns (first :: rest) =
      ⟨first, rest.takeWhile (sameKey first)⟩ :: keyRuns (rest.dropWhile (sameKey first)) := by
  rw [keyRuns]

theorem flatMap_keyRuns (requests : List RequestDiagnostics) :
    (keyRuns requests).flatMap Attempts.toList = requests := by
  induction requests using keyRuns.induct with
  | case1 => simp [keyRuns]
  | case2 first rest later => simp [keyRuns_cons, Attempts.toList, later]

theorem runLengthCompact_accounts (requests : List RequestDiagnostics) :
    ((runLengthCompact requests).runs.map (·.count)).sum + (runLengthCompact requests).omittedRequestCount =
      requests.length := by
  have counts : (keyRuns requests).map (fun run => (compactedRun run).count) =
      (keyRuns requests).map (fun run => run.toList.length) := rfl
  calc ((runLengthCompact requests).runs.map (·.count)).sum + 0
      = ((keyRuns requests).flatMap Attempts.toList).length := by
        simp only [runLengthCompact, List.map_map, Function.comp_def, counts, List.length_flatMap]
        rfl
    _ = requests.length := by rw [flatMap_keyRuns]

theorem sum_addToBucket (groups : List Attempts) (req : RequestDiagnostics) :
    ((addToBucket groups req).map (·.toList.length)).sum = (groups.map (·.toList.length)).sum + 1 := by
  induction groups with
  | nil => simp [addToBucket, Attempts.toList]
  | cons bucket groups later =>
      unfold addToBucket
      split
      · simp [Attempts.toList]
        omega
      · simp [later]
        omega

theorem sum_foldl_addToBucket (groups : List Attempts) (reqs : List RequestDiagnostics) :
    ((reqs.foldl addToBucket groups).map (·.toList.length)).sum =
      (groups.map (·.toList.length)).sum + reqs.length := by
  induction reqs generalizing groups with
  | nil => simp
  | cons req reqs later =>
      simp only [List.foldl_cons, later, sum_addToBucket, List.length_cons]
      omega

theorem sum_buckets (requests : List RequestDiagnostics) :
    ((buckets requests).map (·.toList.length)).sum = requests.length := by
  simpa [buckets] using sum_foldl_addToBucket [] requests

section Marks

variable {β : Type}

@[simp] theorem kept_nil (marks : List Bool) : kept marks ([] : List β) = [] := rfl

@[simp] theorem dropped_nil (marks : List Bool) : dropped marks ([] : List β) = [] := rfl

@[simp] theorem kept_cons (mark : Bool) (marks : List Bool) (value : β) (values : List β) :
    kept (mark :: marks) (value :: values) = if mark then value :: kept marks values else kept marks values := by
  cases mark <;> rfl

@[simp] theorem dropped_cons (mark : Bool) (marks : List Bool) (value : β) (values : List β) :
    dropped (mark :: marks) (value :: values) =
      if mark then dropped marks values else value :: dropped marks values := by
  cases mark <;> rfl

theorem kept_map {γ : Type} (f : β → γ) (marks : List Bool) (values : List β) :
    kept marks (values.map f) = (kept marks values).map f := by
  induction values generalizing marks with
  | nil => rfl
  | cons value values later =>
      cases marks with
      | nil => rfl
      | cons mark marks => cases mark <;> simp [later]

theorem sum_kept_add_sum_dropped (marks : List Bool) (values : List Nat) (covered : values.length ≤ marks.length) :
    (kept marks values).sum + (dropped marks values).sum = values.sum := by
  induction values generalizing marks with
  | nil => rfl
  | cons value values later =>
      cases marks with
      | nil => simp at covered
      | cons mark marks =>
          have rest := later marks (by simpa using covered)
          cases mark <;> simp <;> omega

end Marks

theorem length_foldl_set (indices : List Nat) (marks : List Bool) :
    (indices.foldl (fun marks i => marks.set i true) marks).length = marks.length := by
  induction indices generalizing marks with
  | nil => rfl
  | cons i indices later => simp [later]

theorem length_keepBuckets (counts : List Nat) (lastIndex cap : Nat) :
    (keepBuckets counts lastIndex cap).length = counts.length := by
  simp only [keepBuckets]
  split
  · split <;> simp [length_foldl_set]
  · simp

theorem globalBucketCompact_accounts (requests : List RequestDiagnostics) (terminal : RequestDiagnostics)
    (cap : Nat) :
    ((globalBucketCompact requests terminal cap).runs.map (·.count)).sum +
      (globalBucketCompact requests terminal cap).omittedRequestCount = requests.length := by
  set counts := (buckets requests).map (·.toList.length)
  set keep := keepBuckets counts
    ((buckets requests).findIdx fun bucket => CompactionKey.of bucket.first == CompactionKey.of terminal) cap
  have rows : (globalBucketCompact requests terminal cap).runs.map (·.count) = kept keep counts := by
    simp only [globalBucketCompact, List.map_map, Function.comp_def, count_compactedRun]
    exact (kept_map _ keep (buckets requests)).symm
  have covered : counts.length ≤ keep.length := by simp [keep, length_keepBuckets]
  calc ((globalBucketCompact requests terminal cap).runs.map (·.count)).sum +
        (globalBucketCompact requests terminal cap).omittedRequestCount
      = (kept keep counts).sum + (dropped keep counts).sum := by rw [rows]; rfl
    _ = requests.length := by rw [sum_kept_add_sum_dropped keep counts covered, sum_buckets]

theorem compactRequests_accounts (requests : List RequestDiagnostics) (cap : Nat) :
    ((compactRequests requests cap).runs.map (·.count)).sum + (compactRequests requests cap).omittedRequestCount =
      requests.length := by
  simp only [compactRequests]
  split
  · exact runLengthCompact_accounts requests
  · split
    · exact globalBucketCompact_accounts requests _ cap
    · exact runLengthCompact_accounts requests

/-! ## The bound -/

theorem globalBucketCompact_retained_le (requests : List RequestDiagnostics) (terminal : RequestDiagnostics)
    (cap : Nat) : (globalBucketCompact requests terminal cap).retained.length ≤ max cap 1 := by
  simp only [globalBucketCompact]
  split
  · rename_i truncated
    simp only [List.length_append, List.length_take, List.length_singleton]
    omega
  · rename_i fits
    simp only [decide_eq_true_eq, not_lt] at fits
    simp only [List.length_append, List.length_singleton]
    omega

theorem compactRequests_retained_le (requests : List RequestDiagnostics) (cap : Nat) :
    (compactRequests requests cap).retained.length ≤ max cap 1 := by
  simp only [compactRequests]
  split
  · rename_i fits
    omega
  · split
    · exact globalBucketCompact_retained_le requests _ cap
    · rename_i excess _ empty
      rw [List.getLast?_eq_none_iff] at empty
      subst empty
      simp [runLengthCompact, keyRuns] at excess

/-! ## The first and the terminal attempt -/

theorem head?_flatMap_firstLast (runs : List Attempts) :
    (runs.flatMap firstLast).head? = (runs.flatMap Attempts.toList).head? := by
  cases runs with
  | nil => rfl
  | cons run runs => simp [firstLast, Attempts.toList]

theorem getLast?_flatMap_firstLast (runs : List Attempts) :
    (runs.flatMap firstLast).getLast? = (runs.flatMap Attempts.toList).getLast? := by
  induction runs with
  | nil => rfl
  | cons run runs later =>
      have ends : (firstLast run).getLast? = run.toList.getLast? := by
        cases last : run.rest.getLast? <;> simp [firstLast, Attempts.toList, List.getLast?_cons, last]
      simp only [List.flatMap_cons, List.getLast?_append, later, ends]

theorem runLengthCompact_ends (requests : List RequestDiagnostics) :
    (runLengthCompact requests).retained.head? = requests.head? ∧
      (runLengthCompact requests).retained.getLast? = requests.getLast? := by
  simp only [runLengthCompact]
  rw [head?_flatMap_firstLast, getLast?_flatMap_firstLast, flatMap_keyRuns]
  exact ⟨rfl, rfl⟩

theorem foldl_addToBucket_cons (bucket : Attempts) (groups : List Attempts) (reqs : List RequestDiagnostics) :
    ∃ later, reqs.foldl addToBucket (bucket :: groups) =
      { bucket with rest := bucket.rest ++ reqs.filter (sameKey bucket.first) } :: later := by
  induction reqs generalizing bucket groups with
  | nil => exact ⟨groups, by simp⟩
  | cons req reqs induction =>
      by_cases same : sameKey bucket.first req
      · obtain ⟨later, folded⟩ := induction { bucket with rest := bucket.rest ++ [req] } groups
        exact ⟨later, by simp [addToBucket, same, folded]⟩
      · obtain ⟨later, folded⟩ := induction bucket (addToBucket groups req)
        exact ⟨later, by simp [addToBucket, same, folded]⟩

theorem buckets_cons (first : RequestDiagnostics) (rest : List RequestDiagnostics) :
    ∃ later, buckets (first :: rest) = ⟨first, rest.filter (sameKey first)⟩ :: later := by
  simpa [buckets, addToBucket] using foldl_addToBucket_cons ⟨first, []⟩ [] rest

theorem getElem?_zero_foldl_set (indices : List Nat) (marks : List Bool) (first : marks[0]? = some true) :
    (indices.foldl (fun marks i => marks.set i true) marks)[0]? = some true := by
  induction indices generalizing marks with
  | nil => exact first
  | cons i indices later =>
      apply later
      obtain ⟨positive, -⟩ := List.getElem?_eq_some_iff.mp first
      rw [List.getElem?_set]
      split <;> simp_all

theorem keepBuckets_first (counts : List Nat) (lastIndex cap : Nat) (nonempty : counts ≠ []) :
    (keepBuckets counts lastIndex cap)[0]? = some true := by
  have positive : 0 < counts.length := List.length_pos_iff.mpr nonempty
  have reservedFirst :
      (((List.replicate counts.length false).set 0 true).set lastIndex true)[0]? = some true := by
    rw [List.getElem?_set]
    split <;> simp_all
  simp only [keepBuckets]
  split
  · split
    · exact getElem?_zero_foldl_set _ _ reservedFirst
    · exact reservedFirst
  · simp [positive]

theorem kept_cons_of_first {β : Type} (value : β) (values : List β) (marks : List Bool)
    (first : marks[0]? = some true) : ∃ rest, kept marks (value :: values) = value :: rest := by
  cases marks with
  | nil => simp at first
  | cons mark marks =>
      simp only [List.getElem?_cons_zero, Option.some.injEq] at first
      subst first
      exact ⟨kept marks values, kept_cons true marks value values⟩

theorem bucketRecords_first (first terminal : RequestDiagnostics) (rest : List RequestDiagnostics)
    (last : (first :: rest).getLast? = some terminal) :
    (∃ more, bucketRecords (CompactionKey.of terminal) ⟨first, rest.filter (sameKey first)⟩ = first :: more) ∨
      (rest = [] ∧ terminal = first) := by
  unfold bucketRecords
  by_cases same : CompactionKey.of first = CompactionKey.of terminal
  · by_cases alone : (rest.filter (sameKey first)).isEmpty
    · right
      cases rest with
      | nil => simpa using last.symm
      | cons next more =>
          -- the terminal attempt is a later one of the first key, so the bucket is not alone
          have terminalLater : terminal ∈ next :: more := by
            rw [List.getLast?_cons_cons] at last
            exact List.mem_of_getLast? last
          have gathered : terminal ∈ (next :: more).filter (sameKey first) :=
            List.mem_filter.mpr ⟨terminalLater, by simp [sameKey, same]⟩
          simp [List.isEmpty_iff.mp alone] at gathered
    · left
      exact ⟨[], by simp [same, alone]⟩
  · left
    rw [if_neg same]
    exact ⟨_, rfl⟩

theorem head?_truncated (retained : List RequestDiagnostics) (terminal : RequestDiagnostics) (cap : Nat)
    (room : 2 ≤ cap) (truncated : Bool) :
    ((if truncated then retained.take (cap - 1) else retained) ++ [terminal]).head? =
      retained.head?.or (some terminal) := by
  have positive : cap - 1 ≠ 0 := by omega
  cases truncated <;> simp [List.head?_append, List.head?_take, positive]

theorem globalBucketCompact_first (first terminal : RequestDiagnostics) (rest : List RequestDiagnostics)
    (cap : Nat) (room : 2 ≤ cap) (last : (first :: rest).getLast? = some terminal) :
    (globalBucketCompact (first :: rest) terminal cap).retained.head? = some first := by
  obtain ⟨later, grouped⟩ := buckets_cons first rest
  simp only [globalBucketCompact]
  rw [head?_truncated _ _ _ room, grouped]
  generalize keepBuckets _ _ cap = keep, keeps : keepBuckets _ _ cap = keep
  obtain ⟨others, keptFirst⟩ := kept_cons_of_first ⟨first, rest.filter (sameKey first)⟩ later keep
    (keeps ▸ keepBuckets_first _ _ _ (by simp))
  rw [keptFirst, List.flatMap_cons]
  rcases bucketRecords_first first terminal rest last with ⟨more, starts⟩ | ⟨alone, rfl⟩
  · simp [starts]
  · -- the only attempt is the terminal one, so its bucket is the only one and adds nothing
    subst alone
    have noLater : later = [] := by
      simpa [buckets, addToBucket] using grouped.symm
    subst noLater
    have noOthers : others = [] := by
      have short : (kept keep [(⟨terminal, []⟩ : Attempts)]).length ≤ 1 :=
        (List.length_filterMap_le _ _).trans (by simp)
      rw [List.filter_nil] at keptFirst
      rw [keptFirst] at short
      simpa using short
    simp [noOthers, bucketRecords]

theorem compactRequests_ends (requests : List RequestDiagnostics) (cap : Nat) (room : 2 ≤ cap) :
    (compactRequests requests cap).retained.head? = requests.head? ∧
      (compactRequests requests cap).retained.getLast? = requests.getLast? := by
  simp only [compactRequests]
  split
  · exact runLengthCompact_ends requests
  · split
    · rename_i terminal last
      cases requests with
      | nil => simp at last
      | cons first rest =>
          refine ⟨globalBucketCompact_first first terminal rest cap room last, ?_⟩
          simp [globalBucketCompact, last]
    · exact runLengthCompact_ends requests

end CosmosDriver.Diagnostics
