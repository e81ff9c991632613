import AzureSdk.Cosmos.Diagnostics.Compaction

/-!
# Diagnostics contexts and their aggregation

A finalized `DiagnosticsContext` holds the records of an operation's attempts, at most
`max_request_diagnostics` of them, and a `CompactionInfo` when they were compacted, whose
`original_request_count` is then the number of attempts. `complete` compacts at
finalization. `aggregate_sub_operations` joins the contexts of sub-operations into one:
it tags each record that has no operation name with its source's, bounds the joined
records again, and counts the attempts as the sum of the sources' counts.

Every context retains no more records than it counts attempts; that is what makes the sum
exact when the aggregate is not compacted. The model keeps the fields these functions read
and write; durations are in nanoseconds.
-/

namespace CosmosDriver.Diagnostics

set_option autoImplicit false

/-- `DiagnosticsOptions`, by the field aggregation reads; `build` refuses a cap below 16. -/
structure DiagnosticsOptions where
  maxRequestDiagnostics : Nat
  atLeastMinimum : 16 ≤ maxRequestDiagnostics

/-- `Duration::MAX` in nanoseconds: `u64::MAX` seconds and `999_999_999`. -/
def durationMax : Nat := 18446744073709551615 * 1000000000 + 999999999

/-- `Duration::saturating_add`, on durations up to `Duration::MAX`. -/
def saturatingAdd (a b : Nat) : Nat := min (a + b) durationMax

/-- `DiagnosticsContext`. A compacted context retains no more records than attempts. -/
structure DiagnosticsContext where
  activityId : String
  duration : Nat
  requests : List RequestDiagnostics
  totalRequestCharge : RequestCharge
  regionsContacted : List String
  status : Option CosmosStatus
  options : DiagnosticsOptions
  machineId : Option String
  operationName : Option String
  faultInjectionEnabled : Bool
  compaction : Option CompactionInfo
  counted : ∀ info ∈ compaction, requests.length ≤ info.originalRequestCount

namespace DiagnosticsContext

def requestCount (ctx : DiagnosticsContext) : Nat :=
  (ctx.compaction.map (·.originalRequestCount)).getD ctx.requests.length

theorem length_le_requestCount (ctx : DiagnosticsContext) : ctx.requests.length ≤ ctx.requestCount := by
  unfold requestCount
  cases compacted : ctx.compaction with
  | none => simp
  | some info => exact ctx.counted info compacted

end DiagnosticsContext

open DiagnosticsContext (requestCount)

def pushNew {β : Type} [DecidableEq β] (regions : List β) (region : β) : List β :=
  if region ∈ regions then regions else regions ++ [region]

def orderedUniqueRegions (requests : List RequestDiagnostics) : List String :=
  requests.foldl (fun regions request => (request.region.map (pushNew regions)).getD regions) []

/-! ## Finalization -/

/-- The part of a `DiagnosticsContextBuilder` that `complete` reads. -/
structure DiagnosticsContextBuilder where
  activityId : String
  requests : List RequestDiagnostics
  status : Option CosmosStatus
  options : DiagnosticsOptions
  machineId : Option String
  operationName : Option String
  faultInjectionEnabled : Bool

/-- The records and the marker `complete` finalizes: compacted past the cap, with the true
attempt count and the counts `compact_requests` reports. -/
def finalizedRequests (requests : List RequestDiagnostics) (cap : Nat) :
    List RequestDiagnostics × Option CompactionInfo :=
  if requests.length > cap then
    let compacted := compactRequests requests cap
    (compacted.retained,
      some
        { originalRequestCount := requests.length
          retainedRequestCount := compacted.retained.length
          collapsedRuns := compacted.collapsedRuns
          totalRuns := compacted.totalRuns
          retainedTruncated := compacted.retainedTruncated
          omittedRuns := compacted.omittedRuns
          omittedRequestCount := compacted.omittedRequestCount
          runs := compacted.runs })
  else (requests, none)

theorem finalizedRequests_cases (requests : List RequestDiagnostics) (cap : Nat) :
    (cap < requests.length ∧ (finalizedRequests requests cap).1 = (compactRequests requests cap).retained ∧
        ∃ info, (finalizedRequests requests cap).2 = some info ∧ info.originalRequestCount = requests.length ∧
          info.runs = (compactRequests requests cap).runs ∧
          info.omittedRequestCount = (compactRequests requests cap).omittedRequestCount) ∨
      (requests.length ≤ cap ∧ finalizedRequests requests cap = (requests, none)) := by
  by_cases excess : requests.length > cap
  · left
    rw [finalizedRequests, if_pos excess]
    exact ⟨excess, rfl, _, rfl, rfl, rfl, rfl⟩
  · right
    rw [finalizedRequests, if_neg excess]
    exact ⟨by omega, rfl⟩

theorem finalizedRequests_counted (requests : List RequestDiagnostics) (cap : Nat) (positive : 1 ≤ cap) :
    ∀ info ∈ (finalizedRequests requests cap).2,
      (finalizedRequests requests cap).1.length ≤ info.originalRequestCount := by
  intro info marked
  rcases finalizedRequests_cases requests cap with ⟨excess, records, found, marker, original, -, -⟩ | ⟨-, verbatim⟩
  · rw [marker, Option.mem_def, Option.some.injEq] at marked
    subst marked
    have bounded := compactRequests_retained_le requests cap
    rw [records, original]
    omega
  · simp [verbatim] at marked

/-- `DiagnosticsContextBuilder::complete`, at `elapsed` nanoseconds after the start, with the
`fault_injection` feature on. -/
def DiagnosticsContextBuilder.complete (builder : DiagnosticsContextBuilder) (elapsed : Nat) :
    DiagnosticsContext :=
  let cap := builder.options.maxRequestDiagnostics
  { activityId := builder.activityId
    duration := elapsed
    requests := (finalizedRequests builder.requests cap).1
    totalRequestCharge := RequestCharge.sum (builder.requests.map (·.requestCharge))
    regionsContacted := orderedUniqueRegions builder.requests
    status := builder.status
    options := builder.options
    machineId := builder.machineId
    operationName := builder.operationName
    faultInjectionEnabled := builder.faultInjectionEnabled
    compaction := (finalizedRequests builder.requests cap).2
    counted := finalizedRequests_counted builder.requests cap
      (Nat.le_trans (by decide) builder.options.atLeastMinimum) }

/-! ## Aggregation -/

/-- The records a source adds to an aggregate: each keeps its operation name, or takes the
source's when it has none. -/
def taggedRequests (source : DiagnosticsContext) : List RequestDiagnostics :=
  source.requests.map fun req =>
    if req.operationName.isNone then { req with operationName := source.operationName } else req

structure AggregatedRollup where
  runs : List CompactedRun
  collapsedRuns : Nat
  totalRuns : Nat
  omittedRuns : Nat

/-- `aggregate_run_rollup`: the verbatim sources rolled up afresh, the compacted sources'
rows carried in. -/
def aggregateRunRollup (sources : List DiagnosticsContext) (cap : Nat) : AggregatedRollup :=
  let verbatim := (sources.filter (·.compaction.isNone)).flatMap (·.requests)
  let fresh := compactRequests verbatim cap
  let sourceInfos := sources.filterMap (·.compaction)
  let merged := mergeCarriedRuns fresh.runs (sourceInfos.flatMap (·.runs)) cap
  let sourceOmittedRuns := (sourceInfos.map (·.omittedRuns)).sum
  { runs := merged.runs
    collapsedRuns := fresh.collapsedRuns + (sourceInfos.map (·.collapsedRuns)).sum
    totalRuns := fresh.totalRuns + merged.extraTotalRuns + sourceOmittedRuns
    omittedRuns := fresh.omittedRuns + merged.extraOmittedRuns + sourceOmittedRuns }

/-- The records and the marker of an aggregate: compacted past the cap; counted apart when
they fit but a source was compacted; verbatim otherwise. -/
def aggregatedRequests (sources : List DiagnosticsContext) (cap : Nat) :
    List RequestDiagnostics × Option CompactionInfo :=
  let aggregated := sources.flatMap taggedRequests
  let originalRequestCount := (sources.map requestCount).sum
  if aggregated.length > cap then
    let compacted := compactRequests aggregated cap
    let retainedRequestCount := compacted.retained.length
    let rollup : AggregatedRollup :=
      if sources.any (·.compaction.isSome) then aggregateRunRollup sources cap
      else ⟨compacted.runs, compacted.collapsedRuns, compacted.totalRuns, compacted.omittedRuns⟩
    (compacted.retained,
      some
        { originalRequestCount
          retainedRequestCount
          collapsedRuns := rollup.collapsedRuns
          totalRuns := rollup.totalRuns
          retainedTruncated := compacted.retainedTruncated
          omittedRuns := rollup.omittedRuns
          omittedRequestCount := originalRequestCount - retainedRequestCount
          runs := rollup.runs })
  else if originalRequestCount > aggregated.length then
    let rollup := aggregateRunRollup sources cap
    (aggregated,
      some
        { originalRequestCount
          retainedRequestCount := aggregated.length
          collapsedRuns := rollup.collapsedRuns
          totalRuns := rollup.totalRuns
          retainedTruncated := false
          omittedRuns := rollup.omittedRuns
          omittedRequestCount := originalRequestCount - aggregated.length
          runs := rollup.runs })
  else (aggregated, none)

theorem length_flatMap_taggedRequests (sources : List DiagnosticsContext) :
    (sources.flatMap taggedRequests).length = (sources.map (·.requests.length)).sum := by
  simp [List.length_flatMap, taggedRequests]

theorem length_flatMap_taggedRequests_le (sources : List DiagnosticsContext) :
    (sources.flatMap taggedRequests).length ≤ (sources.map requestCount).sum := by
  rw [length_flatMap_taggedRequests]
  exact List.sum_le_sum fun source _ => source.length_le_requestCount

theorem aggregatedRequests_cases (sources : List DiagnosticsContext) (cap : Nat) :
    (cap < (sources.flatMap taggedRequests).length ∧
        (aggregatedRequests sources cap).1 = (compactRequests (sources.flatMap taggedRequests) cap).retained ∧
        (aggregatedRequests sources cap).2.map (·.originalRequestCount) = some (sources.map requestCount).sum) ∨
      ((sources.flatMap taggedRequests).length ≤ cap ∧
        (sources.flatMap taggedRequests).length < (sources.map requestCount).sum ∧
        (aggregatedRequests sources cap).1 = sources.flatMap taggedRequests ∧
        (aggregatedRequests sources cap).2.map (·.originalRequestCount) = some (sources.map requestCount).sum) ∨
      ((sources.flatMap taggedRequests).length ≤ cap ∧
        (sources.map requestCount).sum ≤ (sources.flatMap taggedRequests).length ∧
        aggregatedRequests sources cap = (sources.flatMap taggedRequests, none)) := by
  by_cases excess : (sources.flatMap taggedRequests).length > cap
  · left
    simp only [aggregatedRequests]
    rw [if_pos excess]
    exact ⟨excess, rfl, rfl⟩
  · by_cases undercounted : (sources.map requestCount).sum > (sources.flatMap taggedRequests).length
    · right
      left
      simp only [aggregatedRequests]
      rw [if_neg excess, if_pos undercounted]
      exact ⟨by omega, undercounted, rfl, rfl⟩
    · right
      right
      simp only [aggregatedRequests]
      rw [if_neg excess, if_neg undercounted]
      exact ⟨by omega, by omega, rfl⟩

theorem aggregatedRequests_counted (sources : List DiagnosticsContext) (cap : Nat) (positive : 1 ≤ cap) :
    ∀ info ∈ (aggregatedRequests sources cap).2,
      (aggregatedRequests sources cap).1.length ≤ info.originalRequestCount := by
  intro info marked
  rw [Option.mem_def] at marked
  have joined := length_flatMap_taggedRequests_le sources
  rcases aggregatedRequests_cases sources cap with ⟨excess, records, marker⟩ | ⟨-, under, records, marker⟩ |
    ⟨-, -, verbatim⟩
  · -- compacted: at most the cap, which the joined records exceed
    have bounded := compactRequests_retained_le (sources.flatMap taggedRequests) cap
    rw [marked, Option.map_some, Option.some.injEq] at marker
    rw [records, marker]
    omega
  · rw [marked, Option.map_some, Option.some.injEq] at marker
    rw [records, marker]
    exact le_of_lt under
  · simp [verbatim] at marked

/-- `DiagnosticsContext::aggregate_sub_operations`; `None` only for no sources. -/
def aggregateSubOperations (sources : List DiagnosticsContext) : Option DiagnosticsContext :=
  match sources.getLast? with
  | none => none
  | some last =>
      let cap := last.options.maxRequestDiagnostics
      some
        { activityId := last.activityId
          duration := (sources.map (·.duration)).foldl saturatingAdd 0
          requests := (aggregatedRequests sources cap).1
          totalRequestCharge := RequestCharge.sum (sources.map (·.totalRequestCharge))
          regionsContacted := (sources.flatMap (·.regionsContacted)).foldl pushNew []
          status := last.status
          options := last.options
          machineId := last.machineId
          operationName := last.operationName
          faultInjectionEnabled := sources.any (·.faultInjectionEnabled)
          compaction := (aggregatedRequests sources cap).2
          counted := aggregatedRequests_counted sources cap
            (Nat.le_trans (by decide) last.options.atLeastMinimum) }

/-! ## Every attempt is counted -/

section Finalization

variable (builder : DiagnosticsContextBuilder) (elapsed : Nat)

theorem requestCount_complete : (builder.complete elapsed).requestCount = builder.requests.length := by
  simp only [requestCount, DiagnosticsContextBuilder.complete]
  rcases finalizedRequests_cases builder.requests builder.options.maxRequestDiagnostics with
    ⟨-, -, found, marker, original, -, -⟩ | ⟨-, verbatim⟩
  · rw [marker, Option.map_some, Option.getD_some, original]
  · simp only [verbatim, Option.map_none, Option.getD_none]

theorem complete_within_cap :
    (builder.complete elapsed).requests.length ≤ builder.options.maxRequestDiagnostics := by
  have room := builder.options.atLeastMinimum
  simp only [DiagnosticsContextBuilder.complete]
  rcases finalizedRequests_cases builder.requests builder.options.maxRequestDiagnostics with
    ⟨-, records, -⟩ | ⟨fits, verbatim⟩
  · have bounded := compactRequests_retained_le builder.requests builder.options.maxRequestDiagnostics
    rw [records]
    omega
  · simp only [verbatim]
    exact fits

theorem complete_accounts :
    ∀ info ∈ (builder.complete elapsed).compaction,
      (info.runs.map (·.count)).sum + info.omittedRequestCount = info.originalRequestCount := by
  intro info marked
  simp only [DiagnosticsContextBuilder.complete] at marked
  rcases finalizedRequests_cases builder.requests builder.options.maxRequestDiagnostics with
    ⟨-, -, found, marker, original, rows, omitted⟩ | ⟨-, verbatim⟩
  · rw [marker, Option.mem_def, Option.some.injEq] at marked
    subst marked
    rw [rows, omitted, original]
    exact compactRequests_accounts builder.requests _
  · simp [verbatim] at marked

theorem complete_ends :
    (builder.complete elapsed).requests.head? = builder.requests.head? ∧
      (builder.complete elapsed).requests.getLast? = builder.requests.getLast? := by
  have room : 2 ≤ builder.options.maxRequestDiagnostics := Nat.le_trans (by decide) builder.options.atLeastMinimum
  simp only [DiagnosticsContextBuilder.complete]
  rcases finalizedRequests_cases builder.requests builder.options.maxRequestDiagnostics with
    ⟨-, records, -⟩ | ⟨-, verbatim⟩
  · rw [records]
    exact compactRequests_ends builder.requests _ room
  · simp only [verbatim, and_self]

end Finalization

section Aggregation

variable (sources : List DiagnosticsContext) (cap : Nat)

theorem count_aggregatedRequests :
    ((aggregatedRequests sources cap).2.map (·.originalRequestCount)).getD (aggregatedRequests sources cap).1.length =
      (sources.map requestCount).sum := by
  rcases aggregatedRequests_cases sources cap with ⟨-, -, marker⟩ | ⟨-, -, -, marker⟩ | ⟨-, exact, verbatim⟩
  · rw [marker, Option.getD_some]
  · rw [marker, Option.getD_some]
  · -- verbatim: the records fit, and they never outnumber the attempts
    have joined := length_flatMap_taggedRequests_le sources
    simp only [verbatim, Option.map_none, Option.getD_none]
    omega

theorem aggregatedRequests_within_cap (positive : 1 ≤ cap) :
    (aggregatedRequests sources cap).1.length ≤ cap := by
  rcases aggregatedRequests_cases sources cap with ⟨-, records, -⟩ | ⟨fits, -, records, -⟩ | ⟨fits, -, verbatim⟩
  · have bounded := compactRequests_retained_le (sources.flatMap taggedRequests) cap
    rw [records]
    omega
  · rw [records]
    exact fits
  · simp only [verbatim]
    exact fits

theorem aggregatedRequests_verbatim (verbatim : (aggregatedRequests sources cap).2 = none) :
    (aggregatedRequests sources cap).1 = sources.flatMap taggedRequests := by
  rcases aggregatedRequests_cases sources cap with ⟨-, -, marker⟩ | ⟨-, -, -, marker⟩ | ⟨-, -, joined⟩
  · simp [verbatim] at marker
  · simp [verbatim] at marker
  · simp only [joined]

end Aggregation

theorem aggregateSubOperations_eq_some {sources : List DiagnosticsContext} {aggregate : DiagnosticsContext}
    (joined : aggregateSubOperations sources = some aggregate) :
    ∃ last, sources.getLast? = some last ∧ aggregate.options = last.options ∧
      aggregate.requests = (aggregatedRequests sources last.options.maxRequestDiagnostics).1 ∧
      aggregate.compaction = (aggregatedRequests sources last.options.maxRequestDiagnostics).2 := by
  unfold aggregateSubOperations at joined
  split at joined
  · simp at joined
  · rename_i last found
    simp only [Option.some.injEq] at joined
    subst joined
    exact ⟨last, found, rfl, rfl, rfl⟩

theorem aggregateSubOperations_of_ne_nil {sources : List DiagnosticsContext} (nonempty : sources ≠ []) :
    ∃ aggregate, aggregateSubOperations sources = some aggregate := by
  unfold aggregateSubOperations
  cases last : sources.getLast? with
  | none => exact absurd (List.getLast?_eq_none_iff.mp last) nonempty
  | some last => exact ⟨_, rfl⟩

theorem requestCount_aggregateSubOperations {sources : List DiagnosticsContext} {aggregate : DiagnosticsContext}
    (joined : aggregateSubOperations sources = some aggregate) :
    aggregate.requestCount = (sources.map requestCount).sum := by
  obtain ⟨last, -, -, records, marker⟩ := aggregateSubOperations_eq_some joined
  rw [requestCount, records, marker]
  exact count_aggregatedRequests sources _

/-! ## What finalization and aggregation guarantee -/

/-- Finalization retains at most `max_request_diagnostics` records, the first and the last
being the operation's first and terminal attempts; it counts every attempt; and when it
compacts, the rollup rows and the omitted count account for every attempt. -/
theorem complete_bounds_and_counts_attempts (builder : DiagnosticsContextBuilder) (elapsed : Nat) :
    (builder.complete elapsed).requests.length ≤ builder.options.maxRequestDiagnostics ∧
      (builder.complete elapsed).requests.head? = builder.requests.head? ∧
      (builder.complete elapsed).requests.getLast? = builder.requests.getLast? ∧
      (builder.complete elapsed).requestCount = builder.requests.length ∧
      ∀ info ∈ (builder.complete elapsed).compaction,
        (info.runs.map (·.count)).sum + info.omittedRequestCount = info.originalRequestCount :=
  ⟨complete_within_cap builder elapsed, (complete_ends builder elapsed).1, (complete_ends builder elapsed).2,
    requestCount_complete builder elapsed, complete_accounts builder elapsed⟩

/-- Aggregating sub-operations gives a context for any sources but none; it counts the
attempts of all of them, retains at most the last source's cap of records, and when it does
not compact, its records are the sources' records in order, each one without an operation
name tagged with its source's. -/
theorem aggregate_sub_operations_counts_every_attempt (sources : List DiagnosticsContext) :
    (sources ≠ [] → ∃ aggregate, aggregateSubOperations sources = some aggregate) ∧
      ∀ aggregate, aggregateSubOperations sources = some aggregate →
        aggregate.requestCount = (sources.map requestCount).sum ∧
          aggregate.requests.length ≤ aggregate.options.maxRequestDiagnostics ∧
          (aggregate.compaction = none → aggregate.requests = sources.flatMap taggedRequests) := by
  refine ⟨fun nonempty => aggregateSubOperations_of_ne_nil nonempty, fun aggregate joined => ?_⟩
  obtain ⟨last, -, options, records, marker⟩ := aggregateSubOperations_eq_some joined
  have positive : 1 ≤ last.options.maxRequestDiagnostics := Nat.le_trans (by decide) last.options.atLeastMinimum
  refine ⟨requestCount_aggregateSubOperations joined, ?_, fun verbatim => ?_⟩
  · rw [records, options]
    exact aggregatedRequests_within_cap sources _ positive
  · rw [records]
    exact aggregatedRequests_verbatim sources _ (marker ▸ verbatim)

def stormSource (n : Nat) : DiagnosticsContext :=
  DiagnosticsContextBuilder.complete
    ⟨"storm", List.replicate n ⟨.retry, none, "gateway", ⟨429, some 3200⟩, 0, 1, some "read"⟩, some ⟨429, some 3200⟩,
      ⟨16, by decide⟩, none, some "read", false⟩ 0

theorem aggregate_sub_operations_of_two_storms :
    [stormSource 9, stormSource 8] ≠ [] ∧
      ∃ aggregate, aggregateSubOperations [stormSource 9, stormSource 8] = some aggregate ∧
        aggregate.requestCount = 17 := by
  have nonempty : [stormSource 9, stormSource 8] ≠ [] := by simp
  obtain ⟨aggregate, joined⟩ := (aggregate_sub_operations_counts_every_attempt _).1 nonempty
  have counted := ((aggregate_sub_operations_counts_every_attempt _).2 aggregate joined).1
  exact ⟨nonempty, aggregate, joined, by rw [counted]; decide +kernel⟩

/-- An aggregate's `omitted_request_count` counts the records it did not retain, not the
attempts of rollup rows it omitted: storms of nine and eight identical attempts aggregate
under the cap of 16 to one rollup row of all 17 attempts and no omitted row, yet report 15
omitted attempts, where finalizing the 17 attempts at once reports none. -/
theorem aggregate_omitted_count_counts_unretained_records :
    ∃ aggregate info, aggregateSubOperations [stormSource 9, stormSource 8] = some aggregate ∧
      aggregate.compaction = some info ∧ info.originalRequestCount = 17 ∧ info.omittedRuns = 0 ∧
      info.runs.map (·.count) = [17] ∧ info.omittedRequestCount = 15 ∧
      (stormSource 17).compaction.map (·.omittedRequestCount) = some 0 := by
  refine ⟨_, _, rfl, rfl, ?_⟩
  decide +kernel

end CosmosDriver.Diagnostics
