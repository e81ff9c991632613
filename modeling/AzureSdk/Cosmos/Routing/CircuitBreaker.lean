import Mathlib

/-!
# The per-partition circuit breaker

`routing_systems.rs` keeps, for each partition key range, an override entry that routes
the partition away from a region that keeps failing. A failure reported for the partition
bumps the entry's counter; once the counter reaches its threshold the entry moves to the
next preferred read endpoint not failed yet. The failback sweep turns an old entry into a
probe candidate, a probe that succeeds removes it, and hedged requests that keep winning
in an alternate region trip a fresh entry.

Endpoints are values of a type `ε` compared by equality, `region` being
`CosmosEndpoint::region`; instants and durations are milliseconds, and a step takes the
clock reading and the failback jitter it would sample. Maps are functions to `Option`.
-/

namespace CosmosDriver.Routing

set_option autoImplicit false

variable {κ ε γ : Type}

inductive HealthStatus where
  | unhealthy
  | probeCandidate
  deriving DecidableEq

structure PartitionFailoverEntry (ε : Type) where
  currentEndpoint : ε
  firstFailedEndpoint : ε
  failedEndpoints : List ε
  readFailureCount : Int
  writeFailureCount : Int
  firstFailureTime : Nat
  lastFailureTime : Nat
  healthStatus : HealthStatus
  failbackJitter : Nat
  deriving DecidableEq

/-- `PartitionFailoverOptions`, durations in milliseconds. -/
structure PartitionFailoverOptions where
  circuitBreakerEnabled : Bool
  circuitBreakerEnabledOverride : Option Bool
  readFailureThreshold : UInt32
  writeFailureThreshold : UInt32
  counterResetWindow : Nat
  partitionUnavailabilityDuration : Nat
  consecutiveHedgeWinThreshold : UInt32

def PartitionFailoverOptions.default : PartitionFailoverOptions :=
  ⟨true, none, 10, 5, 300000, 5000, 5⟩

structure AccountEndpointState (ε : Type) where
  preferredReadEndpoints : List ε
  preferredWriteEndpoints : List ε
  multipleWriteLocationsEnabled : Bool

structure PartitionEndpointState (κ ε γ : Type) where
  failoverOverrides : κ → Option (PartitionFailoverEntry ε)
  circuitBreakerOverrides : κ → Option (PartitionFailoverEntry ε)
  perPartitionAutomaticFailoverEnabled : Bool
  perPartitionCircuitBreakerEnabled : Bool
  consecutiveHedgeWins : κ × Option γ → Option UInt32
  config : PartitionFailoverOptions

/-- `PartitionEndpointState::new`: the incident override wins over the option. -/
def PartitionEndpointState.new (config : PartitionFailoverOptions) : PartitionEndpointState κ ε γ :=
  ⟨fun _ => none, fun _ => none, false, config.circuitBreakerEnabledOverride.getD config.circuitBreakerEnabled,
    fun _ => none, config⟩

structure UnavailablePartition (κ γ : Type) where
  partitionKeyRangeId : Option κ
  region : Option γ
  isRead : Bool
  isPartitionedResource : Bool

def asI32 (value : UInt32) : Int :=
  if value.toNat < 2 ^ 31 then value.toNat else value.toNat - 2 ^ 32

def isEligibleForPpaf (partitionState : PartitionEndpointState κ ε γ) (accountState : AccountEndpointState ε)
    (isReadOnly isPartitionedResource : Bool) : Bool :=
  partitionState.perPartitionAutomaticFailoverEnabled && isPartitionedResource && !isReadOnly &&
    !accountState.multipleWriteLocationsEnabled && decide (1 < accountState.preferredReadEndpoints.length)

def isEligibleForPpcb (partitionState : PartitionEndpointState κ ε γ) (accountState : AccountEndpointState ε)
    (isReadOnly isPartitionedResource : Bool) : Bool :=
  partitionState.perPartitionCircuitBreakerEnabled && isPartitionedResource &&
    (isReadOnly || accountState.multipleWriteLocationsEnabled) &&
    decide (1 < accountState.preferredReadEndpoints.length)

def canCircuitBreakerTriggerFailover (entry : PartitionFailoverEntry ε) (isReadOnly : Bool)
    (config : PartitionFailoverOptions) : Bool :=
  if isReadOnly then decide (asI32 config.readFailureThreshold ≤ entry.readFailureCount)
  else decide (asI32 config.writeFailureThreshold ≤ entry.writeFailureCount)

section Systems

variable [DecidableEq κ] [DecidableEq ε] [DecidableEq γ] (region : ε → Option γ)

def endpointOf (accountState : AccountEndpointState ε) (r : γ) : Option ε :=
  (accountState.preferredReadEndpoints ++ accountState.preferredWriteEndpoints).find? fun e => region e == some r

/-- `try_move_next_endpoint`: whether the entry moved, and the entry. -/
def tryMoveNextEndpoint (entry : PartitionFailoverEntry ε) (nextEndpoints : List ε) (failedEndpoint : ε) :
    Bool × PartitionFailoverEntry ε :=
  let entry := { entry with failedEndpoints := entry.failedEndpoints.insert failedEndpoint }
  -- a report for an endpoint other than the current one is taken as a concurrent move
  if failedEndpoint ≠ entry.currentEndpoint then (true, entry)
  else
    match nextEndpoints.find? fun candidate => candidate ≠ entry.currentEndpoint ∧ candidate ∉ entry.failedEndpoints with
    | some candidate => (true, { entry with currentEndpoint := candidate })
    | none => (false, entry)

/-- The entry `or_insert_with` installs for a first failure. -/
def PartitionFailoverEntry.fresh (endpoint : ε) (now failbackJitter : Nat) : PartitionFailoverEntry ε :=
  ⟨endpoint, endpoint, [], 0, 0, now, now, .unhealthy, failbackJitter⟩

/-- The counting part of the circuit-breaker branch: the counters are reset once the
reset window has elapsed since the last failure, then the failure is counted. -/
def countFailure (config : PartitionFailoverOptions) (entry : PartitionFailoverEntry ε) (isRead : Bool) (now : Nat) :
    PartitionFailoverEntry ε :=
  let entry := if config.counterResetWindow < now - entry.lastFailureTime then
      { entry with readFailureCount := 0, writeFailureCount := 0 }
    else entry
  let entry := if isRead then { entry with readFailureCount := entry.readFailureCount + 1 }
    else { entry with writeFailureCount := entry.writeFailureCount + 1 }
  { entry with lastFailureTime := now }

/-- The circuit-breaker branch of `mark_partition_unavailable` on the partition's entry:
the entry it leaves, `none` once every endpoint is exhausted and the entry is removed. -/
def circuitBreakerFailure (config : PartitionFailoverOptions) (entry : PartitionFailoverEntry ε) (isRead : Bool)
    (failedEndpoint : ε) (nextEndpoints : List ε) (now failbackJitter : Nat) : Option (PartitionFailoverEntry ε) :=
  if entry.healthStatus = .probeCandidate then
    some { entry with
      healthStatus := .unhealthy
      readFailureCount := 0
      writeFailureCount := 0
      currentEndpoint := entry.firstFailedEndpoint
      failedEndpoints := []
      firstFailureTime := now
      lastFailureTime := now
      failbackJitter := failbackJitter }
  else
    let entry := countFailure config entry isRead now
    if !canCircuitBreakerTriggerFailover entry isRead config then some entry
    else
      match tryMoveNextEndpoint entry nextEndpoints failedEndpoint with
      | (true, entry) => some entry
      | (false, _) => none

def automaticFailover (entry : PartitionFailoverEntry ε) (failedEndpoint : ε) (nextEndpoints : List ε) (now : Nat) :
    Option (PartitionFailoverEntry ε) :=
  match tryMoveNextEndpoint { entry with lastFailureTime := now } nextEndpoints failedEndpoint with
  | (true, entry) => some entry
  | (false, _) => none

def markPartitionUnavailable (currentState : PartitionEndpointState κ ε γ) (accountState : AccountEndpointState ε)
    (unavail : UnavailablePartition κ γ) (isPartitionedResource : Bool) (now failbackJitter : Nat) :
    PartitionEndpointState κ ε γ :=
  match unavail.partitionKeyRangeId, unavail.region.bind (endpointOf region accountState) with
  | some pkRangeId, some failedEndpoint =>
      let nextEndpoints := accountState.preferredReadEndpoints
      if isEligibleForPpcb currentState accountState unavail.isRead isPartitionedResource then
        let entry := (currentState.circuitBreakerOverrides pkRangeId).getD (.fresh failedEndpoint now failbackJitter)
        { currentState with
          circuitBreakerOverrides := Function.update currentState.circuitBreakerOverrides pkRangeId
            (circuitBreakerFailure currentState.config entry unavail.isRead failedEndpoint nextEndpoints now
              failbackJitter) }
      else if isEligibleForPpaf currentState accountState unavail.isRead isPartitionedResource then
        let entry := (currentState.failoverOverrides pkRangeId).getD (.fresh failedEndpoint now 0)
        { currentState with
          failoverOverrides := Function.update currentState.failoverOverrides pkRangeId
            (automaticFailover entry failedEndpoint nextEndpoints now) }
      else currentState
  | _, _ => currentState

def expirePartitionOverrides (state : PartitionEndpointState κ ε γ) (now unavailabilityDuration : Nat) :
    PartitionEndpointState κ ε γ :=
  { state with
    circuitBreakerOverrides := fun pkRangeId => (state.circuitBreakerOverrides pkRangeId).map fun entry =>
      if entry.healthStatus = .unhealthy ∧ unavailabilityDuration + entry.failbackJitter ≤ now - entry.firstFailureTime
      then { entry with healthStatus := .probeCandidate }
      else entry }

def removeProbeSucceededEntry (state : PartitionEndpointState κ ε γ) (partitionKeyRangeId : κ) :
    PartitionEndpointState κ ε γ :=
  { state with circuitBreakerOverrides := Function.update state.circuitBreakerOverrides partitionKeyRangeId none }

def recordHedgeAlternateWin (state : PartitionEndpointState κ ε γ) (accountState : AccountEndpointState ε)
    (partitionKeyRangeId : κ) (primaryRegion : Option γ) (now failbackJitter : Nat) : PartitionEndpointState κ ε γ :=
  let key := (partitionKeyRangeId, primaryRegion)
  let count := (state.consecutiveHedgeWins key).getD 0
  let count := if count = 4294967295 then count else count + 1
  let newState := { state with consecutiveHedgeWins := Function.update state.consecutiveHedgeWins key (some count) }
  if count < state.config.consecutiveHedgeWinThreshold then newState
  -- an active trip keeps its richer state; a probe candidate is tripped afresh
  else if (newState.circuitBreakerOverrides partitionKeyRangeId).map (·.healthStatus) = some .unhealthy then
    { newState with consecutiveHedgeWins := Function.update newState.consecutiveHedgeWins key none }
  else
    match primaryRegion.bind (endpointOf region accountState) with
    | none => newState
    | some primaryEndpoint =>
        let entry : PartitionFailoverEntry ε :=
          ⟨primaryEndpoint, primaryEndpoint, [], asI32 state.config.readFailureThreshold,
            asI32 state.config.writeFailureThreshold, now, now, .unhealthy, failbackJitter⟩
        match tryMoveNextEndpoint entry accountState.preferredReadEndpoints primaryEndpoint with
        | (false, _) => newState
        | (true, entry) =>
            { newState with
              consecutiveHedgeWins := Function.update newState.consecutiveHedgeWins key none
              circuitBreakerOverrides := Function.update newState.circuitBreakerOverrides partitionKeyRangeId
                (some entry) }

def recordHedgePrimaryWin (state : PartitionEndpointState κ ε γ) (partitionKeyRangeId : κ)
    (primaryRegion : Option γ) : PartitionEndpointState κ ε γ :=
  let key := (partitionKeyRangeId, primaryRegion)
  match state.consecutiveHedgeWins key with
  | none => state
  | some _ => { state with consecutiveHedgeWins := Function.update state.consecutiveHedgeWins key none }

/-- The circuit-breaker part of `resolve_endpoint` once PPCB applies to the request: a probe
goes to the first failed endpoint and a tripped entry to its current one, each unless the
operation already failed there. -/
def circuitBreakerRouting (entry : PartitionFailoverEntry ε) (isRead : Bool) (config : PartitionFailoverOptions)
    (ppcbShouldSkip : ε → Bool) : Option ε :=
  if entry.healthStatus = .probeCandidate ∧ ppcbShouldSkip entry.firstFailedEndpoint = false then
    some entry.firstFailedEndpoint
  else if canCircuitBreakerTriggerFailover entry isRead config = true ∧ ppcbShouldSkip entry.currentEndpoint = false then
    some entry.currentEndpoint
  else none

inductive Step (κ γ : Type) where
  | markPartitionUnavailable (unavail : UnavailablePartition κ γ) (isPartitionedResource : Bool) (now failbackJitter : Nat)
  | expirePartitionOverrides (now unavailabilityDuration : Nat)
  | removeProbeSucceededEntry (partitionKeyRangeId : κ)
  | recordHedgeAlternateWin (partitionKeyRangeId : κ) (primaryRegion : Option γ) (now failbackJitter : Nat)
  | recordHedgePrimaryWin (partitionKeyRangeId : κ) (primaryRegion : Option γ)

def step (accountState : AccountEndpointState ε) (state : PartitionEndpointState κ ε γ) :
    Step κ γ → PartitionEndpointState κ ε γ
  | .markPartitionUnavailable unavail isPartitionedResource now failbackJitter =>
      markPartitionUnavailable region state accountState unavail isPartitionedResource now failbackJitter
  | .expirePartitionOverrides now unavailabilityDuration => expirePartitionOverrides state now unavailabilityDuration
  | .removeProbeSucceededEntry partitionKeyRangeId => removeProbeSucceededEntry state partitionKeyRangeId
  | .recordHedgeAlternateWin partitionKeyRangeId primaryRegion now failbackJitter =>
      recordHedgeAlternateWin region state accountState partitionKeyRangeId primaryRegion now failbackJitter
  | .recordHedgePrimaryWin partitionKeyRangeId primaryRegion =>
      recordHedgePrimaryWin state partitionKeyRangeId primaryRegion

def run (accountState : AccountEndpointState ε) (state : PartitionEndpointState κ ε γ) (steps : List (Step κ γ)) :
    PartitionEndpointState κ ε γ :=
  steps.foldl (step region accountState) state

/-! ## What every entry keeps -/

/-- What every circuit-breaker entry keeps: its current endpoint is not among those that
failed, the endpoint that first failed is one of the account's, and an entry that has
moved routes to a preferred read endpoint. -/
structure EntryWellFormed (accountState : AccountEndpointState ε) (entry : PartitionFailoverEntry ε) : Prop where
  currentNotFailed : entry.currentEndpoint ∉ entry.failedEndpoints
  firstFailedKnown : entry.firstFailedEndpoint ∈ accountState.preferredReadEndpoints ++ accountState.preferredWriteEndpoints
  movedToRead : entry.currentEndpoint ≠ entry.firstFailedEndpoint → entry.currentEndpoint ∈ accountState.preferredReadEndpoints

omit [DecidableEq ε] in
theorem EntryWellFormed.congr {accountState : AccountEndpointState ε} {entry entry' : PartitionFailoverEntry ε}
    (formed : EntryWellFormed accountState entry) (current : entry'.currentEndpoint = entry.currentEndpoint)
    (first : entry'.firstFailedEndpoint = entry.firstFailedEndpoint)
    (failed : entry'.failedEndpoints = entry.failedEndpoints) : EntryWellFormed accountState entry' := by
  rcases formed with ⟨notFailed, known, moved⟩
  exact ⟨by rw [current, failed]; exact notFailed, by rw [first]; exact known,
    by rw [current, first]; exact moved⟩

omit [DecidableEq ε] in
theorem fresh_wellFormed {accountState : AccountEndpointState ε} {endpoint : ε}
    (known : endpoint ∈ accountState.preferredReadEndpoints ++ accountState.preferredWriteEndpoints) (now failbackJitter : Nat) :
    EntryWellFormed accountState (.fresh endpoint now failbackJitter) :=
  ⟨List.not_mem_nil, known, fun moved => absurd rfl moved⟩

omit [DecidableEq κ] [DecidableEq ε] in
theorem endpointOf_mem {accountState : AccountEndpointState ε} {r : γ} {endpoint : ε}
    (found : endpointOf region accountState r = some endpoint) :
    endpoint ∈ accountState.preferredReadEndpoints ++ accountState.preferredWriteEndpoints :=
  List.mem_of_find?_eq_some found

omit [DecidableEq κ] [DecidableEq γ] in
theorem tryMoveNextEndpoint_elsewhere {entry : PartitionFailoverEntry ε} {failedEndpoint : ε} (nextEndpoints : List ε)
    (elsewhere : failedEndpoint ≠ entry.currentEndpoint) :
    tryMoveNextEndpoint entry nextEndpoints failedEndpoint =
      (true, { entry with failedEndpoints := entry.failedEndpoints.insert failedEndpoint }) := by
  simp [tryMoveNextEndpoint, elsewhere]

omit [DecidableEq κ] [DecidableEq γ] in
theorem tryMoveNextEndpoint_moved {entry : PartitionFailoverEntry ε} {nextEndpoints : List ε} {failedEndpoint : ε}
    (moved : (tryMoveNextEndpoint entry nextEndpoints failedEndpoint).1 = true) :
    (failedEndpoint ≠ entry.currentEndpoint ∧ (tryMoveNextEndpoint entry nextEndpoints failedEndpoint).2 =
        { entry with failedEndpoints := entry.failedEndpoints.insert failedEndpoint }) ∨
      ∃ candidate ∈ nextEndpoints, candidate ∉ entry.failedEndpoints.insert failedEndpoint ∧
        (tryMoveNextEndpoint entry nextEndpoints failedEndpoint).2 =
          { entry with failedEndpoints := entry.failedEndpoints.insert failedEndpoint, currentEndpoint := candidate } := by
  by_cases elsewhere : failedEndpoint ≠ entry.currentEndpoint
  · exact .inl ⟨elsewhere, by rw [tryMoveNextEndpoint_elsewhere nextEndpoints elsewhere]⟩
  · right
    unfold tryMoveNextEndpoint at moved ⊢
    rw [if_neg elsewhere] at moved ⊢
    split at moved
    · rename_i candidate found
      have picked := List.find?_some found
      simp only [decide_eq_true_eq] at picked
      exact ⟨candidate, List.mem_of_find?_eq_some found, picked.2, rfl⟩
    · simp at moved

omit [DecidableEq κ] [DecidableEq γ] in
theorem tryMoveNextEndpoint_wellFormed {accountState : AccountEndpointState ε} {entry : PartitionFailoverEntry ε}
    {failedEndpoint : ε} (formed : EntryWellFormed accountState entry)
    (moved : (tryMoveNextEndpoint entry accountState.preferredReadEndpoints failedEndpoint).1 = true) :
    EntryWellFormed accountState (tryMoveNextEndpoint entry accountState.preferredReadEndpoints failedEndpoint).2 := by
  rcases tryMoveNextEndpoint_moved moved with ⟨elsewhere, stays⟩ | ⟨candidate, offered, unfailed, takes⟩
  · rw [stays]
    refine ⟨?_, formed.firstFailedKnown, formed.movedToRead⟩
    simp [List.mem_insert_iff, Ne.symm elsewhere, formed.currentNotFailed]
  · rw [takes]
    exact ⟨unfailed, formed.firstFailedKnown, fun _ => offered⟩

/-! ## Counting a failure -/

section Counting

variable {config : PartitionFailoverOptions} {entry : PartitionFailoverEntry ε} {isRead : Bool} {now : Nat}

omit [DecidableEq ε] in
@[simp]
theorem countFailure_currentEndpoint : (countFailure config entry isRead now).currentEndpoint = entry.currentEndpoint := by
  unfold countFailure; split_ifs <;> rfl

omit [DecidableEq ε] in
@[simp]
theorem countFailure_firstFailedEndpoint :
    (countFailure config entry isRead now).firstFailedEndpoint = entry.firstFailedEndpoint := by
  unfold countFailure; split_ifs <;> rfl

omit [DecidableEq ε] in
@[simp]
theorem countFailure_failedEndpoints :
    (countFailure config entry isRead now).failedEndpoints = entry.failedEndpoints := by
  unfold countFailure; split_ifs <;> rfl

omit [DecidableEq ε] in
theorem countFailure_read_again (again : entry.lastFailureTime = now) :
    countFailure config entry true now = { entry with readFailureCount := entry.readFailureCount + 1 } := by
  have within : ¬config.counterResetWindow < now - entry.lastFailureTime := by omega
  simp only [countFailure, if_neg within, if_true]
  rw [← again]

theorem circuitBreakerFailure_of_unhealthy {failedEndpoint : ε} {nextEndpoints : List ε} {failbackJitter : Nat}
    (notProbe : entry.healthStatus ≠ .probeCandidate) :
    circuitBreakerFailure config entry isRead failedEndpoint nextEndpoints now failbackJitter =
      if !canCircuitBreakerTriggerFailover (countFailure config entry isRead now) isRead config then
        some (countFailure config entry isRead now)
      else
        match tryMoveNextEndpoint (countFailure config entry isRead now) nextEndpoints failedEndpoint with
        | (true, entry) => some entry
        | (false, _) => none := by
  rw [circuitBreakerFailure, if_neg notProbe]

theorem circuitBreakerFailure_counts {failedEndpoint : ε} {nextEndpoints : List ε} {failbackJitter : Nat}
    (unhealthy : entry.healthStatus = .unhealthy) (again : entry.lastFailureTime = now)
    (below : entry.readFailureCount + 1 < asI32 config.readFailureThreshold) :
    circuitBreakerFailure config entry true failedEndpoint nextEndpoints now failbackJitter =
      some { entry with readFailureCount := entry.readFailureCount + 1 } := by
  have untripped : canCircuitBreakerTriggerFailover { entry with readFailureCount := entry.readFailureCount + 1 } true
      config = false := by
    simp [canCircuitBreakerTriggerFailover, below]
  rw [circuitBreakerFailure_of_unhealthy (by rw [unhealthy]; decide), countFailure_read_again again, untripped]
  rfl

theorem circuitBreakerFailure_trips_elsewhere {failedEndpoint : ε} {nextEndpoints : List ε} {failbackJitter : Nat}
    (unhealthy : entry.healthStatus = .unhealthy) (again : entry.lastFailureTime = now)
    (reached : asI32 config.readFailureThreshold ≤ entry.readFailureCount + 1)
    (elsewhere : failedEndpoint ≠ entry.currentEndpoint) :
    circuitBreakerFailure config entry true failedEndpoint nextEndpoints now failbackJitter =
      some { entry with
        readFailureCount := entry.readFailureCount + 1
        failedEndpoints := entry.failedEndpoints.insert failedEndpoint } := by
  have tripped : canCircuitBreakerTriggerFailover { entry with readFailureCount := entry.readFailureCount + 1 } true
      config = true := by
    simp [canCircuitBreakerTriggerFailover, reached]
  have stays : tryMoveNextEndpoint { entry with readFailureCount := entry.readFailureCount + 1 } nextEndpoints
      failedEndpoint = (true, { entry with
        readFailureCount := entry.readFailureCount + 1
        failedEndpoints := entry.failedEndpoints.insert failedEndpoint }) :=
    tryMoveNextEndpoint_elsewhere nextEndpoints elsewhere
  rw [circuitBreakerFailure_of_unhealthy (by rw [unhealthy]; decide), countFailure_read_again again, tripped, stays]
  rfl

end Counting

/-! ## The invariant over the partition state -/

def OverridesWellFormed (accountState : AccountEndpointState ε) (overrides : κ → Option (PartitionFailoverEntry ε)) :
    Prop :=
  ∀ pkRangeId entry, overrides pkRangeId = some entry → EntryWellFormed accountState entry

section Invariant

variable {accountState : AccountEndpointState ε}

omit [DecidableEq ε] [DecidableEq γ] in
theorem OverridesWellFormed.update {overrides : κ → Option (PartitionFailoverEntry ε)}
    (formed : OverridesWellFormed accountState overrides) (pkRangeId : κ) {value : Option (PartitionFailoverEntry ε)}
    (valueFormed : ∀ entry, value = some entry → EntryWellFormed accountState entry) :
    OverridesWellFormed accountState (Function.update overrides pkRangeId value) := by
  intro pk entry found
  by_cases same : pk = pkRangeId
  · subst same
    rw [Function.update_self] at found
    exact valueFormed entry found
  · rw [Function.update_of_ne same] at found
    exact formed pk entry found

omit [DecidableEq κ] [DecidableEq γ] in
theorem circuitBreakerFailure_wellFormed {config : PartitionFailoverOptions} {entry entry' : PartitionFailoverEntry ε}
    {isRead : Bool} {failedEndpoint : ε} {now failbackJitter : Nat} (formed : EntryWellFormed accountState entry)
    (kept : circuitBreakerFailure config entry isRead failedEndpoint accountState.preferredReadEndpoints now
      failbackJitter = some entry') :
    EntryWellFormed accountState entry' := by
  have counted : EntryWellFormed accountState (countFailure config entry isRead now) :=
    formed.congr (by simp) (by simp) (by simp)
  by_cases probe : entry.healthStatus = .probeCandidate
  · -- a failed probe sends the entry back to the endpoint that first failed
    rw [circuitBreakerFailure, if_pos probe] at kept
    cases kept
    exact ⟨List.not_mem_nil, formed.firstFailedKnown, fun moved => absurd rfl moved⟩
  rw [circuitBreakerFailure_of_unhealthy probe] at kept
  split_ifs at kept
  · cases kept
    exact counted
  · split at kept
    · rename_i moved
      cases kept
      have formedMove := tryMoveNextEndpoint_wellFormed counted (by rw [moved])
      rwa [moved] at formedMove
    · cases kept

theorem markPartitionUnavailable_wellFormed {currentState : PartitionEndpointState κ ε γ}
    {unavail : UnavailablePartition κ γ} {isPartitionedResource : Bool} {now failbackJitter : Nat}
    (formed : OverridesWellFormed accountState currentState.circuitBreakerOverrides) :
    OverridesWellFormed accountState
      (markPartitionUnavailable region currentState accountState unavail isPartitionedResource now
        failbackJitter).circuitBreakerOverrides := by
  unfold markPartitionUnavailable
  split
  · rename_i pkRangeId failedEndpoint _ found
    obtain ⟨r, -, located⟩ := Option.bind_eq_some_iff.mp found
    split_ifs
    · -- the entry the failure is counted on: the partition's own, or a fresh one at the failed endpoint
      have start : EntryWellFormed accountState
          ((currentState.circuitBreakerOverrides pkRangeId).getD (.fresh failedEndpoint now failbackJitter)) := by
        cases present : currentState.circuitBreakerOverrides pkRangeId with
        | none => exact fresh_wellFormed (endpointOf_mem region located) now failbackJitter
        | some entry => exact formed pkRangeId entry present
      exact formed.update pkRangeId fun _ kept => circuitBreakerFailure_wellFormed start kept
    · exact formed
    · exact formed
  · exact formed

omit [DecidableEq κ] [DecidableEq ε] [DecidableEq γ] in
theorem expirePartitionOverrides_wellFormed {state : PartitionEndpointState κ ε γ} {now unavailabilityDuration : Nat}
    (formed : OverridesWellFormed accountState state.circuitBreakerOverrides) :
    OverridesWellFormed accountState (expirePartitionOverrides state now unavailabilityDuration).circuitBreakerOverrides := by
  intro pkRangeId entry found
  obtain ⟨old, present, aged⟩ := Option.map_eq_some_iff.mp found
  have formedOld := formed pkRangeId old present
  rw [← aged]
  split_ifs
  · exact formedOld.congr rfl rfl rfl
  · exact formedOld

omit [DecidableEq ε] [DecidableEq γ] in
theorem removeProbeSucceededEntry_wellFormed {state : PartitionEndpointState κ ε γ} {pkRangeId : κ}
    (formed : OverridesWellFormed accountState state.circuitBreakerOverrides) :
    OverridesWellFormed accountState (removeProbeSucceededEntry state pkRangeId).circuitBreakerOverrides :=
  formed.update pkRangeId fun _ absent => nomatch absent

theorem recordHedgeAlternateWin_wellFormed {state : PartitionEndpointState κ ε γ} {pkRangeId : κ}
    {primaryRegion : Option γ} {now failbackJitter : Nat}
    (formed : OverridesWellFormed accountState state.circuitBreakerOverrides) :
    OverridesWellFormed accountState
      (recordHedgeAlternateWin region state accountState pkRangeId primaryRegion now failbackJitter).circuitBreakerOverrides := by
  unfold recordHedgeAlternateWin
  extract_lets key count saturated newState
  split_ifs
  · exact formed
  · exact formed
  · split
    · exact formed
    · rename_i primaryEndpoint found
      obtain ⟨r, -, located⟩ := Option.bind_eq_some_iff.mp found
      -- the tripped entry starts at the primary endpoint and must move off it
      extract_lets seededEntry
      have seeded : EntryWellFormed accountState seededEntry :=
        ⟨List.not_mem_nil, endpointOf_mem region located, fun moved => absurd rfl moved⟩
      split
      · exact formed
      · rename_i entry moved
        have formedMove := tryMoveNextEndpoint_wellFormed seeded (by rw [moved])
        rw [moved] at formedMove
        exact formed.update pkRangeId fun _ installed => Option.some_injective _ installed ▸ formedMove

theorem step_wellFormed {state : PartitionEndpointState κ ε γ}
    (formed : OverridesWellFormed accountState state.circuitBreakerOverrides) :
    ∀ s : Step κ γ, OverridesWellFormed accountState (step region accountState state s).circuitBreakerOverrides
  | .markPartitionUnavailable .. => markPartitionUnavailable_wellFormed region formed
  | .expirePartitionOverrides .. => expirePartitionOverrides_wellFormed formed
  | .removeProbeSucceededEntry .. => removeProbeSucceededEntry_wellFormed formed
  | .recordHedgeAlternateWin .. => recordHedgeAlternateWin_wellFormed region formed
  | .recordHedgePrimaryWin pkRangeId primaryRegion => by
      simp only [step, recordHedgePrimaryWin]
      split
      · exact formed
      · exact formed

@[simp]
theorem run_nil (state : PartitionEndpointState κ ε γ) : run region accountState state [] = state := rfl

@[simp]
theorem run_cons (state : PartitionEndpointState κ ε γ) (s : Step κ γ) (steps : List (Step κ γ)) :
    run region accountState state (s :: steps) = run region accountState (step region accountState state s) steps := rfl

theorem run_append (state : PartitionEndpointState κ ε γ) (steps more : List (Step κ γ)) :
    run region accountState state (steps ++ more) = run region accountState (run region accountState state steps) more :=
  List.foldl_append

omit [DecidableEq κ] [DecidableEq ε] [DecidableEq γ] in
theorem overridesWellFormed_new (config : PartitionFailoverOptions) :
    OverridesWellFormed accountState (PartitionEndpointState.new config : PartitionEndpointState κ ε γ).circuitBreakerOverrides :=
  fun _ _ absent => nomatch absent

theorem run_wellFormed (steps : List (Step κ γ)) :
    ∀ {state : PartitionEndpointState κ ε γ}, OverridesWellFormed accountState state.circuitBreakerOverrides →
      OverridesWellFormed accountState (run region accountState state steps).circuitBreakerOverrides := by
  induction steps with
  | nil => exact fun formed => formed
  | cons s steps induction => exact fun formed => induction (step_wellFormed region formed s)

end Invariant

/-- Whatever operations run from the initial state, every circuit-breaker entry keeps its
current endpoint out of the endpoints that failed for it, has one of the account's
endpoints as the one that first failed, and routes to a preferred read endpoint once it
has moved off that one. -/
theorem circuit_breaker_entries_stay_well_formed (accountState : AccountEndpointState ε)
    (config : PartitionFailoverOptions) (steps : List (Step κ γ)) (pkRangeId : κ) (entry : PartitionFailoverEntry ε)
    (found : (run region accountState (.new config) steps).circuitBreakerOverrides pkRangeId = some entry) :
    entry.currentEndpoint ∉ entry.failedEndpoints ∧
      entry.firstFailedEndpoint ∈ accountState.preferredReadEndpoints ++ accountState.preferredWriteEndpoints ∧
      (entry.currentEndpoint ≠ entry.firstFailedEndpoint →
        entry.currentEndpoint ∈ accountState.preferredReadEndpoints) := by
  have formed := run_wellFormed region steps (overridesWellFormed_new config) pkRangeId entry found
  exact ⟨formed.currentNotFailed, formed.firstFailedKnown, formed.movedToRead⟩

/-! ## Read failures reported for two regions -/

def readFailure (pkRangeId : κ) (r : γ) (now failbackJitter : Nat) : Step κ γ :=
  .markPartitionUnavailable ⟨some pkRangeId, some r, true, true⟩ true now failbackJitter

section ReadFailures

variable {accountState : AccountEndpointState ε} {pkRangeId : κ} {now : Nat}

theorem step_readFailure {state : PartitionEndpointState κ ε γ} {r : γ} {failedEndpoint : ε} {failbackJitter : Nat}
    (enabled : state.perPartitionCircuitBreakerEnabled = true) (several : 1 < accountState.preferredReadEndpoints.length)
    (found : endpointOf region accountState r = some failedEndpoint) :
    step region accountState state (readFailure pkRangeId r now failbackJitter) =
      { state with
        circuitBreakerOverrides := Function.update state.circuitBreakerOverrides pkRangeId
          (circuitBreakerFailure state.config
            ((state.circuitBreakerOverrides pkRangeId).getD (.fresh failedEndpoint now failbackJitter)) true
            failedEndpoint accountState.preferredReadEndpoints now failbackJitter) } := by
  have eligible : isEligibleForPpcb state accountState true true = true := by
    simp [isEligibleForPpcb, enabled, several]
  simp only [step, readFailure, markPartitionUnavailable, Option.bind_some, found, eligible, if_true]

theorem run_readFailures_count {r : γ} {failedEndpoint : ε}
    (several : 1 < accountState.preferredReadEndpoints.length)
    (found : endpointOf region accountState r = some failedEndpoint) (failbackJitter k : Nat) :
    ∀ (state : PartitionEndpointState κ ε γ) (entry : PartitionFailoverEntry ε),
      state.perPartitionCircuitBreakerEnabled = true → state.circuitBreakerOverrides pkRangeId = some entry →
      entry.healthStatus = .unhealthy → entry.lastFailureTime = now →
      entry.readFailureCount + k < asI32 state.config.readFailureThreshold →
      let reached := run region accountState state (List.replicate k (readFailure pkRangeId r now failbackJitter))
      reached.circuitBreakerOverrides pkRangeId = some { entry with readFailureCount := entry.readFailureCount + k } ∧
        reached.perPartitionCircuitBreakerEnabled = true ∧ reached.config = state.config := by
  induction k with
  | zero =>
    intro state entry enabled present _ _ _
    exact ⟨by simpa using present, enabled, rfl⟩
  | succ k induction =>
    intro state entry enabled present unhealthy again below
    -- the first of the failures is counted here, the other k by induction
    have notReached : entry.readFailureCount + 1 < asI32 state.config.readFailureThreshold := by
      push_cast at below
      omega
    let afterFirst : PartitionEndpointState κ ε γ := { state with
      circuitBreakerOverrides := Function.update state.circuitBreakerOverrides pkRangeId
        (some { entry with readFailureCount := entry.readFailureCount + 1 }) }
    have first : step region accountState state (readFailure pkRangeId r now failbackJitter) = afterFirst := by
      rw [step_readFailure region enabled several found, present, Option.getD_some,
        circuitBreakerFailure_counts unhealthy again notReached]
    obtain ⟨entryAfter, enabledAfter, configAfter⟩ :=
      induction afterFirst { entry with readFailureCount := entry.readFailureCount + 1 } enabled
        (by simp [afterFirst]) unhealthy again (by push_cast at below; dsimp only [afterFirst]; omega)
    dsimp only
    rw [List.replicate_succ, run_cons, first]
    refine ⟨?_, enabledAfter, configAfter⟩
    rw [entryAfter]
    congr 2
    push_cast
    ring

/-- One read failure at a first region opens the entry there; read failures at a second
region then bring it to its threshold. The last of them finds the entry's current endpoint
different from the one reported and takes it for a move made concurrently, so the tripped
entry never moved: it routes the partition's reads to the first region's endpoint, which
failed, and which need not even be a read endpoint. -/
theorem tripped_breaker_routes_to_failed_endpoint (accountState : AccountEndpointState ε)
    (config : PartitionFailoverOptions) (pkRangeId : κ) (first second : γ) (firstEndpoint secondEndpoint : ε)
    (now failbackJitter : Nat)
    (enabled : config.circuitBreakerEnabledOverride.getD config.circuitBreakerEnabled = true)
    (several : 1 < accountState.preferredReadEndpoints.length)
    (foundFirst : endpointOf region accountState first = some firstEndpoint)
    (foundSecond : endpointOf region accountState second = some secondEndpoint)
    (distinct : secondEndpoint ≠ firstEndpoint)
    (threshold : 2 ≤ config.readFailureThreshold.toNat) (representable : config.readFailureThreshold.toNat < 2 ^ 31) :
    ∃ entry, (run region accountState (.new config)
        (readFailure pkRangeId first now failbackJitter ::
          List.replicate (config.readFailureThreshold.toNat - 1)
            (readFailure pkRangeId second now failbackJitter))).circuitBreakerOverrides pkRangeId = some entry ∧
      entry.healthStatus = .unhealthy ∧ canCircuitBreakerTriggerFailover entry true config = true ∧
      entry.currentEndpoint = firstEndpoint ∧ entry.firstFailedEndpoint = firstEndpoint ∧
      secondEndpoint ∈ entry.failedEndpoints ∧
      circuitBreakerRouting entry true config (fun _ => false) = some firstEndpoint := by
  have cast : asI32 config.readFailureThreshold = config.readFailureThreshold.toNat := by
    rw [asI32, if_pos representable]
  have enabledNew : (PartitionEndpointState.new config : PartitionEndpointState κ ε γ).perPartitionCircuitBreakerEnabled =
      true := enabled
  -- the failure at the first region opens the entry there
  let opened : PartitionFailoverEntry ε :=
    { PartitionFailoverEntry.fresh firstEndpoint now failbackJitter with readFailureCount := 1 }
  have opens : circuitBreakerFailure config (.fresh firstEndpoint now failbackJitter) true firstEndpoint
      accountState.preferredReadEndpoints now failbackJitter = some opened :=
    circuitBreakerFailure_counts rfl rfl (by rw [cast]; simp [PartitionFailoverEntry.fresh]; omega)
  let afterFirst : PartitionEndpointState κ ε γ :=
    { PartitionEndpointState.new config with
      circuitBreakerOverrides := Function.update (fun _ => none) pkRangeId (some opened) }
  have stepFirst : step region accountState (.new config) (readFailure pkRangeId first now failbackJitter) =
      afterFirst := by
    rw [step_readFailure region enabledNew several foundFirst]
    simp only [PartitionEndpointState.new, Option.getD_none, opens]
    rfl
  -- the failures at the second region count it up to one below the threshold
  obtain ⟨counted, enabledCounted, configCounted⟩ :=
    run_readFailures_count region several foundSecond failbackJitter (config.readFailureThreshold.toNat - 2) afterFirst
      opened
      enabledNew (show afterFirst.circuitBreakerOverrides pkRangeId = some opened by simp [afterFirst]) rfl
      (show opened.lastFailureTime = now from rfl)
      (show (1 : Int) + _ < asI32 config.readFailureThreshold by rw [cast]; omega)
  -- and the last one, reported away from the current endpoint, trips it where it is
  let reached := run region accountState afterFirst
    (List.replicate (config.readFailureThreshold.toNat - 2) (readFailure pkRangeId second now failbackJitter))
  let tripped : PartitionFailoverEntry ε :=
    { opened with
      readFailureCount := 1 + (config.readFailureThreshold.toNat - 2 : Nat) + 1
      failedEndpoints := [secondEndpoint] }
  have trips : circuitBreakerFailure reached.config
      ((reached.circuitBreakerOverrides pkRangeId).getD (.fresh secondEndpoint now failbackJitter)) true secondEndpoint
      accountState.preferredReadEndpoints now failbackJitter = some tripped := by
    rw [counted, Option.getD_some, configCounted]
    exact circuitBreakerFailure_trips_elsewhere rfl rfl
      (show asI32 config.readFailureThreshold ≤ 1 + _ + 1 by rw [cast]; omega) distinct
  have triggers : canCircuitBreakerTriggerFailover tripped true config = true := by
    simp only [canCircuitBreakerTriggerFailover, if_true, cast, tripped, decide_eq_true_eq]
    omega
  have last : config.readFailureThreshold.toNat - 1 = config.readFailureThreshold.toNat - 2 + 1 := by omega
  refine ⟨tripped, ?_, rfl, triggers, rfl, rfl, List.mem_singleton_self secondEndpoint, ?_⟩
  · rw [last, List.replicate_succ', run_cons, stepFirst, run_append, run_cons, run_nil,
      step_readFailure region enabledCounted several foundSecond]
    simp only [Function.update_self]
    exact trips
  · rw [circuitBreakerRouting, if_neg (by rintro ⟨probe, -⟩; cases probe), if_pos ⟨triggers, rfl⟩]
    rfl

end ReadFailures

end Systems

def twoRegions : AccountEndpointState Nat :=
  ⟨[0, 1], [], false⟩

/-- Ten read failures in region 0 at the default threshold of ten move the entry to
endpoint 1. -/
theorem entries_well_formed_of_ten_failures :
    (run some twoRegions (.new .default) (List.replicate 10 (readFailure () 0 0 0))).circuitBreakerOverrides () =
        some ⟨1, 0, [0], 10, 0, 0, 0, .unhealthy, 0⟩ ∧
      1 ∉ [0] ∧ 0 ∈ twoRegions.preferredReadEndpoints ++ twoRegions.preferredWriteEndpoints ∧
      (1 ≠ 0 → 1 ∈ twoRegions.preferredReadEndpoints) :=
  ⟨by decide, circuit_breaker_entries_stay_well_formed some twoRegions .default (List.replicate 10 (readFailure () 0 0 0))
    () ⟨1, 0, [0], 10, 0, 0, 0, .unhealthy, 0⟩ (by decide)⟩

/-- The default threshold of ten: one read failure in region 0, then nine in region 1. -/
theorem tripped_breaker_routes_of_two_regions :
    PartitionFailoverOptions.default.circuitBreakerEnabledOverride.getD
        PartitionFailoverOptions.default.circuitBreakerEnabled = true ∧
      1 < twoRegions.preferredReadEndpoints.length ∧
      endpointOf some twoRegions 0 = some 0 ∧ endpointOf some twoRegions 1 = some 1 ∧ (1 : Nat) ≠ 0 ∧
      2 ≤ PartitionFailoverOptions.default.readFailureThreshold.toNat ∧
      PartitionFailoverOptions.default.readFailureThreshold.toNat < 2 ^ 31 ∧
      ∃ entry, (run some twoRegions (.new .default)
          (readFailure () 0 0 0 :: List.replicate (PartitionFailoverOptions.default.readFailureThreshold.toNat - 1)
            (readFailure () 1 0 0))).circuitBreakerOverrides () = some entry ∧
        entry.healthStatus = .unhealthy ∧ canCircuitBreakerTriggerFailover entry true .default = true ∧
        entry.currentEndpoint = 0 ∧ entry.firstFailedEndpoint = 0 ∧ 1 ∈ entry.failedEndpoints ∧
        circuitBreakerRouting entry true .default (fun _ => false) = some 0 :=
  ⟨by decide, by decide, rfl, rfl, by decide, by decide, by decide,
    tripped_breaker_routes_to_failed_endpoint some twoRegions .default () 0 1 0 1 0 0 (by decide) (by decide) rfl rfl
      (by decide) (by decide) (by decide)⟩

end CosmosDriver.Routing
