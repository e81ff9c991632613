import Mathlib
import AzureSdk.Lib.Outcome

/-!
# Exponential retry in `typespec_client_core`

`ExponentialRetryPolicy::sleep_duration(k)` scales the whole milliseconds of the
initial delay by `2^k`, adds a random byte of jitter and caps the sum at the maximum
delay. The scaling is `u64` arithmetic done before the cap, so the cap cannot keep
it from overflowing: a debug build panics, as the project models every checked
operation. The retry loop of `Policy::send` asks for `sleep_duration(k)` at each
retry `k` up to `max_retries` while the elapsed time stays below its budget, and with
the default 200 ms initial delay the product passes `u64::MAX` at `k = 57`.
-/

namespace TypespecClientCore

open Outcome

set_option autoImplicit false

/-- `time::Duration`, by its length in nanoseconds. -/
structure Duration where
  nanos : Int
  deriving DecidableEq

namespace Duration

def milliseconds (ms : Int) : Duration := ⟨ms * 1000000⟩

def seconds (s : Int) : Duration := ⟨s * 1000000000⟩

/-- `whole_milliseconds`, truncated toward zero. -/
def wholeMilliseconds (d : Duration) : Int := d.nanos.tdiv 1000000

/-- `Ord::max`, which returns the second argument on a tie. -/
def max (a b : Duration) : Duration := if a.nanos ≤ b.nanos then b else a

@[simp] theorem wholeMilliseconds_milliseconds (ms : Int) : (milliseconds ms).wholeMilliseconds = ms := by
  simp [wholeMilliseconds, milliseconds]

end Duration

/-- `ExponentialRetryPolicy`; `retry_headers` only feeds the retry-after value an attempt reports. -/
structure ExponentialRetryPolicy where
  initialDelay : Duration
  maxRetries : Nat
  maxElapsed : Duration
  maxDelay : Duration
  retryStatusCodes : List Nat

namespace ExponentialRetryPolicy

/-- `ExponentialRetryPolicy::new`: at least 1 ms initially and 1 s at most between tries. -/
def new (initialDelay : Duration) (maxRetries : Nat) (maxElapsed maxDelay : Duration)
    (retryStatusCodes : List Nat) : ExponentialRetryPolicy :=
  ⟨initialDelay.max (.milliseconds 1), maxRetries, maxElapsed, maxDelay.max (.seconds 1), retryStatusCodes⟩

def isExpired (policy : ExponentialRetryPolicy) (sinceStart : Duration) (retryCount : Nat) : Bool :=
  decide (policy.maxRetries ≤ retryCount) || decide (policy.maxElapsed.nanos ≤ sinceStart.nanos)

/-- `u64` arithmetic of a debug build: a result past `u64::MAX` panics. -/
def u64 (n : Nat) : Run Empty Nat := if n < 2 ^ 64 then .ok n else panic

/-- `initial_delay.whole_milliseconds() as u64`. -/
def initialMs (policy : ExponentialRetryPolicy) : Nat :=
  (policy.initialDelay.wholeMilliseconds % 2 ^ 64).toNat

/-- `max_delay.whole_milliseconds().try_into().unwrap_or(u64::MAX)`. -/
def capMs (policy : ExponentialRetryPolicy) : Nat :=
  let maxMs := policy.maxDelay.wholeMilliseconds
  if 0 ≤ maxMs ∧ maxMs < 2 ^ 64 then maxMs.toNat else 2 ^ 64 - 1

/-- `sleep_duration`, with the random byte it draws. -/
def sleepDuration (policy : ExponentialRetryPolicy) (retryCount : Nat) (jitter : UInt8) :
    Run Empty Duration := do
  let power ← u64 (2 ^ retryCount)
  let scaled ← u64 (policy.initialMs * power)
  let sleepMs ← u64 (scaled + jitter.toNat)
  let sleepMs := min sleepMs policy.capMs
  -- `sleep_ms as i64` wraps past `i64::MAX`
  pure (.milliseconds (if sleepMs < 2 ^ 63 then sleepMs else (sleepMs : Int) - 2 ^ 64))

/-- `RetryPolicy::wait`: the longer of the server's retry-after and the policy's sleep. -/
def wait (policy : ExponentialRetryPolicy) (retryCount : Nat) (retryAfter : Option Duration)
    (jitter : UInt8) : Run Empty Duration := do
  let policySleep ← policy.sleepDuration retryCount jitter
  pure (match retryAfter with
    | none => policySleep
    | some after => after.max policySleep)

end ExponentialRetryPolicy

/-- What one round of the loop meets: what the rest of the pipeline gave, or the body
failing to reset before the request of a retry (the first round makes no reset). -/
inductive AttemptResult where
  | response (status : Nat) (retryAfterHeader : Option Duration)
  /-- An `Io` or `Connection` error. -/
  | transportError
  | otherError
  | bodyResetFailed
  deriving DecidableEq

/-- One attempt of the loop: its result, the time since the first attempt when the loop
reads the clock after it, and the byte the following wait draws. -/
structure Attempt where
  result : AttemptResult
  sinceStart : Duration
  jitter : UInt8

inductive SendResult where
  | response (status : Nat)
  | error
  deriving DecidableEq

structure SendRun where
  requests : Nat
  waits : List Duration
  result : SendResult

def defaultRetryStatusCodes : List Nat := [408, 429, 500, 502, 503, 504]

/-- An attempt's result: one to return at once, or the last result and the retry-after
value to retry with. -/
def classify (codes : List Nat) : AttemptResult → SendResult ⊕ (SendResult × Option Duration)
  | .response status retryAfterHeader =>
      let codes := if codes.isEmpty then defaultRetryStatusCodes else codes
      if status ∉ codes then .inl (.response status)
      else .inr (.response status, if status = 429 ∨ status = 503 then retryAfterHeader else none)
  | .transportError => .inr (.error, none)
  | .otherError => .inl .error
  | .bodyResetFailed => .inl .error

structure ExponentialRetryOptions where
  initialDelay : Duration
  maxRetries : Nat
  maxTotalElapsed : Duration
  maxDelay : Duration

def ExponentialRetryOptions.default : ExponentialRetryOptions :=
  ⟨.milliseconds 200, 8, .seconds 60, .seconds 30⟩

/-- `RetryOptions::to_policy` in the exponential mode. -/
def ExponentialRetryOptions.toPolicy (options : ExponentialRetryOptions) (retryStatusCodes : List Nat) :
    ExponentialRetryPolicy :=
  .new options.initialDelay options.maxRetries options.maxTotalElapsed options.maxDelay retryStatusCodes

namespace ExponentialRetryPolicy

/-- The loop of `Policy::send` from retry count `retryCount`, over the attempts the
pipeline and the clock supply. -/
def send (policy : ExponentialRetryPolicy) : Nat → List Attempt → Run Empty SendRun
  | _, [] => outOfFuel
  | retryCount, attempt :: rest =>
      -- `request.body.reset()?` before every retry ends the loop when it fails
      if 0 < retryCount ∧ attempt.result = .bodyResetFailed then .ok ⟨0, [], .error⟩
      else match classify policy.retryStatusCodes attempt.result with
        | .inl finished => .ok ⟨1, [], finished⟩
        | .inr (last, retryAfter) =>
            if policy.isExpired attempt.sinceStart retryCount then .ok ⟨1, [], last⟩
            else do
              let slept ← policy.wait (retryCount + 1) retryAfter attempt.jitter
              let later ← policy.send (retryCount + 1) rest
              pure ⟨later.requests + 1, slept :: later.waits, later.result⟩

theorem u64_of_lt {n : Nat} (fits : n < 2 ^ 64) : u64 n = .ok n := by
  rw [u64, if_pos fits]

theorem u64_of_le {n : Nat} (overflows : 2 ^ 64 ≤ n) : u64 n = panic := by
  rw [u64, if_neg (not_lt.mpr overflows)]

theorem sleepDuration_eq_panic_iff (policy : ExponentialRetryPolicy) (retryCount : Nat) (jitter : UInt8) :
    policy.sleepDuration retryCount jitter = panic ↔
      64 ≤ retryCount ∨ 2 ^ 64 ≤ policy.initialMs * 2 ^ retryCount + jitter.toNat := by
  unfold sleepDuration
  by_cases wide : 64 ≤ retryCount
  · have power : 2 ^ 64 ≤ 2 ^ retryCount := Nat.pow_le_pow_right (by decide) wide
    simp [u64_of_le power, wide, Outcome.panic]
  · have power : 2 ^ retryCount < 2 ^ 64 := Nat.pow_lt_pow_right (by decide) (by omega)
    rw [u64_of_lt power, ok_bind]
    by_cases scaledOver : 2 ^ 64 ≤ policy.initialMs * 2 ^ retryCount
    · simp only [u64_of_le scaledOver, Outcome.panic, error_bind, wide, false_or, true_iff]
      omega
    · rw [u64_of_lt (not_le.mp scaledOver), ok_bind]
      by_cases sumOver : 2 ^ 64 ≤ policy.initialMs * 2 ^ retryCount + jitter.toNat
      · simp only [u64_of_le sumOver, Outcome.panic, error_bind, true_iff]
        exact Or.inr sumOver
      · simp [u64_of_lt (not_le.mp sumOver), wide, Outcome.panic]
        omega

theorem sleepDuration_of_fits (policy : ExponentialRetryPolicy) {retryCount : Nat} {jitter : UInt8}
    (small : retryCount < 64) (fits : policy.initialMs * 2 ^ retryCount + jitter.toNat < 2 ^ 64) :
    policy.sleepDuration retryCount jitter =
      let sleepMs := min (policy.initialMs * 2 ^ retryCount + jitter.toNat) policy.capMs
      .ok (.milliseconds (if sleepMs < 2 ^ 63 then sleepMs else (sleepMs : Int) - 2 ^ 64)) := by
  have power : 2 ^ retryCount < 2 ^ 64 := Nat.pow_lt_pow_right (by decide) small
  unfold sleepDuration
  rw [u64_of_lt power, ok_bind, u64_of_lt (by omega), ok_bind, u64_of_lt fits, ok_bind]
  rfl

theorem send_retry {policy : ExponentialRetryPolicy} {retryCount : Nat} {attempt : Attempt}
    {rest : List Attempt} {last : SendResult} {retryAfter : Option Duration}
    (retried : classify policy.retryStatusCodes attempt.result = .inr (last, retryAfter))
    (live : policy.isExpired attempt.sinceStart retryCount = false) :
    policy.send retryCount (attempt :: rest) = (do
      let slept ← policy.wait (retryCount + 1) retryAfter attempt.jitter
      let later ← policy.send (retryCount + 1) rest
      pure ⟨later.requests + 1, slept :: later.waits, later.result⟩) := by
  have notReset : attempt.result ≠ .bodyResetFailed := fun reset => by
    rw [reset] at retried
    cases retried
  simp only [send, notReset, and_false, if_false, retried, live, Bool.false_eq_true]

theorem send_eq_panic_of_sleep {policy : ExponentialRetryPolicy} {stop : Nat}
    (panics : ∀ jitter, policy.sleepDuration stop jitter = panic)
    (before : ∀ k < stop, ∀ jitter, ∃ slept, policy.sleepDuration k jitter = .ok slept)
    (reachable : stop ≤ policy.maxRetries) {retryCount : Nat} {attempts : List Attempt}
    (started : retryCount < stop) (long : stop ≤ retryCount + attempts.length)
    (failing : ∀ attempt ∈ attempts, attempt.result = .transportError ∧
      attempt.sinceStart.nanos < policy.maxElapsed.nanos) :
    policy.send retryCount attempts = panic := by
  induction attempts generalizing retryCount with
  | nil => simp at long; omega
  | cons attempt rest induction =>
      obtain ⟨transport, inTime⟩ := failing attempt List.mem_cons_self
      have live : policy.isExpired attempt.sinceStart retryCount = false := by
        simp [isExpired]
        omega
      have retried : classify policy.retryStatusCodes attempt.result = .inr (.error, none) := by
        rw [transport]
        rfl
      rw [send_retry retried live]
      by_cases last : retryCount + 1 = stop
      · -- this retry's sleep overflows
        simp [wait, last, panics]
        rfl
      · -- this retry sleeps, and a later one overflows
        obtain ⟨slept, sleeps⟩ := before (retryCount + 1) (by omega) attempt.jitter
        have later : policy.send (retryCount + 1) rest = panic :=
          induction (by omega) (by simp at long; omega)
            (fun other member => failing other (List.mem_cons_of_mem _ member))
        simp [wait, sleeps, later]
        rfl

/-- A loop that returns made at most `max_retries + 1` requests. It waited before each
request but the first, and once more when it stopped at a body that failed to reset. -/
theorem send_requests_le {policy : ExponentialRetryPolicy} {retryCount : Nat} {attempts : List Attempt}
    {run : SendRun} (within : retryCount ≤ policy.maxRetries)
    (finished : policy.send retryCount attempts = .ok run) :
    retryCount + run.requests ≤ policy.maxRetries + 1 ∧
      (run.waits.length + 1 = run.requests ∨ run.waits.length = run.requests ∧ run.result = .error) := by
  induction attempts generalizing retryCount run with
  | nil => cases finished
  | cons attempt rest induction =>
      unfold send at finished
      split at finished
      · -- the reset before this retry failed: no request this round
        cases finished
        exact ⟨by dsimp only; omega, .inr ⟨rfl, rfl⟩⟩
      · split at finished
        · cases finished
          exact ⟨by dsimp only; omega, .inl rfl⟩
        · split at finished
          · cases finished
            exact ⟨by dsimp only; omega, .inl rfl⟩
          · rename_i notExpired
            have below : retryCount < policy.maxRetries := by
              simp [isExpired] at notExpired
              omega
            obtain ⟨slept, -, resumed⟩ := bind_eq_ok.mp finished
            obtain ⟨later, laterRun, built⟩ := bind_eq_ok.mp resumed
            cases built
            obtain ⟨bound, waits⟩ := induction (by omega) laterRun
            refine ⟨by simp only; omega, ?_⟩
            rcases waits with counted | ⟨counted, failed⟩
            · exact .inl (by simp only [List.length_cons]; omega)
            · exact .inr ⟨by simp only [List.length_cons]; omega, failed⟩

theorem send_requests_le_after_reset_failure :
    ∃ run, (ExponentialRetryOptions.default.toPolicy []).send 0
        [⟨.transportError, ⟨0⟩, 0⟩, ⟨.bodyResetFailed, ⟨0⟩, 0⟩] = .ok run ∧
      0 + run.requests ≤ (ExponentialRetryOptions.default.toPolicy []).maxRetries + 1 ∧
      (run.waits.length + 1 = run.requests ∨ run.waits.length = run.requests ∧ run.result = .error) :=
  ⟨_, rfl, @send_requests_le _ 0 [⟨.transportError, ⟨0⟩, 0⟩, ⟨.bodyResetFailed, ⟨0⟩, 0⟩] _ (by decide) rfl⟩

end ExponentialRetryPolicy

/-- The default options with enough retries and a day to use them: at the 57th retry
`200 * 2^57` passes `u64::MAX`, and `send` panics on any run of transport failures that
lasts that long. -/
theorem send_panics_at_retry_57 (attempts : List Attempt) (long : 57 ≤ attempts.length)
    (failing : ∀ attempt ∈ attempts, attempt.result = .transportError ∧
      attempt.sinceStart.nanos < (Duration.seconds 86400).nanos) :
    ({ ExponentialRetryOptions.default with maxRetries := 64, maxTotalElapsed := .seconds 86400 }.toPolicy
      []).send 0 attempts = panic := by
  have initial : ExponentialRetryPolicy.initialMs
      ({ ExponentialRetryOptions.default with maxRetries := 64, maxTotalElapsed := .seconds 86400 }.toPolicy
        []) = 200 := by decide
  refine @ExponentialRetryPolicy.send_eq_panic_of_sleep _ 57 ?_ ?_ (by decide) _ _ (by decide)
    (by omega) failing
  · intro jitter
    rw [ExponentialRetryPolicy.sleepDuration_eq_panic_iff, initial]
    exact Or.inr (le_add_right (by norm_num))
  · intro k early jitter
    -- below the 57th retry the scaled delay still fits
    have power : 2 ^ k ≤ 2 ^ 56 := Nat.pow_le_pow_right (by decide) (by omega)
    have jitterSmall : jitter.toNat < 256 := jitter.toNat_lt
    have fits : 200 * 2 ^ k + jitter.toNat < 2 ^ 64 := by omega
    exact ⟨_, ExponentialRetryPolicy.sleepDuration_of_fits _ (by omega) (by rw [initial]; exact fits)⟩

theorem send_panics_at_retry_57_now :
    ({ ExponentialRetryOptions.default with maxRetries := 64, maxTotalElapsed := .seconds 86400 }.toPolicy
      []).send 0 (List.replicate 57 ⟨.transportError, ⟨0⟩, 0⟩) = panic :=
  send_panics_at_retry_57 _ (by simp) (by simp [Duration.seconds])

end TypespecClientCore
