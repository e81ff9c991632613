import Mathlib
import AzureSdk.Core.BearerToken
import AzureSdk.Lib.SortedMap

/-!
# The token refresher shared by the Event Hubs and Service Bus authorizers

Both crates' `Authorizer::refresh_tokens` start every round of their loop the same
way: with no token to watch they sleep `TOKEN_REFRESH_BIAS`; otherwise they draw a
jitter in milliseconds from `[jitter_min, jitter_max)`, add it to the six-minute bias,
and sleep until the earliest expiry less that bias, or not at all when that time has
passed. What the pass after the sleep does is each crate's own.

The refresher is a task with a program counter, and an authorizer is a system of
events: time passes, a client authorizes a path, or the refresher takes one step at
the clock's reading, with the jitter it would draw and what the connection answers.
Steps are atomic, and a refresher that is asleep, stopped or not started ignores its
step. Times are milliseconds.
-/

namespace Messaging

set_option autoImplicit false

/-- `TokenRefreshTimes`, in milliseconds. -/
structure TokenRefreshTimes where
  beforeExpirationRefreshTime : Int
  jitterMin : Int
  jitterMax : Int
  deriving DecidableEq

/-- `TOKEN_REFRESH_BIAS`: six minutes. -/
def tokenRefreshBias : Int := 360000

def TokenRefreshTimes.default : TokenRefreshTimes := ⟨tokenRefreshBias, -5000, 5000⟩

/-- `rng().random_range(jitter_min..jitter_max)` can return `jitter`. -/
def TokenRefreshTimes.Draws (times : TokenRefreshTimes) (jitter : Int) : Prop :=
  times.jitterMin ≤ jitter ∧ jitter < times.jitterMax

instance (times : TokenRefreshTimes) (jitter : Int) : Decidable (times.Draws jitter) :=
  inferInstanceAs (Decidable (_ ∧ _))

structure Wake where
  bias : Int
  refreshTime : Int
  deriving DecidableEq

def TokenRefreshTimes.wake (times : TokenRefreshTimes) (expirations : List Int) (jitter : Int) :
    Option Wake :=
  expirations.min?.map fun first =>
    ⟨times.beforeExpirationRefreshTime + jitter, first - (times.beforeExpirationRefreshTime + jitter)⟩

/-- Where the refresher task is. `sleeping wakeAt bias` wakes at `wakeAt` into a pass with
that bias, or into the top of the loop after an idle sleep or a back-off. -/
inductive RefresherPc where
  | notStarted
  | top
  | sleeping (wakeAt : Int) (bias : Option Int)
  | stopped
  deriving DecidableEq

inductive Next where
  | park (pc : RefresherPc)
  | pass (bias : Int)
  deriving DecidableEq

/-- The shared part of a refresher step at `now`, before any pass: `expirations` are the
expiry times the loop watches and `jitter` is the draw a round would make. -/
def next (times : TokenRefreshTimes) (expirations : List Int) (jitter now : Int) :
    RefresherPc → Next
  | .top =>
      match times.wake expirations jitter with
      | none => .park (.sleeping (now + tokenRefreshBias) none)
      | some wake =>
          if now < wake.refreshTime then .park (.sleeping wake.refreshTime (some wake.bias))
          else .pass wake.bias
  | .sleeping wakeAt bias =>
      if wakeAt ≤ now then
        match bias with
        | none => .park .top
        | some bias => .pass bias
      else .park (.sleeping wakeAt bias)
  | pc => .park pc

/-- `authorization_refresher.get_or_init`: the task starts once, and only once. -/
def RefresherPc.getOrInit : RefresherPc → RefresherPc
  | .notStarted => .top
  | pc => pc

def writeBack (scopes updatedTokens : List (List Char × AzureCore.AccessToken)) :
    List (List Char × AzureCore.AccessToken) :=
  updatedTokens.foldl (fun scopes entry => SortedMap.insert scopes entry.1 entry.2) scopes

inductive Event (C : Type) where
  | wait (duration : Nat)
  | authorizePath (path : List Char) (connection : C)
  | refresh (jitter : Int) (connection : C)

structure System (A : Type) where
  clock : Int
  authorizer : A

namespace System

variable {A C : Type} (authorize : C → Int → List Char → A → A) (refresh : C → Int → Int → A → A)

/-- One event: `authorize connection now path` is the state a call of `authorize_path`
leaves, `refresh connection jitter now` the state after a refresher step. -/
def step (system : System A) : Event C → System A
  | .wait duration => { system with clock := system.clock + duration }
  | .authorizePath path connection =>
      { system with authorizer := authorize connection system.clock path system.authorizer }
  | .refresh jitter connection =>
      { system with authorizer := refresh connection jitter system.clock system.authorizer }

def run (system : System A) (events : List (Event C)) : System A :=
  events.foldl (step authorize refresh) system

@[simp] theorem run_nil (system : System A) : run authorize refresh system [] = system := rfl

@[simp] theorem run_cons (system : System A) (event : Event C) (events : List (Event C)) :
    run authorize refresh system (event :: events) =
      run authorize refresh (step authorize refresh system event) events := rfl

theorem run_append (system : System A) (first later : List (Event C)) :
    run authorize refresh system (first ++ later) =
      run authorize refresh (run authorize refresh system first) later := by
  simp only [run, List.foldl_append]

theorem run_preserves (Good : A → Prop)
    (authorizeKeeps : ∀ connection now path authorizer, Good authorizer →
      Good (authorize connection now path authorizer))
    (refreshKeeps : ∀ connection jitter now authorizer, Good authorizer →
      Good (refresh connection jitter now authorizer))
    (events : List (Event C)) :
    ∀ system : System A, Good system.authorizer → Good (run authorize refresh system events).authorizer := by
  induction events with
  | nil => exact fun _ good => good
  | cons event rest induction =>
      intro system good
      apply induction
      cases event with
      | wait duration => exact good
      | authorizePath path connection => exact authorizeKeeps _ _ _ _ good
      | refresh jitter connection => exact refreshKeeps _ _ _ _ good

end System

/-! ## The default schedule -/

theorem wake_single (times : TokenRefreshTimes) (expiry jitter : Int) :
    times.wake [expiry] jitter =
      some ⟨times.beforeExpirationRefreshTime + jitter,
        expiry - (times.beforeExpirationRefreshTime + jitter)⟩ := rfl

theorem bias_bounds {jitter : Int} (drawn : TokenRefreshTimes.default.Draws jitter) :
    355000 ≤ TokenRefreshTimes.default.beforeExpirationRefreshTime + jitter ∧
      TokenRefreshTimes.default.beforeExpirationRefreshTime + jitter < 365000 := by
  obtain ⟨above, below⟩ := drawn
  simp only [TokenRefreshTimes.default, tokenRefreshBias] at above below ⊢
  omega

end Messaging
