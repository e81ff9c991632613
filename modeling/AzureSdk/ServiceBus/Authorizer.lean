import Mathlib
import AzureSdk.Lib.EState
import AzureSdk.Lib.SortedMap
import AzureSdk.Messaging.TokenRefresh

/-!
# The Service Bus authorizer and its token refresher

`Authorizer::authorize_path` caches a token for a path the first time it is asked for
one, and starts the refresher with the first token it caches. Its refresher loop has
the shape of the Event Hubs one, but a pass propagates every failure with `?`: an error
of the credential, of the connection upgrade or of `perform_authorization` ends
`refresh_tokens`, `refresh_tokens_task` logs it and returns, and the `OnceLock` that
started the task never starts another. From then on nothing refreshes a cached token
(`run_keeps_ended`), so one transient failure leaves every path to expire.
-/

namespace ServiceBus

set_option autoImplicit false

open AzureCore Messaging EState

/-- `SERVICEBUS_AUTHORIZATION_SCOPE`. -/
def authorizationScope : List (List Char) := ["https://servicebus.azure.net/.default".toList]

/-- What the AMQP connection answers in one step: whether the refresher's weak reference
still upgrades, and what `perform_authorization` (a CBS session, attach, authorize and
detach) returns for a path and token. -/
structure Connection where
  upgrades : Bool
  performAuthorization : List Char → AccessToken → Except Error Unit

structure Authorizer (σ : Type) where
  authorizationScopes : List (List Char × AccessToken)
  authorizationRefresher : RefresherPc
  tokenRefreshBias : TokenRefreshTimes
  credential : σ

def unableToAdd : Error := ⟨.other, "Unable to add authentication token".toList⟩

def connectionDropped : Error := ⟨.other, "Connection has been dropped".toList⟩

namespace Authorizer

variable {σ : Type} (credential : TokenCredential σ) (connection : Connection) (now : Int)

def new (state : σ) : Authorizer σ := ⟨[], .notStarted, .default, state⟩

/-- One call of `get_token`, its result kept as a value. -/
def getToken : EStateM Error (Authorizer σ) (Except Error AccessToken) :=
  modifyGet fun authorizer =>
    let (state, result) := credential authorizer.credential authorizationScope now
    (result, { authorizer with credential := state })

/-- `authorize_path`: a path without a token gets one, presented on the link and
inserted; `insert` reports a token already there as an error, after replacing it. -/
def authorizePath (path : List Char) : EStateM Error (Authorizer σ) AccessToken := do
  if (SortedMap.get (← get).authorizationScopes path).isNone then
    let token ← MonadExcept.ofExcept (← getToken credential now)
    MonadExcept.ofExcept (connection.performAuthorization path token)
    let present ← modifyGet fun authorizer =>
      (SortedMap.get authorizer.authorizationScopes path,
        { authorizer with authorizationScopes := SortedMap.insert authorizer.authorizationScopes path token })
    if present.isSome then throw unableToAdd
    modify fun authorizer =>
      { authorizer with authorizationRefresher := authorizer.authorizationRefresher.getOrInit }
  orThrow unableToAdd (SortedMap.get (← get).authorizationScopes path)

/-- The `tokens_to_refresh` of a pass: the paths whose tokens expire before `now` plus the
bias. -/
def tokensToRefresh (authorizer : Authorizer σ) (bias : Int) : List (List Char) :=
  (authorizer.authorizationScopes.filter fun entry => !decide (now + bias ≤ entry.2.expiresOn)).map
    Prod.fst

/-- The pass's loop body for one path: a new token, the connection upgraded, the token
presented. -/
def refreshPath (updatedTokens : List (List Char × AccessToken)) (url : List Char) :
    EStateM Error (Authorizer σ) (List (List Char × AccessToken)) := do
  let newToken ← MonadExcept.ofExcept (← getToken credential now)
  if !connection.upgrades then throw connectionDropped
  MonadExcept.ofExcept (connection.performAuthorization url newToken)
  pure (SortedMap.insert updatedTokens url newToken)

/-- A pass: every due path refreshed in turn, the first error ending it, then the fresh
tokens written back. -/
def refreshDue (bias : Int) : EStateM Error (Authorizer σ) Unit := do
  let updatedTokens ← (tokensToRefresh now (← get) bias).foldlM (refreshPath credential connection now) []
  if !updatedTokens.isEmpty then
    modify fun authorizer =>
      { authorizer with authorizationScopes := writeBack authorizer.authorizationScopes updatedTokens }

def expirationTimes (authorizer : Authorizer σ) : List Int :=
  authorizer.authorizationScopes.map fun entry => entry.2.expiresOn

/-- One step of `refresh_tokens` at `now`, `jitter` being the round's draw: an error of the
pass ends the task. -/
def refreshTokens (jitter : Int) (authorizer : Authorizer σ) : Authorizer σ :=
  match next authorizer.tokenRefreshBias (expirationTimes authorizer) jitter now
      authorizer.authorizationRefresher with
  | .park pc => { authorizer with authorizationRefresher := pc }
  | .pass bias =>
      match refreshDue credential connection now bias authorizer with
      | .ok () passed => { passed with authorizationRefresher := .top }
      | .error _ failed => { failed with authorizationRefresher := .stopped }

@[simp] theorem getToken_apply (authorizer : Authorizer σ) :
    getToken credential now authorizer =
      .ok (credential authorizer.credential authorizationScope now).2
        { authorizer with credential := (credential authorizer.credential authorizationScope now).1 } := rfl

theorem authorizePath_of_missing {path : List Char} {authorizer : Authorizer σ}
    (missing : SortedMap.get authorizer.authorizationScopes path = none) {state : σ} {token : AccessToken}
    (issued : credential authorizer.credential authorizationScope now = (state, .ok token))
    (accepted : connection.performAuthorization path token = .ok ()) :
    authorizePath credential connection now path authorizer =
      .ok token
        { authorizer with
          authorizationScopes := SortedMap.insert authorizer.authorizationScopes path token
          authorizationRefresher := authorizer.authorizationRefresher.getOrInit
          credential := state } := by
  simp [authorizePath, missing, issued, accepted, SortedMap.get_insert]

theorem refreshDue_of_failure {bias : Int} {authorizer : Authorizer σ} {url : List Char}
    {rest : List (List Char)} (due : tokensToRefresh now authorizer bias = url :: rest) {state : σ} {e : Error}
    (failed : credential authorizer.credential authorizationScope now = (state, .error e)) :
    refreshDue credential connection now bias authorizer = .error e { authorizer with credential := state } := by
  simp [refreshDue, due, refreshPath, failed]

theorem refreshTokens_of_park {jitter : Int} {authorizer : Authorizer σ} {pc : RefresherPc}
    (parks : next authorizer.tokenRefreshBias (expirationTimes authorizer) jitter now
      authorizer.authorizationRefresher = .park pc) :
    refreshTokens credential connection now jitter authorizer = { authorizer with authorizationRefresher := pc } := by
  simp only [refreshTokens, parks]

theorem refreshTokens_of_failed_pass {jitter bias : Int} {authorizer failed : Authorizer σ} {e : Error}
    (passes : next authorizer.tokenRefreshBias (expirationTimes authorizer) jitter now
      authorizer.authorizationRefresher = .pass bias)
    (fails : refreshDue credential connection now bias authorizer = .error e failed) :
    refreshTokens credential connection now jitter authorizer = { failed with authorizationRefresher := .stopped } := by
  simp only [refreshTokens, passes, fails]

/-! ## An ended refresher never comes back -/

structure Ended (path : List Char) (token : AccessToken) (authorizer : Authorizer σ) : Prop where
  stopped : authorizer.authorizationRefresher = .stopped
  holds : SortedMap.get authorizer.authorizationScopes path = some token

variable {held : List Char} {token : AccessToken}

theorem refreshTokens_keeps (jitter : Int) {authorizer : Authorizer σ} (ended : Ended held token authorizer) :
    Ended held token (refreshTokens credential connection now jitter authorizer) := by
  have parks : next authorizer.tokenRefreshBias (expirationTimes authorizer) jitter now
      authorizer.authorizationRefresher = .park .stopped := by
    rw [ended.stopped]
    rfl
  simp only [refreshTokens, parks]
  exact ⟨rfl, ended.holds⟩

theorem getToken_keeps : Keeps (Ended held token) (getToken credential now) :=
  fun _ ended => ⟨ended.stopped, ended.holds⟩

theorem authorizePath_keeps (path : List Char) :
    Keeps (Ended held token) (authorizePath credential connection now path) := by
  have answered : Keeps (Ended held token)
      (do orThrow unableToAdd (SortedMap.get (← get).authorizationScopes path) :
        EStateM Error (Authorizer σ) AccessToken) := by
    refine keeps_get_bind fun authorizer ended => ?_
    cases SortedMap.get authorizer.authorizationScopes path <;> exact ended
  have started : Keeps (Ended held token)
      (modify fun authorizer : Authorizer σ =>
        { authorizer with authorizationRefresher := authorizer.authorizationRefresher.getOrInit } :
        EStateM Error (Authorizer σ) PUnit) := by
    refine keeps_modify fun authorizer ended => ⟨?_, ended.holds⟩
    show authorizer.authorizationRefresher.getOrInit = _
    rw [ended.stopped]
    rfl
  unfold authorizePath
  refine keeps_get_bind fun authorizer ended => ?_
  dsimp only
  split
  · next missing =>
      have other : path ≠ held := by
        rintro rfl
        rw [ended.holds] at missing
        cases missing
      refine keeps_bind (getToken_keeps credential now) (fun result => ?_) authorizer ended
      refine keeps_bind (keeps_ofExcept _ result) fun fresh => ?_
      refine keeps_bind (keeps_ofExcept _ _) fun _ => ?_
      refine keeps_bind (keeps_modifyGet fun kept stillEnded => ⟨stillEnded.stopped, ?_⟩) fun present => ?_
      · rw [SortedMap.get_insert, if_neg (Ne.symm other)]
        exact stillEnded.holds
      · split
        · exact keeps_bind (keeps_throw _ _) fun _ => keeps_bind started fun _ => answered
        · exact keeps_bind started fun _ => answered
  · exact answered authorizer ended

end Authorizer

variable {σ : Type} (credential : TokenCredential σ)

/-- Clients calling `authorize_path` and the refresher taking steps, in any order. -/
def run : System (Authorizer σ) → List (Event Connection) → System (Authorizer σ) :=
  System.run (fun connection now path authorizer =>
      final (Authorizer.authorizePath credential connection now path authorizer))
    (fun connection jitter now authorizer => Authorizer.refreshTokens credential connection now jitter authorizer)

open Authorizer in
theorem run_keeps_ended {held : List Char} {token : AccessToken} (events : List (Event Connection))
    (system : System (Authorizer σ)) (ended : Ended held token system.authorizer) :
    Ended held token (run credential system events).authorizer :=
  System.run_preserves _ _ (Ended held token)
    (fun connection now path _ ended => authorizePath_keeps credential connection now path _ ended)
    (fun connection jitter now _ ended => refreshTokens_keeps credential connection now jitter ended)
    events system ended

/-- A credential whose call number `failure`, counting from zero, fails with `outage`, and
whose other calls issue a token expiring `lifetime` after the call. -/
def failingAt (failure : Nat) (lifetime : Int) (outage : Error) : TokenCredential Nat :=
  fun calls _ now => (calls + 1, if calls = failure then .error outage else .ok ⟨"token".toList, now + lifetime⟩)

def Connection.live : Connection := ⟨true, fun _ _ => .ok ()⟩

/-- A path's first authorization, the refresher's first round, time up to `late` past that
round's refresh time, the pass there, and a second path's first authorization. -/
def transientFailure (path other : List Char) (lifetime jitter : Int) (late : Nat) : List (Event Connection) :=
  [.authorizePath path .live, .refresh jitter .live,
    .wait (lifetime - (tokenRefreshBias + jitter) + late).toNat, .refresh jitter .live,
    .authorizePath other .live]

open Authorizer in
theorem transientFailure_ended {lifetime start jitter : Int} {late : Nat} {outage : Error}
    {path other : List Char} (long : 365000 < lifetime) (drawn : TokenRefreshTimes.default.Draws jitter)
    (prompt : 0 < late) (distinct : other ≠ path) :
    Ended path ⟨"token".toList, start + lifetime⟩
        (run (failingAt 1 lifetime outage) ⟨start, new 0⟩ (transientFailure path other lifetime jitter late)).authorizer ∧
      SortedMap.get (run (failingAt 1 lifetime outage) ⟨start, new 0⟩
          (transientFailure path other lifetime jitter late)).authorizer.authorizationScopes other =
        some ⟨"token".toList, start + (lifetime - (Messaging.tokenRefreshBias + jitter) + late) + lifetime⟩ := by
  obtain ⟨biasLow, biasHigh⟩ := bias_bounds drawn
  have defaultBias : TokenRefreshTimes.default.beforeExpirationRefreshTime = Messaging.tokenRefreshBias := rfl
  rw [defaultBias] at biasLow biasHigh
  set token : AccessToken := ⟨"token".toList, start + lifetime⟩
  set bias := Messaging.tokenRefreshBias + jitter
  set woken := start + (lifetime - bias + late)
  have authorized : final (authorizePath (failingAt 1 lifetime outage) .live start path (new 0)) =
      ⟨[(path, token)], .top, .default, 1⟩ := by
    rw [authorizePath_of_missing _ _ _ rfl rfl rfl]
    rfl
  have asleep : refreshTokens (failingAt 1 lifetime outage) .live start jitter ⟨[(path, token)], .top, .default, 1⟩ =
      ⟨[(path, token)], .sleeping (start + lifetime - bias) (some bias), .default, 1⟩ := by
    apply refreshTokens_of_park
    have ahead : start < start + lifetime - bias := by omega
    simp only [next, expirationTimes, List.map_cons, List.map_nil, wake_single, defaultBias]
    rw [if_pos ahead]
  have waited : start + ((lifetime - (Messaging.tokenRefreshBias + jitter) + late).toNat : Int) = woken := by
    rw [Int.toNat_of_nonneg (by omega)]
  have failed : refreshTokens (failingAt 1 lifetime outage) .live woken jitter
      ⟨[(path, token)], .sleeping (start + lifetime - bias) (some bias), .default, 1⟩ =
      ⟨[(path, token)], .stopped, .default, 2⟩ := by
    have wakes : start + lifetime - bias ≤ woken := by omega
    have listed : tokensToRefresh woken ⟨[(path, token)], .sleeping (start + lifetime - bias) (some bias), .default, 1⟩
        bias = [path] := by
      have notYet : ¬ woken + bias ≤ start + lifetime := by omega
      simp [tokensToRefresh, token, notYet]
    exact refreshTokens_of_failed_pass _ _ _ (by simp only [next, if_pos wakes])
      (refreshDue_of_failure _ _ _ listed rfl)
  have reauthorized : final (authorizePath (failingAt 1 lifetime outage) .live woken other
      ⟨[(path, token)], .stopped, .default, 2⟩) =
      ⟨SortedMap.insert [(path, token)] other ⟨"token".toList, woken + lifetime⟩, .stopped, .default, 3⟩ := by
    have missing : SortedMap.get [(path, token)] other = none := by simp [SortedMap.get, distinct]
    rw [authorizePath_of_missing _ _ _ missing rfl rfl]
    rfl
  simp only [run, transientFailure, System.run_cons, System.run_nil, System.step, authorized, asleep, waited]
  rw [failed, reauthorized]
  refine ⟨⟨rfl, ?_⟩, ?_⟩
  · rw [SortedMap.get_insert, if_neg (Ne.symm distinct)]
    simp [SortedMap.get]
  · rw [SortedMap.get_insert, if_pos rfl]

open Authorizer in
/-- With the default refresh times and a live connection, a credential whose tokens last
over six minutes five seconds and whose only failure is the refresher's first call
(the next call succeeds) ends the refresher: after that pass no call and no step ever
replaces the first path's token. -/
theorem transient_failure_ends_refresher (lifetime start jitter : Int) (late : Nat) (outage : Error)
    (path other : List Char) (long : 365000 < lifetime) (drawn : TokenRefreshTimes.default.Draws jitter)
    (prompt : 0 < late) (distinct : other ≠ path) (later : List (Event Connection)) :
    SortedMap.get (run (failingAt 1 lifetime outage) ⟨start, new 0⟩
        (transientFailure path other lifetime jitter late)).authorizer.authorizationScopes other =
      some ⟨"token".toList, start + (lifetime - (Messaging.tokenRefreshBias + jitter) + late) + lifetime⟩ ∧
    Ended path ⟨"token".toList, start + lifetime⟩
      (run (failingAt 1 lifetime outage) ⟨start, new 0⟩
        (transientFailure path other lifetime jitter late ++ later)).authorizer := by
  obtain ⟨ended, reauthorized⟩ := transientFailure_ended long drawn prompt distinct
  refine ⟨reauthorized, ?_⟩
  rw [run, System.run_append]
  exact run_keeps_ended _ later _ ended

theorem transient_failure_ends_refresher_after_one_hour :
    (365000 : Int) < 3600000 ∧ TokenRefreshTimes.default.Draws 0 ∧ (0 : Nat) < 1 ∧ "q".toList ≠ "p".toList ∧
      (run (failingAt 1 3600000 ⟨.credential, "timeout".toList⟩) ⟨0, Authorizer.new 0⟩
        (transientFailure "p".toList "q".toList 3600000 0 1 ++ [.wait 359999])).clock = 3600000 ∧
      SortedMap.get (run (failingAt 1 3600000 ⟨.credential, "timeout".toList⟩) ⟨0, Authorizer.new 0⟩
          (transientFailure "p".toList "q".toList 3600000 0 1)).authorizer.authorizationScopes "q".toList =
        some ⟨"token".toList, 0 + (3600000 - (Messaging.tokenRefreshBias + 0) + 1) + 3600000⟩ ∧
      Authorizer.Ended "p".toList ⟨"token".toList, 0 + 3600000⟩
        (run (failingAt 1 3600000 ⟨.credential, "timeout".toList⟩) ⟨0, Authorizer.new 0⟩
          (transientFailure "p".toList "q".toList 3600000 0 1 ++ [.wait 359999])).authorizer :=
  ⟨by decide, by decide, Nat.one_pos, by decide, rfl,
    transient_failure_ends_refresher 3600000 0 0 1 ⟨.credential, "timeout".toList⟩ "p".toList "q".toList
      (by decide) (by decide) Nat.one_pos (by decide) [.wait 359999]⟩

end ServiceBus
